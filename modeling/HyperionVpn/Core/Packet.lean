import HyperionVpn.Lib.Bytes
import HyperionVpn.Lib.Ipv4

/-! The Ethernet/IPv4/UDP parser of the knock sniffer. The outer option is a
panic of an out-of-range access, the inner one the parser's own result. -/
namespace HyperionVpn.Packet
open Bytes Net

def ethernetHeaderLen : Nat := 14
def ethertypeIpv4 : UInt16 := 0x0800
def ipprotoUdp : UInt8 := 17

def parseIpv4Udp (ip : List UInt8) : Option (Option (Ipv4Addr × UInt16 × List UInt8)) := do
  if ip.length < 20 then return none
  let first : UInt8 ← ip[0]?
  if first >>> 4 ≠ 4 then return none
  let ihl := (first &&& 0x0f).toNat * 4
  if ihl < 20 ∨ ip.length < ihl then return none
  if (← ip[9]?) ≠ ipprotoUdp then return none
  let src : Ipv4Addr := ⟨← ip[12]?, ← ip[13]?, ← ip[14]?, ← ip[15]?⟩
  let udp ← slice ip ihl ip.length
  if udp.length < 8 then return none
  let dstPort := u16FromBE (← udp[2]?) (← udp[3]?)
  let udpLen := (u16FromBE (← udp[4]?) (← udp[5]?)).toNat
  if udpLen < 8 ∨ udpLen > udp.length then return none
  return some (src, dstPort, ← slice udp 8 udpLen)

def parseEthernetIpv4Udp (frame : List UInt8) :
    Option (Option (Ipv4Addr × UInt16 × List UInt8)) := do
  if frame.length < ethernetHeaderLen then return none
  let ethertype := u16FromBE (← frame[12]?) (← frame[13]?)
  if ethertype ≠ ethertypeIpv4 then return none
  parseIpv4Udp (← slice frame ethernetHeaderLen frame.length)

theorem getElem?_of_lt (xs : List α) {i : Nat} (bound : i < xs.length) : ∃ x, xs[i]? = some x :=
  ⟨xs[i], List.getElem?_eq_getElem bound⟩

/-- What `parse_ipv4_udp` does once it has the datagram. -/
def parseUdp (udp : List UInt8) : Option (Option (UInt16 × List UInt8)) := do
  if udp.length < 8 then return none
  let dstPort := u16FromBE (← udp[2]?) (← udp[3]?)
  let udpLen := (u16FromBE (← udp[4]?) (← udp[5]?)).toNat
  if udpLen < 8 ∨ udpLen > udp.length then return none
  return some (dstPort, ← slice udp 8 udpLen)

theorem parseIpv4Udp_short {ip : List UInt8} (short : ip.length < 20) :
    parseIpv4Udp ip = some none := by
  rw [parseIpv4Udp, if_pos short]
  rfl

/-- The length check covers what is read of the header's fixed part. -/
theorem header_bytes {ip : List UInt8} (long : 20 ≤ ip.length) :
    ∃ first proto src, ip[0]? = some first ∧ ip[9]? = some proto ∧
      slice ip 12 16 = some [Ipv4Addr.a src, src.b, src.c, src.d] := by
  obtain ⟨first, h₀⟩ := getElem?_of_lt ip (i := 0) (by omega)
  obtain ⟨proto, h₉⟩ := getElem?_of_lt ip (i := 9) (by omega)
  obtain ⟨a, ha⟩ := getElem?_of_lt ip (i := 12) (by omega)
  obtain ⟨b, hb⟩ := getElem?_of_lt ip (i := 13) (by omega)
  obtain ⟨c, hc⟩ := getElem?_of_lt ip (i := 14) (by omega)
  obtain ⟨d, hd⟩ := getElem?_of_lt ip (i := 15) (by omega)
  exact ⟨first, proto, ⟨a, b, c, d⟩, h₀, h₉, slice_four.mpr ⟨ha, hb, hc, hd⟩⟩

theorem parseIpv4Udp_eq {ip : List UInt8} {first proto : UInt8} {src : Ipv4Addr}
    (long : 20 ≤ ip.length) (h₀ : ip[0]? = some first) (h₉ : ip[9]? = some proto)
    (source : slice ip 12 16 = some [src.a, src.b, src.c, src.d]) :
    parseIpv4Udp ip =
      if first >>> 4 ≠ 4 then some none
      else if (first &&& 0x0f).toNat * 4 < 20 ∨ ip.length < (first &&& 0x0f).toNat * 4 then
        some none
      else if proto ≠ ipprotoUdp then some none
      else (parseUdp (ip.drop ((first &&& 0x0f).toNat * 4))).map
        (Option.map fun t => (src, t.1, t.2)) := by
  obtain ⟨ha, hb, hc, hd⟩ := slice_four.mp source
  rw [parseIpv4Udp, if_neg (Nat.not_lt.mpr long), h₀, Option.bind_eq_bind, Option.bind_some]
  by_cases version : first >>> 4 ≠ 4
  · rw [if_pos version, if_pos version]
    rfl
  rw [if_neg version, if_neg version]
  by_cases header : (first &&& 0x0f).toNat * 4 < 20 ∨ ip.length < (first &&& 0x0f).toNat * 4
  · rw [if_pos header, if_pos header]
    rfl
  rw [if_neg header, if_neg header, h₉, Option.bind_eq_bind, Option.bind_some]
  by_cases protocol : proto ≠ ipprotoUdp
  · rw [if_pos protocol, if_pos protocol]
    rfl
  have rest : slice ip ((first &&& 0x0f).toNat * 4) ip.length =
      some (ip.drop ((first &&& 0x0f).toNat * 4)) := by
    rw [slice_of_le (by omega) le_rfl, List.take_of_length_le (by rw [List.length_drop])]
  rw [if_neg protocol, if_neg protocol, ha, Option.bind_some, hb, Option.bind_some, hc,
    Option.bind_some, hd, Option.bind_some]
  dsimp only
  rw [rest, Option.bind_some]
  generalize ip.drop ((first &&& 0x0f).toNat * 4) = udp
  by_cases short : udp.length < 8
  · rw [if_pos short, parseUdp, if_pos short]
    rfl
  rw [if_neg short, parseUdp, if_neg short]
  cases udp[2]? with
  | none => rfl
  | some p =>
    cases udp[3]? with
    | none => rfl
    | some q =>
      cases udp[4]? with
      | none => rfl
      | some m =>
        cases udp[5]? with
        | none => rfl
        | some n =>
          simp only [Option.bind_eq_bind, Option.bind_some]
          by_cases bounds : (u16FromBE m n).toNat < 8 ∨ (u16FromBE m n).toNat > udp.length
          · rw [if_pos bounds, if_pos bounds]
            rfl
          · rw [if_neg bounds, if_neg bounds]
            cases slice udp 8 (u16FromBE m n).toNat <;> rfl

theorem parseUdp_total (udp : List UInt8) : ∃ r, parseUdp udp = some r := by
  by_cases short : udp.length < 8
  · exact ⟨none, by rw [parseUdp, if_pos short]; rfl⟩
  obtain ⟨p, h₂⟩ := getElem?_of_lt udp (i := 2) (by omega)
  obtain ⟨q, h₃⟩ := getElem?_of_lt udp (i := 3) (by omega)
  obtain ⟨m, h₄⟩ := getElem?_of_lt udp (i := 4) (by omega)
  obtain ⟨n, h₅⟩ := getElem?_of_lt udp (i := 5) (by omega)
  simp only [parseUdp, if_neg short, h₂, h₃, h₄, h₅, Option.bind_eq_bind]
  simp only [Option.bind_some]
  split
  · exact ⟨none, rfl⟩
  rw [slice_of_le (by omega) (by omega)]
  exact ⟨_, rfl⟩

/-- The length checks cover every access, for arbitrary bytes. -/
theorem parseIpv4Udp_total (ip : List UInt8) : ∃ r, parseIpv4Udp ip = some r := by
  by_cases short : ip.length < 20
  · exact ⟨none, parseIpv4Udp_short short⟩
  have long := Nat.not_lt.mp short
  obtain ⟨first, proto, src, h₀, h₉, source⟩ := header_bytes long
  rw [parseIpv4Udp_eq long h₀ h₉ source]
  split
  · exact ⟨none, rfl⟩
  split
  · exact ⟨none, rfl⟩
  split
  · exact ⟨none, rfl⟩
  obtain ⟨r, parsed⟩ := parseUdp_total (ip.drop ((first &&& 0x0f).toNat * 4))
  exact ⟨_, by rw [parsed]; rfl⟩

theorem parseEthernetIpv4Udp_total (frame : List UInt8) :
    ∃ r, parseEthernetIpv4Udp frame = some r := by
  by_cases short : frame.length < 14
  · exact ⟨none, by simp [parseEthernetIpv4Udp, ethernetHeaderLen, short]⟩
  obtain ⟨a, ha⟩ := getElem?_of_lt frame (i := 12) (by omega)
  obtain ⟨b, hb⟩ := getElem?_of_lt frame (i := 13) (by omega)
  simp only [parseEthernetIpv4Udp, ethernetHeaderLen, if_neg short, ha, hb, Option.bind_eq_bind]
  simp only [Option.bind_some]
  split
  · exact ⟨none, rfl⟩
  rw [slice_of_le (by omega) le_rfl]
  exact parseIpv4Udp_total _

end HyperionVpn.Packet
