import HyperionVpn.Core.Packet

/-! The frames that the packet parser accepts, layer by layer: what each header
has to be, with anything after it. -/
namespace HyperionVpn.Packet
open Bytes Net

/-- Version 4, the header's length in words in the low nibble, UDP. -/
structure IpHeader (h : List UInt8) (src : Ipv4Addr) : Prop where
  nibbles : ∃ (first : UInt8) (ihl : Nat), h[0]? = some first ∧ first >>> 4 = 4 ∧ (first &&& 0x0f).toNat = ihl ∧
    5 ≤ ihl ∧ ihl ≤ 15 ∧ h.length = 4 * ihl
  protocol : h[9]? = some ipprotoUdp
  source : slice h 12 16 = some [src.a, src.b, src.c, src.d]

/-- `n` is the length of the payload. -/
structure UdpHeader (u : List UInt8) (port : UInt16) (n : Nat) : Prop where
  size : u.length = 8
  port : (slice u 2 4).map ofBE = some port.toNat
  length : (slice u 4 6).map ofBE = some (8 + n)

/-- The grammar of the frames, with any padding after the payload. -/
def IsFrame (f : List UInt8) (src : Ipv4Addr) (port : UInt16) (payload : List UInt8) : Prop :=
  ∃ macs h u pad, f = macs ++ [0x08, 0x00] ++ h ++ u ++ payload ++ pad ∧ macs.length = 12 ∧
    IpHeader h src ∧ UdpHeader u port payload.length

/-! The datagram. -/

theorem parseUdp_iff {udp : List UInt8} {port : UInt16} {payload : List UInt8} :
    parseUdp udp = some (some (port, payload)) ↔ be16At udp 2 = some port ∧
      ∃ len, be16At udp 4 = some len ∧ slice udp 8 len.toNat = some payload := by
  by_cases short : udp.length < 8
  · constructor
    · intro accepted
      simp [parseUdp, short] at accepted
    · rintro ⟨-, len, -, body⟩
      obtain ⟨low, high, -⟩ := slice_eq_some.mp body
      omega
  obtain ⟨p, h₂⟩ := getElem?_of_lt udp (i := 2) (by omega)
  obtain ⟨q, h₃⟩ := getElem?_of_lt udp (i := 3) (by omega)
  obtain ⟨m, h₄⟩ := getElem?_of_lt udp (i := 4) (by omega)
  obtain ⟨n, h₅⟩ := getElem?_of_lt udp (i := 5) (by omega)
  have found : be16At udp 2 = some (u16FromBE p q) := be16At_eq_some.mpr ⟨p, q, h₂, h₃, rfl⟩
  have length : be16At udp 4 = some (u16FromBE m n) := be16At_eq_some.mpr ⟨m, n, h₄, h₅, rfl⟩
  simp only [parseUdp, if_neg short, h₂, h₃, h₄, h₅, found, length, Option.bind_eq_bind]
  simp only [Option.bind_some, Option.some.injEq, exists_eq_left']
  split <;> rename_i bounds
  · constructor
    · intro accepted
      cases accepted
    · rintro ⟨-, body⟩
      obtain ⟨low, high, -⟩ := slice_eq_some.mp body
      omega
  · rw [slice_of_le (by omega) (by omega), Option.bind_some]
    constructor
    · intro accepted
      cases accepted
      exact ⟨rfl, rfl⟩
    · rintro ⟨rfl, body⟩
      cases body
      rfl

theorem parseUdp_iff_header {udp : List UInt8} {port : UInt16} {payload : List UInt8} :
    parseUdp udp = some (some (port, payload)) ↔
      ∃ u pad, udp = u ++ payload ++ pad ∧ UdpHeader u port payload.length := by
  rw [parseUdp_iff]
  constructor
  · rintro ⟨found, len, length, body⟩
    obtain ⟨low, high, rfl⟩ := slice_eq_some.mp body
    refine ⟨udp.take 8, udp.drop len.toNat, ?_, ?_, ?_, ?_⟩
    · have rest : udp.drop len.toNat = (udp.drop 8).drop (len.toNat - 8) := by
        rw [List.drop_drop]
        congr 1
        omega
      rw [rest, List.append_assoc, List.take_append_drop, List.take_append_drop]
    · rw [List.length_take]
      omega
    · exact slice_two_ofBE.mpr ⟨port, be16At_take (by omega) found, rfl⟩
    · refine slice_two_ofBE.mpr ⟨len, be16At_take (by omega) length, ?_⟩
      rw [List.length_take, List.length_drop]
      omega
  · rintro ⟨u, pad, rfl, size, found, length⟩
    obtain ⟨w, word, same⟩ := slice_two_ofBE.mp found
    obtain rfl := UInt16.toNat_inj.mp same
    obtain ⟨len, word', number⟩ := slice_two_ofBE.mp length
    refine ⟨be16At_front (be16At_front word), len, be16At_front (be16At_front word'), ?_⟩
    have middle := slice_append u payload pad
    rwa [size, ← number] at middle

/-! The header before it. -/

/-- After a header, the rest is parsed as a datagram. -/
theorem parseIpv4Udp_header {h udp : List UInt8} {src : Ipv4Addr} (header : IpHeader h src) :
    parseIpv4Udp (h ++ udp) = (parseUdp udp).map (Option.map fun t => (src, t.1, t.2)) := by
  obtain ⟨⟨first, ihl, h₀, version, nibble, low, high, size⟩, h₉, source⟩ := header
  obtain ⟨ha, hb, hc, hd⟩ := slice_four.mp source
  have long : 20 ≤ (h ++ udp).length := by
    rw [List.length_append]
    omega
  have inside : ¬ (ihl * 4 < 20 ∨ (h ++ udp).length < ihl * 4) := by
    rw [List.length_append]
    omega
  have source' : slice (h ++ udp) 12 16 = some [src.a, src.b, src.c, src.d] :=
    slice_four.mpr ⟨getElem?_front ha, getElem?_front hb, getElem?_front hc, getElem?_front hd⟩
  rw [parseIpv4Udp_eq long (getElem?_front h₀) (getElem?_front h₉) source', nibble,
    if_neg (not_not.mpr version), if_neg inside, if_neg (not_not.mpr rfl), List.drop_left' (by omega)]

/-- The front of a packet that passes the checks is a header. -/
theorem ipHeader_take {ip : List UInt8} {first : UInt8} {src : Ipv4Addr}
    (h₀ : ip[0]? = some first) (version : first >>> 4 = 4)
    (header : 20 ≤ (first &&& 0x0f).toNat * 4) (inside : (first &&& 0x0f).toNat * 4 ≤ ip.length)
    (protocol : ip[9]? = some ipprotoUdp) (source : slice ip 12 16 = some [src.a, src.b, src.c, src.d]) :
    IpHeader (ip.take ((first &&& 0x0f).toNat * 4)) src := by
  obtain ⟨ha, hb, hc, hd⟩ := slice_four.mp source
  have high : (first &&& 0x0f).toNat ≤ 15 := by
    rw [UInt8.toNat_and]
    exact Nat.and_le_right
  constructor
  · refine ⟨first, _, getElem?_take (by omega) h₀, version, rfl, by omega, high, ?_⟩
    rw [List.length_take]
    omega
  · exact getElem?_take (by omega) protocol
  · exact slice_four.mpr ⟨getElem?_take (by omega) ha, getElem?_take (by omega) hb,
      getElem?_take (by omega) hc, getElem?_take (by omega) hd⟩

/-- What is accepted begins with a header. -/
theorem parseIpv4Udp_accepts {ip : List UInt8} {r : Ipv4Addr × UInt16 × List UInt8}
    (accepted : parseIpv4Udp ip = some (some r)) :
    ∃ h udp src, ip = h ++ udp ∧ IpHeader h src := by
  by_cases short : ip.length < 20
  · cases (parseIpv4Udp_short short).symm.trans accepted
  have long := Nat.not_lt.mp short
  obtain ⟨first, proto, src, h₀, h₉, source⟩ := header_bytes long
  rw [parseIpv4Udp_eq long h₀ h₉ source] at accepted
  split at accepted
  · cases accepted
  rename_i version
  split at accepted
  · cases accepted
  rename_i header
  split at accepted
  · cases accepted
  rename_i protocol
  obtain rfl := not_not.mp protocol
  have front : IpHeader (ip.take ((first &&& 0x0f).toNat * 4)) src :=
    ipHeader_take h₀ (not_not.mp version) (by omega) (by omega) h₉ source
  exact ⟨_, _, _, (List.take_append_drop _ ip).symm, front⟩

theorem parseIpv4Udp_iff {ip : List UInt8} {src : Ipv4Addr} {port : UInt16} {payload : List UInt8} :
    parseIpv4Udp ip = some (some (src, port, payload)) ↔ ∃ h udp, ip = h ++ udp ∧
      IpHeader h src ∧ parseUdp udp = some (some (port, payload)) := by
  constructor
  · intro accepted
    obtain ⟨h, udp, src', rfl, header⟩ := parseIpv4Udp_accepts accepted
    rw [parseIpv4Udp_header header] at accepted
    obtain ⟨datagram, parsed, same⟩ := Option.map_eq_some_iff.mp accepted
    obtain ⟨⟨port', payload'⟩, rfl, same⟩ := Option.map_eq_some_iff.mp same
    cases same
    exact ⟨h, udp, rfl, header, parsed⟩
  · rintro ⟨h, udp, rfl, header, parsed⟩
    rw [parseIpv4Udp_header header, parsed]
    rfl

/-! The frame. -/

theorem u16FromBE_eq_ethertype {a b : UInt8} :
    u16FromBE a b = ethertypeIpv4 ↔ a = 0x08 ∧ b = 0x00 := by
  constructor
  · intro same
    have bytes := u16ToBE_fromBE a b
    have known : u16ToBE ethertypeIpv4 = [0x08, 0x00] := by decide
    rw [same, known] at bytes
    simpa [eq_comm] using bytes
  · rintro ⟨rfl, rfl⟩
    decide

theorem parseEthernetIpv4Udp_iff {f : List UInt8} {r : Ipv4Addr × UInt16 × List UInt8} :
    parseEthernetIpv4Udp f = some (some r) ↔ be16At f 12 = some ethertypeIpv4 ∧
      parseIpv4Udp (f.drop ethernetHeaderLen) = some (some r) := by
  by_cases short : f.length < ethernetHeaderLen
  · constructor
    · intro accepted
      simp [parseEthernetIpv4Udp, short] at accepted
    · rintro ⟨-, accepted⟩
      rw [List.drop_eq_nil_of_le short.le] at accepted
      simp [parseIpv4Udp] at accepted
  have long : 14 ≤ f.length := Nat.not_lt.mp short
  obtain ⟨a, ha⟩ := getElem?_of_lt f (i := 12) (by omega)
  obtain ⟨b, hb⟩ := getElem?_of_lt f (i := 13) (by omega)
  have ethertype : be16At f 12 = some (u16FromBE a b) := be16At_eq_some.mpr ⟨a, b, ha, hb, rfl⟩
  have rest : slice f ethernetHeaderLen f.length = some (f.drop ethernetHeaderLen) := by
    rw [slice_of_le (by omega) le_rfl, List.take_of_length_le (by rw [List.length_drop])]
  simp only [parseEthernetIpv4Udp, if_neg short, ha, hb, ethertype, rest, Option.bind_eq_bind]
  simp only [Option.bind_some, Option.some.injEq]
  split <;> rename_i other
  · simp [other]
  · simp [not_not.mp other]

/-- The ethertype stands behind the two addresses. -/
theorem ethertype_iff {f : List UInt8} : be16At f 12 = some ethertypeIpv4 ↔
    ∃ macs ip, f = macs ++ [0x08, 0x00] ++ ip ∧ macs.length = 12 := by
  constructor
  · intro found
    obtain ⟨a, b, ha, hb, ethertype⟩ := be16At_eq_some.mp found
    obtain ⟨rfl, rfl⟩ := u16FromBE_eq_ethertype.mp ethertype.symm
    obtain ⟨h₁₂, ha⟩ := List.getElem?_eq_some_iff.mp ha
    obtain ⟨h₁₃, hb⟩ := List.getElem?_eq_some_iff.mp hb
    refine ⟨f.take 12, f.drop 14, ?_, ?_⟩
    · calc f = f.take 12 ++ f.drop 12 := (List.take_append_drop 12 f).symm
        _ = f.take 12 ++ (f[12] :: f[13] :: f.drop 14) := by
          rw [List.drop_eq_getElem_cons h₁₂, List.drop_eq_getElem_cons h₁₃]
        _ = f.take 12 ++ [0x08, 0x00] ++ f.drop 14 := by
          rw [ha, hb, List.append_assoc]
          rfl
    · rw [List.length_take]
      omega
  · rintro ⟨macs, ip, rfl, size⟩
    have high : (macs ++ [0x08, 0x00] ++ ip)[12]? = some 0x08 := by
      simp [List.append_assoc, size]
    have low : (macs ++ [0x08, 0x00] ++ ip)[13]? = some 0x00 := by
      simp [List.append_assoc, List.getElem?_append_right, size]
    exact be16At_eq_some.mpr ⟨_, _, high, low, by decide⟩

theorem parse_iff_isFrame (f : List UInt8) (src : Ipv4Addr) (port : UInt16) (payload : List UInt8) :
    parseEthernetIpv4Udp f = some (some (src, port, payload)) ↔ IsFrame f src port payload := by
  have header {macs ip : List UInt8} (size : macs.length = 12) :
      (macs ++ [0x08, 0x00] ++ ip).drop ethernetHeaderLen = ip :=
    List.drop_left' (by simp [size, ethernetHeaderLen])
  rw [parseEthernetIpv4Udp_iff, ethertype_iff]
  constructor
  · rintro ⟨⟨macs, ip, rfl, size⟩, accepted⟩
    rw [header size] at accepted
    obtain ⟨h, udp, rfl, header, accepted⟩ := parseIpv4Udp_iff.mp accepted
    obtain ⟨u, pad, rfl, udp⟩ := parseUdp_iff_header.mp accepted
    exact ⟨macs, h, u, pad, by simp [List.append_assoc], size, header, udp⟩
  · rintro ⟨macs, h, u, pad, rfl, size, ipHeader, udp⟩
    have split : macs ++ [0x08, 0x00] ++ h ++ u ++ payload ++ pad =
        macs ++ [0x08, 0x00] ++ (h ++ (u ++ payload ++ pad)) := by
      simp only [List.append_assoc]
    rw [split]
    refine ⟨⟨macs, _, rfl, size⟩, ?_⟩
    rw [header size]
    exact parseIpv4Udp_iff.mpr ⟨h, _, rfl, ipHeader, parseUdp_iff_header.mpr ⟨u, pad, rfl, udp⟩⟩

/-- What is appended to a frame is padding. -/
theorem IsFrame.append {f : List UInt8} {src : Ipv4Addr} {port : UInt16} {payload : List UInt8}
    (frame : IsFrame f src port payload) (more : List UInt8) :
    IsFrame (f ++ more) src port payload := by
  obtain ⟨macs, h, u, pad, rfl, size, header, udp⟩ := frame
  exact ⟨macs, h, u, pad ++ more, by simp [List.append_assoc], size, header, udp⟩

/-- The header that a sender of `n` bytes writes. -/
def udpHeader (srcPort checksum : Vector UInt8 2) (port : UInt16) (n : Nat) : List UInt8 :=
  srcPort.toList ++ u16ToBE port ++ toBE 2 (8 + n) ++ checksum.toList

/-- The length has two bytes. -/
theorem udpHeader_of_le (srcPort checksum : Vector UInt8 2) (port : UInt16) {n : Nat}
    (fits : n ≤ 65527) : UdpHeader (udpHeader srcPort checksum port n) port n := by
  have front : srcPort.toList.length = 2 := by simp
  have portAt : slice (udpHeader srcPort checksum port n) 2 4 = some (u16ToBE port) := by
    have middle := slice_append srcPort.toList (u16ToBE port) (toBE 2 (8 + n) ++ checksum.toList)
    rw [front, u16ToBE_length, ← List.append_assoc] at middle
    exact middle
  have lengthAt : slice (udpHeader srcPort checksum port n) 4 6 = some (toBE 2 (8 + n)) := by
    have middle := slice_append (srcPort.toList ++ u16ToBE port) (toBE 2 (8 + n)) checksum.toList
    rw [List.length_append, front, u16ToBE_length, toBE_length] at middle
    exact middle
  constructor
  · simp [udpHeader]
  · rw [portAt, Option.map_some, u16ToBE, ofBE_toBE_of_lt port.toNat_lt]
  · rw [lengthAt, Option.map_some, ofBE_toBE_of_lt (by omega)]

theorem IsFrame.of_le {h macs : List UInt8} {src : Ipv4Addr} (size : macs.length = 12)
    (header : IpHeader h src) (srcPort checksum : Vector UInt8 2) (port : UInt16)
    (payload pad : List UInt8) (fits : payload.length ≤ 65527) :
    IsFrame (macs ++ [0x08, 0x00] ++ h ++ udpHeader srcPort checksum port payload.length ++
      payload ++ pad) src port payload :=
  ⟨macs, h, _, pad, rfl, size, header, udpHeader_of_le srcPort checksum port fits⟩

/-- The parser and the grammar agree. So every payload that a datagram can
carry comes back, under any options and any padding; what is appended to a
frame changes nothing; and no access is out of range. -/
theorem parser_accepts_grammar :
    (∀ f src port payload,
      parseEthernetIpv4Udp f = some (some (src, port, payload)) ↔ IsFrame f src port payload) ∧
    (∀ macs h src srcPort checksum port payload pad, macs.length = 12 → IpHeader h src →
      payload.length ≤ 65527 →
      parseEthernetIpv4Udp (macs ++ [0x08, 0x00] ++ h ++
        udpHeader srcPort checksum port payload.length ++ payload ++ pad) =
          some (some (src, port, payload))) ∧
    (∀ f more t, parseEthernetIpv4Udp f = some (some t) →
      parseEthernetIpv4Udp (f ++ more) = some (some t)) ∧
    (∀ f, ∃ r, parseEthernetIpv4Udp f = some r) ∧ ∀ ip, ∃ r, parseIpv4Udp ip = some r := by
  refine ⟨parse_iff_isFrame, ?_, ?_, parseEthernetIpv4Udp_total, parseIpv4Udp_total⟩
  · intro macs h src srcPort checksum port payload pad size header fits
    exact (parse_iff_isFrame _ _ _ _).mpr
      (IsFrame.of_le size header srcPort checksum port payload pad fits)
  · rintro f more ⟨src, port, payload⟩ accepted
    exact (parse_iff_isFrame _ _ _ _).mpr (((parse_iff_isFrame _ _ _ _).mp accepted).append more)

/-- A header of six words: the last is an option. -/
def sampleHeader : List UInt8 :=
  [0x46, 0, 0, 0, 0, 0, 0, 0, 0, 17, 0, 0, 203, 0, 113, 7, 0, 0, 0, 0, 1, 1, 1, 0]

theorem sampleHeader_ipHeader : IpHeader sampleHeader ⟨203, 0, 113, 7⟩ where
  nibbles := ⟨0x46, 6, rfl, by decide, by decide, by decide, by decide, rfl⟩
  protocol := rfl
  source := rfl

theorem parser_accepts_grammar_sample :
    parseEthernetIpv4Udp (List.replicate 12 0xff ++ [0x08, 0x00] ++ sampleHeader ++
      udpHeader #v[0, 0] #v[0, 0] 8443 3 ++ [97, 98, 99] ++ [0, 0]) =
        some (some (⟨203, 0, 113, 7⟩, 8443, [97, 98, 99])) :=
  parser_accepts_grammar.2.1 (List.replicate 12 0xff) sampleHeader ⟨203, 0, 113, 7⟩ #v[0, 0]
    #v[0, 0] 8443 [97, 98, 99] [0, 0] rfl sampleHeader_ipHeader (by decide)

end HyperionVpn.Packet
