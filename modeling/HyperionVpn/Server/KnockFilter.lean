import HyperionVpn.Core.PacketGrammar
import HyperionVpn.Lib.ClassicBpf
import HyperionVpn.Server.SnifferRuns

/-! The kernel's filter in front of the sniffer, and whether it passes what the
sniffer's own parser accepts. -/
namespace HyperionVpn.Sniffer
open Bytes Net Packet Knock ClassicBpf

def bpf (code : UInt16) (jt jf : UInt8) (k : UInt32) : Filter := ⟨code, jt, jf, k⟩

/-- The program that `attach_knock_filter` hands to the kernel. -/
def attachKnockFilter (knockPort : UInt16) : List Filter :=
  [bpf 0x28 0 0 12,
   bpf 0x15 0 8 0x0800,
   bpf 0x30 0 0 23,
   bpf 0x15 0 6 17,
   bpf 0x28 0 0 20,
   bpf 0x45 4 0 0x1fff,
   bpf 0xb1 0 0 14,
   bpf 0x48 0 0 16,
   bpf 0x15 0 1 knockPort.toUInt32,
   bpf 0x06 0 0 0x00040000,
   bpf 0x06 0 0 0]

def headerLen (first : UInt8) : Nat := (first &&& 0x0f).toNat * 4

/-- What the filter looks at: the ethertype, the protocol, the fragment offset
and the destination port behind the IP header. -/
structure PassesFilter (knockPort : UInt16) (frame : List UInt8) : Prop where
  ethertype : be16At frame 12 = some ethertypeIpv4
  protocol : frame[23]? = some ipprotoUdp
  unfragmented : ∃ field, be16At frame 20 = some field ∧ field &&& 0x1fff = 0
  port : ∃ first, frame[14]? = some first ∧ be16At frame (14 + (headerLen first + 2)) = some knockPort

theorem offset_toNat (first : UInt8) :
    ((first &&& 15).toUInt32 * 4 + 16).toNat = 14 + (headerLen first + 2) := by
  have bound : (first &&& 15).toNat ≤ 15 := by
    rw [UInt8.toNat_and]
    exact Nat.and_le_right
  rw [UInt32.toNat_add, UInt32.toNat_mul, UInt8.toNat_toUInt32, headerLen]
  simp only [UInt32.reduceToNat]
  omega

theorem fragment_eq_zero (field : UInt16) :
    field.toUInt32 &&& 0x1fff = 0 ↔ field &&& 0x1fff = 0 := by
  rw [← UInt32.toNat_inj, ← UInt16.toNat_inj, UInt32.toNat_and, UInt16.toNat_and,
    UInt16.toNat_toUInt32]
  rfl

/-- The program keeps frames whole or drops them. -/
theorem run_eq_iff {knockPort : UInt16} {frame : List UInt8} {v : UInt32} (kept : v ≠ 0) :
    run (attachKnockFilter knockPort) frame = v ↔
      PassesFilter knockPort frame ∧ v = 0x00040000 := by
  have halfword (w c : UInt16) : w.toUInt32 = c.toUInt32 ↔ w = c := UInt16.toUInt32_inj
  have byte (b c : UInt8) : b.toUInt32 = c.toUInt32 ↔ b = c := UInt8.toUInt32_inj
  simp only [run, attachKnockFilter, bpf, exec, Filter.decode, exec_branch, UInt8.reduceToNat,
    List.drop_succ_cons, List.drop_zero]
  simp only [Cond.test, decide_eq_true_eq, ite_not, elim_eq kept, ite_eq kept]
  simp only [load_two, load_one, Option.map_eq_some_iff, offset_toNat, UInt32.reduceToNat]
  constructor
  · rintro ⟨_, ⟨ethertype, h₁₂, rfl⟩, ipv4, _, ⟨protocol, h₂₃, rfl⟩, udp, _, ⟨field, h₂₀, rfl⟩,
      whole, first, h₁₄, _, ⟨port, hport, rfl⟩, same, rfl⟩
    obtain rfl := (halfword ethertype 0x0800).mp ipv4
    obtain rfl := (byte protocol 17).mp udp
    obtain rfl := (halfword port knockPort).mp same
    exact ⟨⟨h₁₂, h₂₃, ⟨field, h₂₀, (fragment_eq_zero field).mp whole⟩, first, h₁₄, hport⟩, rfl⟩
  · rintro ⟨⟨h₁₂, h₂₃, ⟨field, h₂₀, whole⟩, first, h₁₄, hport⟩, rfl⟩
    exact ⟨_, ⟨_, h₁₂, rfl⟩, rfl, _, ⟨_, h₂₃, rfl⟩, rfl, _, ⟨_, h₂₀, rfl⟩,
      (fragment_eq_zero field).mpr whole, first, h₁₄, _, ⟨_, hport, rfl⟩, rfl, rfl⟩

/-! The parser on knocks. -/

theorem packetLen_eq : packetLen = 44 := rfl

/-- A UDP datagram to the port with the length of a knock. -/
def KnockDatagram (knockPort : UInt16) (ip : List UInt8) : Prop :=
  ∃ first : UInt8, ip[0]? = some first ∧ first >>> 4 = 4 ∧ 20 ≤ headerLen first ∧
    ip[9]? = some ipprotoUdp ∧ be16At ip (headerLen first + 2) = some knockPort ∧
    be16At ip (headerLen first + 4) = some 52 ∧ headerLen first + 52 ≤ ip.length

theorem parseIpv4Udp_knock {knockPort : UInt16} {ip : List UInt8} :
    (∃ src payload, parseIpv4Udp ip = some (some (src, knockPort, payload)) ∧
      payload.length = packetLen) ↔ KnockDatagram knockPort ip := by
  constructor
  · rintro ⟨src, payload, parsed, size⟩
    obtain ⟨h, udp, rfl, header, parsed⟩ := parseIpv4Udp_iff.mp parsed
    obtain ⟨port, len, length, body⟩ := parseUdp_iff.mp parsed
    obtain ⟨⟨first, ihl, h₀, version, nibble, low, high, long⟩, h₉, -⟩ := header
    have behind : headerLen first = h.length := by
      rw [headerLen]
      omega
    have word (i : Nat) : be16At (h ++ udp) (headerLen first + i) = be16At udp i := by
      rw [← be16At_drop, behind, List.drop_left]
    have fits := slice_length body
    rw [size, packetLen_eq] at fits
    have number : (52 : UInt16).toNat = 52 := rfl
    obtain rfl : len = 52 := by
      rw [← UInt16.toNat_inj, number]
      omega
    obtain ⟨-, inside, -⟩ := slice_eq_some.mp body
    refine ⟨first, getElem?_front h₀, version, ?_, getElem?_front h₉, ?_, ?_, ?_⟩
    · omega
    · rw [word, port]
    · rw [word, length]
    · rw [List.length_append]
      omega
  · rintro ⟨first, h₀, version, header, h₉, port, length, long⟩
    obtain ⟨_, _, src, -, -, source⟩ := header_bytes (show 20 ≤ ip.length by omega)
    have front : IpHeader (ip.take (headerLen first)) src :=
      ipHeader_take h₀ version header (by rw [← headerLen]; omega) h₉ source
    have body : slice (ip.drop (headerLen first)) 8 (52 : UInt16).toNat =
        some (((ip.drop (headerLen first)).drop 8).take 44) :=
      slice_of_le (by decide) (by rw [List.length_drop]; exact Nat.le_sub_of_add_le' long)
    rw [← be16At_drop] at port length
    refine ⟨src, _, parseIpv4Udp_iff.mpr ⟨_, _, (List.take_append_drop _ ip).symm, front,
      parseUdp_iff.mpr ⟨port, 52, length, body⟩⟩, ?_⟩
    rw [List.length_take, List.length_drop, List.length_drop, packetLen_eq]
    omega

/-- A frame with such a datagram. -/
def KnockFrame (knockPort : UInt16) (frame : List UInt8) : Prop :=
  be16At frame 12 = some ethertypeIpv4 ∧ KnockDatagram knockPort (frame.drop ethernetHeaderLen)

theorem parseEthernetIpv4Udp_knock {knockPort : UInt16} {frame : List UInt8} :
    (∃ src payload, parseEthernetIpv4Udp frame = some (some (src, knockPort, payload)) ∧
      payload.length = packetLen) ↔ KnockFrame knockPort frame := by
  rw [KnockFrame, ← parseIpv4Udp_knock]
  constructor
  · rintro ⟨src, payload, parsed, size⟩
    obtain ⟨ipv4, parsed⟩ := parseEthernetIpv4Udp_iff.mp parsed
    exact ⟨ipv4, src, payload, parsed, size⟩
  · rintro ⟨ipv4, src, payload, parsed, size⟩
    exact ⟨src, payload, parseEthernetIpv4Udp_iff.mpr ⟨ipv4, parsed⟩, size⟩

/-! The two ways a frame reaches the loop. -/

/-- The length of the buffer that `recv` fills. -/
def recvLen : Nat := 65536

/-- What `recv` hands out of a frame, through the filter if one is attached. -/
def recv (filter : Option (List Filter)) (frame : List UInt8) : Option (List UInt8) :=
  match filter with
  | none => some (frame.take recvLen)
  | some program =>
    if run program frame = 0 then none
    else some ((frame.take (run program frame).toNat).take recvLen)

/-- The loop hands this payload of the frame to the verifier. -/
def HandsOver (crypto : Crypto) (config : SnifferConfig) (s : Sniffer) (now : UInt64)
    (nft : List String → Spawned) (filter : Option (List Filter)) (frame : List UInt8)
    (src : Ipv4Addr) (payload : List UInt8) : Prop :=
  ∃ bytes, recv filter frame = some bytes ∧ ∃ decision s',
    iterate crypto config s ⟨.frame bytes, now, nft⟩ = some (.knock src payload decision, s')

/-- The packet is not the first of its fragments. -/
def LaterFragment (frame : List UInt8) : Prop :=
  ∃ field, be16At frame 20 = some field ∧ field &&& 0x1fff ≠ 0

theorem recv_filtered {knockPort : UInt16} {frame : List UInt8} :
    (PassesFilter knockPort frame →
      recv (some (attachKnockFilter knockPort)) frame = some (frame.take recvLen)) ∧
    (¬ PassesFilter knockPort frame → recv (some (attachKnockFilter knockPort)) frame = none) := by
  constructor
  · intro passes
    have kept : run (attachKnockFilter knockPort) frame = 0x00040000 :=
      (run_eq_iff (by decide)).mpr ⟨passes, rfl⟩
    have whole : min recvLen (UInt32.toNat 0x00040000) = recvLen := rfl
    rw [recv, kept, if_neg (by decide), List.take_take, whole]
  · intro stuck
    have dropped : run (attachKnockFilter knockPort) frame = 0 := by
      by_contra kept
      exact stuck ((run_eq_iff kept).mp rfl).1
    rw [recv, if_pos dropped]

/-- Of what the parser takes for a knock, the filter drops later fragments. -/
theorem passes_iff {knockPort : UInt16} {frame : List UInt8} {n : Nat}
    (knock : KnockFrame knockPort (frame.take n)) :
    PassesFilter knockPort frame ↔ ¬ LaterFragment (frame.take n) := by
  obtain ⟨ipv4, first, h₀, version, header, h₉, port, -, long⟩ := knock
  rw [be16At_drop] at port
  rw [List.length_drop] at long
  rw [List.getElem?_drop] at h₀ h₉
  constructor
  · rintro ⟨-, -, ⟨field, h₂₀, whole⟩, -⟩ ⟨field', h₂₀', later⟩
    cases h₂₀.symm.trans (be16At_of_take h₂₀')
    exact later whole
  · intro early
    obtain ⟨hi, h₂₀⟩ := getElem?_of_lt (frame.take n) (i := 20) (by omega)
    obtain ⟨lo, h₂₁⟩ := getElem?_of_lt (frame.take n) (i := 21) (by omega)
    have field : be16At (frame.take n) 20 = some (u16FromBE hi lo) :=
      be16At_eq_some.mpr ⟨hi, lo, h₂₀, h₂₁, rfl⟩
    have whole : u16FromBE hi lo &&& 0x1fff = 0 := by
      by_contra later
      exact early ⟨_, field, later⟩
    exact ⟨be16At_of_take ipv4, getElem?_of_take h₉, ⟨_, be16At_of_take field, whole⟩, first,
      getElem?_of_take h₀, be16At_of_take port⟩

theorem handsOver_iff {crypto : Crypto} {config : SnifferConfig} {s : Sniffer} {now : UInt64}
    {nft : List String → Spawned} {filter : Option (List Filter)} {frame : List UInt8}
    {src : Ipv4Addr} {payload : List UInt8} :
    HandsOver crypto config s now nft filter frame src payload ↔ ∃ bytes,
      recv filter frame = some bytes ∧
      parseEthernetIpv4Udp bytes = some (some (src, config.knockPort, payload)) ∧
      payload.length = packetLen := by
  simp only [HandsOver, handed_iff, Delivers]
  constructor
  · rintro ⟨bytes, received, _, ⟨⟩, parsed, size⟩
    exact ⟨bytes, received, parsed, size⟩
  · rintro ⟨bytes, received, parsed, size⟩
    exact ⟨bytes, received, bytes, rfl, parsed, size⟩

/-- With and without the filter the same knocks reach the verifier, unless the
frame is a later fragment whose bytes the parser takes for a knock. -/
theorem filter_agrees_iff (crypto : Crypto) (config : SnifferConfig) (s : Sniffer) (now : UInt64)
    (nft : List String → Spawned) (frame : List UInt8) :
    (∀ src payload,
      HandsOver crypto config s now nft (some (attachKnockFilter config.knockPort)) frame src payload ↔
        HandsOver crypto config s now nft none frame src payload) ↔
      ¬ (KnockFrame config.knockPort (frame.take recvLen) ∧ LaterFragment (frame.take recvLen)) := by
  have plain : recv none frame = some (frame.take recvLen) := rfl
  constructor
  · rintro agree ⟨knock, later⟩
    obtain ⟨src, payload, parsed, size⟩ := parseEthernetIpv4Udp_knock.mpr knock
    have handed := (agree src payload).mpr (handsOver_iff.mpr ⟨_, plain, parsed, size⟩)
    obtain ⟨bytes, received, -⟩ := handsOver_iff.mp handed
    rw [recv_filtered.2 fun passes => (passes_iff knock).mp passes later] at received
    cases received
  · intro safe src payload
    rw [handsOver_iff, handsOver_iff]
    constructor
    · rintro ⟨bytes, received, knock⟩
      by_cases passes : PassesFilter config.knockPort frame
      · rw [recv_filtered.1 passes] at received
        exact ⟨bytes, plain.trans received, knock⟩
      · rw [recv_filtered.2 passes] at received
        cases received
    · rintro ⟨bytes, received, parsed, size⟩
      cases plain.symm.trans received
      have knock := parseEthernetIpv4Udp_knock.mp ⟨src, payload, parsed, size⟩
      have passes := (passes_iff knock).mpr fun later => safe ⟨knock, later⟩
      exact ⟨_, recv_filtered.1 passes, parsed, size⟩

/-- A later fragment that looks like a knock, whatever is sealed in it. -/
def sampleFragment : List UInt8 := (sampleFrame 8443 (List.replicate 44 0)).set 21 1

theorem fragment_skips_filter : ¬ ∀ (crypto : Crypto) (config : SnifferConfig) (s : Sniffer)
    (now : UInt64) (nft : List String → Spawned) (frame : List UInt8) (src : Ipv4Addr)
    (payload : List UInt8),
    HandsOver crypto config s now nft (some (attachKnockFilter config.knockPort)) frame src payload ↔
      HandsOver crypto config s now nft none frame src payload := by
  intro agree
  have parsed : parseEthernetIpv4Udp (sampleFragment.take recvLen) =
      some (some (⟨203, 0, 113, 7⟩, 8443, List.replicate 44 0)) := by decide +kernel
  have dropped : recv (some (attachKnockFilter 8443)) sampleFragment = none := by decide +kernel
  have handed := (agree .transparent sampleConfig (new .transparent sampleConfig) 1000
    (fun _ => .exited true "exit status: 0") sampleFragment _ _).mpr
    (handsOver_iff.mpr ⟨_, rfl, parsed, rfl⟩)
  obtain ⟨bytes, received, -⟩ := handsOver_iff.mp handed
  cases dropped.symm.trans received

end HyperionVpn.Sniffer
