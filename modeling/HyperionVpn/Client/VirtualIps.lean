import HyperionVpn.Client.Config
import HyperionVpn.Lib.FirstFit

/-! Resolution of virtual addresses: an instance of first-fit allocation. The
words of the computation never leave their range. -/
namespace HyperionVpn.Client
open Net FirstFit

/-! Errors. -/

theorem bind_eq_ok {x : Except ε α} {f : α → Except ε β} {b : β} :
    (x >>= f) = .ok b ↔ ∃ a, x = .ok a ∧ f a = .ok b := by
  cases x with
  | error e => simp [bind, Except.bind]
  | ok a => simp [bind, Except.bind]

theorem bind_eq_error {x : Except ε α} {f : α → Except ε β} {e : ε} :
    (x >>= f) = .error e ↔ x = .error e ∨ ∃ a, x = .ok a ∧ f a = .error e := by
  cases x with
  | error e => simp [bind, Except.bind]
  | ok a => simp [bind, Except.bind]

theorem contextParse_eq_ok {message syntaxError : String} {x : Option α} {a : α} :
    contextParse message syntaxError x = .ok a ↔ x = some a := by
  cases x <;> simp [contextParse]

theorem contextNone_eq_ok {message : String} {x : Option α} {a : α} :
    contextNone message x = .ok a ↔ x = some a := by
  cases x <;> simp [contextNone, bail]

theorem contextError_eq_ok {message : String} {display : ε → String} {x : Except ε α} {a : α} :
    contextError message display x = .ok a ↔ x = .ok a := by
  cases x <;> simp [contextError]

/-! The subnet. -/

namespace TunConfig

/-- The number of host bits. -/
def hostBits (tun : TunConfig) : Nat := 32 - tun.prefixLen.toNat

theorem hostBits_bounds (tun : TunConfig) : 2 ≤ tun.hostBits ∧ tun.hostBits < 32 := by
  have pos := tun.prefix_pos
  have le := tun.prefix_le
  unfold hostBits
  omega

/-- The first address of the subnet, as a number. -/
def network (tun : TunConfig) : Nat := tun.addr.toNat / 2 ^ tun.hostBits * 2 ^ tun.hostBits

theorem shift_toNat (tun : TunConfig) : (32 - tun.prefixLen).toNat = tun.hostBits := by
  have le := tun.prefix_le
  have small : tun.prefixLen ≤ 32 := UInt8.le_iff_toNat_le.mpr (by simp; omega)
  rw [UInt8.toNat_sub_of_le _ _ small]
  rfl

theorem hostCount_toNat (tun : TunConfig) : tun.hostCount.toNat = 2 ^ tun.hostBits := by
  obtain ⟨-, bits⟩ := tun.hostBits_bounds
  have small : 2 ^ tun.hostBits < 2 ^ 32 := Nat.pow_lt_pow_right (by decide) bits
  simp only [hostCount, UInt32.toNat_shiftLeft, UInt8.toNat_toUInt32, shift_toNat]
  rw [Nat.mod_eq_of_lt bits, Nat.shiftLeft_eq]
  simpa using small

theorem mask_toNat (tun : TunConfig) :
    tun.mask.toNat = (2 ^ 32 - 1) <<< tun.hostBits % 2 ^ 32 := by
  obtain ⟨-, bits⟩ := tun.hostBits_bounds
  simp only [mask, UInt32.toNat_shiftLeft, UInt8.toNat_toUInt32, shift_toNat]
  simp [Nat.mod_eq_of_lt bits]

theorem base_toNat (tun : TunConfig) : tun.base.toNat = tun.network := by
  have small := tun.addr.toNat_lt
  rw [base, UInt32.toNat_and, Ipv4Addr.toU32_toNat, mask_toNat, network,
    ← Nat.shiftRight_eq_div_pow, ← Nat.shiftLeft_eq]
  apply Nat.eq_of_testBit_eq
  intro i
  simp only [Nat.testBit_and, Nat.testBit_mod_two_pow, Nat.testBit_shiftLeft,
    Nat.testBit_shiftRight, Nat.testBit_two_pow_sub_one]
  by_cases low : tun.hostBits ≤ i
  · have same : tun.hostBits + (i - tun.hostBits) = i := by omega
    by_cases high : i < 32
    · have inner : i - tun.hostBits < 32 := by omega
      simp [low, high, inner, same]
    · have above : tun.addr.toNat.testBit i = false :=
        Nat.testBit_lt_two_pow (small.trans_le (Nat.pow_le_pow_right (by decide) (by omega)))
      simp [high, same, above]
  · simp [low]

/-- The subnet ends within the address space, so no sum of its base and a host
number overflows. -/
theorem network_le (tun : TunConfig) : tun.network + 2 ^ tun.hostBits ≤ 2 ^ 32 := by
  obtain ⟨-, bits⟩ := tun.hostBits_bounds
  have split : 2 ^ 32 = 2 ^ (32 - tun.hostBits) * 2 ^ tun.hostBits := by
    rw [← pow_add]
    congr 1
    omega
  have below : tun.addr.toNat / 2 ^ tun.hostBits < 2 ^ (32 - tun.hostBits) := by
    rw [Nat.div_lt_iff_lt_mul (by positivity), ← split]
    exact tun.addr.toNat_lt
  rw [network, split, ← Nat.succ_mul]
  exact Nat.mul_le_mul_right _ below

/-- The numbers of the hosts that may be assigned. -/
def hostNumbers (tun : TunConfig) : List Nat :=
  List.range' virtualHostStart (2 ^ tun.hostBits - 1 - virtualHostStart)

theorem mem_hostNumbers {tun : TunConfig} {h : Nat} :
    h ∈ tun.hostNumbers ↔ virtualHostStart ≤ h ∧ h + 1 < 2 ^ tun.hostBits := by
  rw [hostNumbers, List.mem_range'_1]
  omega

theorem candidate_toNat {tun : TunConfig} {h : Nat} (inside : h < 2 ^ tun.hostBits) :
    (Ipv4Addr.ofU32 (tun.base + UInt32.ofNat h)).toNat = tun.network + h := by
  have fits := tun.network_le
  have number : (UInt32.ofNat h).toNat = h := UInt32.toNat_ofNat_of_lt' (by
    have size : UInt32.size = 2 ^ 32 := rfl
    omega)
  rw [Ipv4Addr.ofU32_toNat, UInt32.toNat_add, base_toNat, number]
  exact Nat.mod_eq_of_lt (by omega)

/-- The addresses that may be assigned, lowest first. -/
def hosts (tun : TunConfig) : List Ipv4Addr := tun.candidates.filter (· ≠ tun.addr)

theorem candidates_eq (tun : TunConfig) : tun.candidates = tun.hostNumbers.map fun h =>
    Ipv4Addr.ofU32 (tun.base + UInt32.ofNat h) := by
  rw [candidates, hostNumbers, hostCount_toNat]

theorem hosts_sorted (tun : TunConfig) : tun.hosts.Pairwise (· < ·) := by
  apply List.Pairwise.filter
  rw [candidates_eq, List.pairwise_map]
  have increasing : tun.hostNumbers.Pairwise (· < ·) := List.pairwise_lt_range'
  refine increasing.imp_of_mem ?_
  intro i j low high less
  have hi := (mem_hostNumbers.mp low).2
  have hj := (mem_hostNumbers.mp high).2
  rw [Ipv4Addr.lt_iff_toNat, candidate_toNat (by omega), candidate_toNat (by omega)]
  omega

theorem mem_hosts {tun : TunConfig} {ip : Ipv4Addr} :
    ip ∈ tun.hosts ↔ tun.network + virtualHostStart ≤ ip.toNat ∧
      ip.toNat + 2 ≤ tun.network + 2 ^ tun.hostBits ∧ ip ≠ tun.addr := by
  simp only [hosts, candidates_eq, List.mem_filter, List.mem_map, decide_eq_true_eq]
  constructor
  · rintro ⟨⟨h, member, rfl⟩, other⟩
    obtain ⟨low, high⟩ := mem_hostNumbers.mp member
    rw [candidate_toNat (by omega)]
    exact ⟨by omega, by omega, other⟩
  · rintro ⟨low, high, other⟩
    have number : ip.toNat - tun.network + 1 < 2 ^ tun.hostBits := by omega
    refine ⟨⟨ip.toNat - tun.network, mem_hostNumbers.mpr ⟨by omega, number⟩, ?_⟩, other⟩
    apply Ipv4Addr.toNat_injective
    rw [candidate_toNat (by omega)]
    omega

end TunConfig

theorem assignVirtualIp_eq (tun : TunConfig) (used : Finset Ipv4Addr) :
    assignVirtualIp tun used = firstFree tun.hosts used := by
  simp [assignVirtualIp, firstFree, TunConfig.hosts, List.find?_filter]

/-! The two loops. -/

/-- The address that a section demands. -/
def wish (s : ServerSection) : Option Ipv4Addr := s.virtualIp.bind Ipv4Addr.parse

def Parses (s : ServerSection) : Prop :=
  ∀ vip, s.virtualIp = some vip → ∃ ip, Ipv4Addr.parse vip = some ip

theorem wish_eq_none {s : ServerSection} (parses : Parses s) :
    wish s = none ↔ s.virtualIp = none := by
  unfold wish
  constructor
  · intro none
    cases stated : s.virtualIp with
    | none => rfl
    | some vip =>
      obtain ⟨ip, parsed⟩ := parses vip stated
      simp [stated, parsed] at none
  · intro none
    simp [none]

theorem collectUsed_eq_ok {used used' : Finset Ipv4Addr} {servers : List ServerSection} :
    collectUsed used servers = .ok used' ↔ (∀ s ∈ servers, Parses s) ∧
      (wishes wish servers).Nodup ∧ (∀ ip ∈ wishes wish servers, ip ∉ used) ∧
      used' = used ∪ (wishes wish servers).toFinset := by
  induction servers generalizing used used' with
  | nil => simp [collectUsed, pure, Except.pure, wishes, eq_comm]
  | cons s rest ih =>
    cases stated : s.virtualIp with
    | none =>
      have plain : wish s = none := by simp [wish, stated]
      have same : wishes wish (s :: rest) = wishes wish rest := by simp [wishes, plain]
      have parses : Parses s := by
        intro vip other
        rw [stated] at other
        cases other
      simp only [collectUsed, stated, ih, same, List.forall_mem_cons, parses, true_and]
    | some vip =>
      simp only [collectUsed, stated, bind_eq_ok, contextParse_eq_ok]
      constructor
      · rintro ⟨ip, parsed, rest_ok⟩
        split at rest_ok
        · cases rest_ok
        · rename_i fresh
          obtain ⟨parses, distinct, disjoint, rfl⟩ := ih.mp rest_ok
          have wanted : wish s = some ip := by simp [wish, stated, parsed]
          have cons : wishes wish (s :: rest) = ip :: wishes wish rest := by simp [wishes, wanted]
          have later : ∀ other ∈ wishes wish rest, other ≠ ip ∧ other ∉ used := by
            intro other member
            have absent := disjoint other member
            rwa [Finset.mem_insert, not_or] at absent
          refine ⟨?_, ?_, ?_, ?_⟩
          · rintro t (_ | ⟨_, member⟩)
            · intro other same
              cases stated.symm.trans same
              exact ⟨ip, parsed⟩
            · exact parses t member
          · rw [cons, List.nodup_cons]
            exact ⟨fun member => (later ip member).1 rfl, distinct⟩
          · rw [cons]
            rintro other (_ | ⟨_, member⟩)
            · exact fresh
            · exact (later other member).2
          · rw [cons, List.toFinset_cons, Finset.union_insert, Finset.insert_union]
      · rintro ⟨parses, distinct, disjoint, rfl⟩
        obtain ⟨ip, parsed⟩ := parses s List.mem_cons_self vip stated
        have wanted : wish s = some ip := by simp [wish, stated, parsed]
        have cons : wishes wish (s :: rest) = ip :: wishes wish rest := by simp [wishes, wanted]
        rw [cons] at distinct disjoint ⊢
        obtain ⟨other, distinct⟩ := List.nodup_cons.mp distinct
        refine ⟨ip, parsed, ?_⟩
        rw [if_neg (disjoint ip List.mem_cons_self), List.toFinset_cons, Finset.union_insert,
          ← Finset.insert_union]
        refine ih.mpr ⟨fun t member => parses t (List.mem_cons_of_mem _ member), distinct, ?_, rfl⟩
        intro later member
        rw [Finset.mem_insert, not_or]
        refine ⟨?_, disjoint later (List.mem_cons_of_mem _ member)⟩
        rintro rfl
        exact other member

/-- Once the first loop has parsed every address, the second serves the
sections and its unwrap is safe. -/
theorem assignAll_eq (tun : TunConfig) (used : Finset Ipv4Addr) {servers : List ServerSection}
    (parses : ∀ s ∈ servers, Parses s) :
    assignAll tun used servers =
      contextNone noFreeVirtualIp (serve wish tun.hosts used servers) := by
  induction servers generalizing used with
  | nil => rfl
  | cons s rest ih =>
    have tail := fun used => ih used fun t member => parses t (List.mem_cons_of_mem _ member)
    cases stated : s.virtualIp with
    | none =>
      have plain : wish s = none := by simp [wish, stated]
      simp only [assignAll, stated, serve, plain, assignVirtualIp_eq, tail]
      cases firstFree tun.hosts used with
      | none => rfl
      | some ip =>
        have got : contextNone noFreeVirtualIp (some ip) = Except.ok ip := rfl
        rw [Option.bind_some, got]
        cases served : serve wish tun.hosts (insert ip used) rest <;>
          simp [served, bind, Except.bind, contextNone, bail, pure, Except.pure]
    | some vip =>
      obtain ⟨ip, parsed⟩ := parses s List.mem_cons_self vip stated
      have wanted : wish s = some ip := by simp [wish, stated, parsed]
      simp only [assignAll, stated, parsed, serve, wanted, tail]
      cases serve wish tun.hosts used rest <;> rfl

theorem explicitIps_eq (servers : List ServerSection) :
    explicitIps servers = (wishes wish servers).toFinset := rfl

/-- What `resolve_virtual_ips` demands of the sections. -/
structure Explicit (servers : List ServerSection) : Prop where
  parses : ∀ s ∈ servers, Parses s
  distinct : (wishes wish servers).Nodup

theorem resolveVirtualIps_eq_ok {tun : TunConfig} {servers : List ServerSection}
    {ips : List Ipv4Addr} : resolveVirtualIps tun servers = .ok ips ↔
      Explicit servers ∧ serve wish tun.hosts (explicitIps servers) servers = some ips := by
  simp only [resolveVirtualIps, bind_eq_ok, collectUsed_eq_ok, explicitIps_eq]
  constructor
  · rintro ⟨used, ⟨parses, distinct, -, rfl⟩, served⟩
    rw [Finset.empty_union, assignAll_eq tun _ parses, contextNone_eq_ok] at served
    exact ⟨⟨parses, distinct⟩, served⟩
  · rintro ⟨⟨parses, distinct⟩, served⟩
    refine ⟨_, ⟨parses, distinct, by simp, rfl⟩, ?_⟩
    rwa [Finset.empty_union, assignAll_eq tun _ parses, contextNone_eq_ok]

theorem collectUsed_no_panic (used : Finset Ipv4Addr) (servers : List ServerSection) :
    collectUsed used servers ≠ .error .panic := by
  induction servers generalizing used with
  | nil => simp [collectUsed, pure, Except.pure]
  | cons s rest ih =>
    cases stated : s.virtualIp with
    | none => simpa only [collectUsed, stated] using ih used
    | some vip =>
      simp only [collectUsed, stated]
      cases Ipv4Addr.parse vip with
      | none => simp [contextParse, bind, Except.bind]
      | some ip =>
        simp only [contextParse, bind, Except.bind]
        split
        · simp [bail]
        · exact ih _

theorem resolveVirtualIps_no_panic (tun : TunConfig) (servers : List ServerSection) :
    resolveVirtualIps tun servers ≠ .error .panic := by
  unfold resolveVirtualIps
  cases collected : collectUsed ∅ servers with
  | error failure =>
    intro panic
    cases panic
    exact collectUsed_no_panic ∅ servers collected
  | ok used =>
    have parses := (collectUsed_eq_ok.mp collected).1
    show assignAll tun used servers ≠ _
    rw [assignAll_eq tun used parses]
    cases serve wish tun.hosts used servers <;> simp [contextNone, bail]

/-! First fit. -/

/-- The addresses left for the sections without one, lowest first. -/
def pool (tun : TunConfig) (servers : List ServerSection) : List Ipv4Addr :=
  free tun.hosts (explicitIps servers)

/-- How many of the sections have no address. -/
def absent (servers : List ServerSection) : Nat := servers.countP fun s => s.virtualIp.isNone

/-- The sections with what they get. -/
structure Resolves (tun : TunConfig) (servers : List ServerSection) (ips : List Ipv4Addr) :
    Prop where
  length : ips.length = servers.length
  nodup : ips.Nodup
  explicit : ∀ (i : Nat) (s : ServerSection) (vip : String), servers[i]? = some s →
    s.virtualIp = some vip → ips[i]? = Ipv4Addr.parse vip
  lowest : ∀ (i : Nat) (s : ServerSection), servers[i]? = some s → s.virtualIp = none →
    ips[i]? = (pool tun servers)[absent (servers.take i)]?

theorem mem_explicitIps {servers : List ServerSection} {ip : Ipv4Addr} :
    ip ∈ explicitIps servers ↔
      ∃ s ∈ servers, ∃ vip, s.virtualIp = some vip ∧ Ipv4Addr.parse vip = some ip := by
  simp [explicitIps, Option.bind_eq_some_iff]

theorem mem_pool {tun : TunConfig} {servers : List ServerSection} {ip : Ipv4Addr} :
    ip ∈ pool tun servers ↔ (tun.network + virtualHostStart ≤ ip.toNat ∧
      ip.toNat + 2 ≤ tun.network + 2 ^ tun.hostBits ∧ ip ≠ tun.addr) ∧
      ∀ s ∈ servers, ∀ vip, s.virtualIp = some vip → Ipv4Addr.parse vip ≠ some ip := by
  rw [pool, mem_free, TunConfig.mem_hosts, mem_explicitIps]
  push Not
  rfl

theorem countP_wish {servers : List ServerSection} (parses : ∀ s ∈ servers, Parses s) :
    servers.countP (fun s => (wish s).isNone) = absent servers := by
  apply List.countP_congr
  intro s member
  simp only [Option.isNone_iff_eq_none, wish_eq_none (parses s member)]

theorem hosts_nodup (tun : TunConfig) : tun.hosts.Nodup := tun.hosts_sorted.imp ne_of_lt

theorem served_of_ok {tun : TunConfig} {servers : List ServerSection} {ips : List Ipv4Addr}
    (ok : resolveVirtualIps tun servers = .ok ips) :
    Explicit servers ∧ ips.length = servers.length ∧
      Served wish tun.hosts (explicitIps servers) (servers.zip ips) := by
  obtain ⟨explicit, served⟩ := resolveVirtualIps_eq_ok.mp ok
  exact ⟨explicit, (serve_eq_some_iff (hosts_nodup tun)).mp served⟩

theorem resolves_iff {tun : TunConfig} {servers : List ServerSection} :
    (∃ ips, resolveVirtualIps tun servers = .ok ips) ↔
      Explicit servers ∧ absent servers ≤ (pool tun servers).length := by
  simp only [resolveVirtualIps_eq_ok, exists_and_left]
  apply and_congr_right
  intro explicit
  rw [serve_isSome_iff (hosts_nodup tun), countP_wish explicit.parses]
  rfl

theorem resolves {tun : TunConfig} {servers : List ServerSection} {ips : List Ipv4Addr}
    (ok : resolveVirtualIps tun servers = .ok ips) : Resolves tun servers ips := by
  obtain ⟨explicit, size, served⟩ := served_of_ok ok
  have sections : (servers.zip ips).map Prod.fst = servers := List.map_fst_zip size.ge
  have got : (servers.zip ips).map Prod.snd = ips := List.map_snd_zip size.le
  have pair {i : Nat} {s : ServerSection} (here : servers[i]? = some s) :
      ∃ ip, ips[i]? = some ip ∧ (servers.zip ips)[i]? = some (s, ip) := by
    obtain ⟨inside, -⟩ := List.getElem?_eq_some_iff.mp here
    have found : ips[i]? = some ips[i] := List.getElem?_eq_getElem (by omega)
    exact ⟨ips[i], found, List.getElem?_zip_eq_some.mpr ⟨here, found⟩⟩
  refine ⟨size, ?_, ?_, ?_⟩
  · have whole : Served wish tun.hosts (wishes wish ((servers.zip ips).map Prod.fst)).toFinset
        (servers.zip ips) := by
      rw [sections]
      exact served
    rw [← got]
    apply whole.nodup tun.hosts_sorted
    rw [sections]
    exact explicit.distinct
  · intro i s vip here stated
    obtain ⟨ip, found, both⟩ := pair here
    obtain ⟨wanted, parsed⟩ := explicit.parses s (List.mem_of_getElem? here) vip stated
    have same : ip = wanted := served.honored _ (List.mem_of_getElem? both) wanted (by
      simp [wish, stated, parsed])
    rw [found, same, parsed]
  · intro i s here plain
    obtain ⟨ip, found, both⟩ := pair here
    have parses : ∀ t ∈ servers.take i, Parses t :=
      fun t member => explicit.parses t (List.mem_of_mem_take member)
    have rank : ((servers.zip ips).take i).countP (fun z => (wish z.1).isNone) =
        absent (servers.take i) := by
      rw [← countP_wish parses, ← sections, ← List.map_take, List.countP_map, sections]
      rfl
    have wishless : wish s = none := by simp [wish, plain]
    have low := granted_getElem both wishless
    rw [rank] at low
    obtain ⟨rest, split⟩ := served.lowest
    have inside := (List.getElem?_eq_some_iff.mp low).1
    rw [found, pool, ← split, List.getElem?_append_left inside, low]

/-- Resolution is first-fit allocation from the pool that all explicit
addresses leave, and none of its words overflows. -/
theorem resolution_is_first_fit (tun : TunConfig) (servers : List ServerSection) :
    ((pool tun servers).Pairwise (· < ·) ∧ ∀ ip, ip ∈ pool tun servers ↔
      (tun.network + virtualHostStart ≤ ip.toNat ∧
        ip.toNat + 2 ≤ tun.network + 2 ^ tun.hostBits ∧ ip ≠ tun.addr) ∧
        ∀ s ∈ servers, ∀ vip, s.virtualIp = some vip → Ipv4Addr.parse vip ≠ some ip) ∧
    ((∃ ips, resolveVirtualIps tun servers = .ok ips) ↔
      Explicit servers ∧ absent servers ≤ (pool tun servers).length) ∧
    (∀ ips, resolveVirtualIps tun servers = .ok ips → Resolves tun servers ips) ∧
    resolveVirtualIps tun servers ≠ .error .panic ∧
    tun.prefixLen.toNat ≤ 32 ∧ (32 - tun.prefixLen).toNat < 32 ∧
    ∀ h ∈ tun.hostNumbers, h < 2 ^ 32 ∧ tun.base.toNat + h < 2 ^ 32 := by
  have below := tun.network_le
  have bits := tun.hostBits_bounds
  have upper := tun.prefix_le
  refine ⟨⟨free_sorted tun.hosts_sorted, fun ip => mem_pool⟩, resolves_iff, fun ips => resolves,
    resolveVirtualIps_no_panic tun servers, by omega, ?_, ?_⟩
  · rw [tun.shift_toNat]
    exact bits.2
  · intro h member
    have high := (TunConfig.mem_hostNumbers.mp member).2
    rw [tun.base_toNat]
    constructor <;> omega

end HyperionVpn.Client
