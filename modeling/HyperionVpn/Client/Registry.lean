import HyperionVpn.Client.Reloading

/-! The file that `init_config` starts and the commands maintain, as a finite
map from names to servers. -/
namespace HyperionVpn.Client
open Net FirstFit Machine

/-! The abstract map. -/

structure Entry where
  addr : SocketAddr
  serverPubkey : String
  virtualIp : Ipv4Addr
  deriving DecidableEq, Repr

abbrev Registry := KeyMap String Entry

/-- Host .10 to .254 of 10.99.0.0/24. -/
def ManagedHost (ip : Ipv4Addr) : Prop :=
  ip.a = 10 ∧ ip.b = 99 ∧ ip.c = 0 ∧ 10 ≤ ip.d.toNat ∧ ip.d.toNat ≤ 254

namespace Registry

def Taken (m : Registry) (ip : Ipv4Addr) : Prop := ∃ n e, m.lookup n = some e ∧ e.virtualIp = ip

/-- When a server can be added. -/
def Admits (env : Environment) (m : Registry) (name addr serverPubkey : String) : Prop :=
  name ∉ m ∧ (∃ parsedAddr, SocketAddr.parse (normalizeAddr addr) = some parsedAddr) ∧
    (∃ key, PublicKey.fromBase64 env.library serverPubkey = .ok key) ∧ KeyMap.size m < 245

/-- What a command answers, if it does not fail, and what it makes of the map. -/
inductive Step (env : Environment) (m : Registry) :
    Edit → Option (Option Ipv4Addr) → Registry → Prop where
  | added {name addr serverPubkey parsedAddr vip} : Admits env m name addr serverPubkey →
      SocketAddr.parse (normalizeAddr addr) = some parsedAddr →
      IsLeast {ip | ManagedHost ip ∧ ¬ m.Taken ip} vip →
      Step env m (.add name addr serverPubkey) (some (some vip))
        (m.insert name ⟨parsedAddr, serverPubkey, vip⟩)
  | addRefused {name addr serverPubkey} : ¬ Admits env m name addr serverPubkey →
      Step env m (.add name addr serverPubkey) none m
  | removed {name} : name ∈ m → Step env m (.remove name) (some none) (m.erase name)
  | removeRefused {name} : name ∉ m → Step env m (.remove name) none m

inductive Runs (env : Environment) : List (Edit × Option (Option Ipv4Addr)) → Registry → Prop where
  | nil : Runs env [] ∅
  | snoc {tr m e a m'} : Runs env tr m → Step env m e a m' → Runs env (tr ++ [(e, a)]) m'

end Registry

/-! The file that represents a map. -/

/-- The [tun] section of a new file. -/
def managedTun : TunConfig where
  addr := ⟨10, 99, 0, 1⟩
  prefixLen := 24
  mtu := 1420
  prefix_pos := by decide
  prefix_le := by decide

theorem parseTun_default : parseTun TunSection.default = .ok managedTun := by
  have addr : Ipv4Addr.parse "10.99.0.1" = some ⟨10, 99, 0, 1⟩ := by decide +kernel
  simp only [parseTun, TunSection.default, addr]
  rfl

theorem mem_managedHosts {ip : Ipv4Addr} : ip ∈ managedTun.hosts ↔ ManagedHost ip := by
  have network : managedTun.network = 10 * 2 ^ 24 + 99 * 2 ^ 16 := by decide
  have bits : managedTun.hostBits = 8 := by decide
  have addr : managedTun.addr.toNat = 10 * 2 ^ 24 + 99 * 2 ^ 16 + 1 := by decide
  have octets : ∀ n : UInt8, n.toNat < 2 ^ 8 := fun n => n.toNat_lt
  have ha := octets ip.a
  have hb := octets ip.b
  have hc := octets ip.c
  have hd := octets ip.d
  have number : ip.toNat =
      ip.a.toNat * 2 ^ 24 + ip.b.toNat * 2 ^ 16 + ip.c.toNat * 2 ^ 8 + ip.d.toNat := rfl
  rw [TunConfig.mem_hosts, network, bits, ManagedHost, virtualHostStart, ← UInt8.toNat_inj,
    ← UInt8.toNat_inj, ← UInt8.toNat_inj, ← Ipv4Addr.toNat_injective.ne_iff, addr]
  simp only [UInt8.reduceToNat]
  omega

theorem managedHosts_length : managedTun.hosts.length = 245 := by decide +kernel

/-- The file has the sections of the map, in some order, and else what
`init_config` wrote. -/
structure Represents (init file : FileConfig) (m : Registry) : Prop where
  rest : { file with server := [] } = init
  sections : file.server.Perm (m.pairs.map fun e =>
    addedSection e.1 e.2.addr e.2.serverPubkey e.2.virtualIp)

/-- All addresses are hosts of the subnet, and no two servers share one. -/
structure Registry.Distinct (m : Registry) : Prop where
  managed : ∀ n e, m.lookup n = some e → ManagedHost e.virtualIp
  injective : ∀ n n' e e', m.lookup n = some e → m.lookup n' = some e' →
    e.virtualIp = e'.virtualIp → n = n'

namespace Registry

variable {env : Environment} {m m' : Registry}

theorem Distinct.step {e : Edit} {answer : Option (Option Ipv4Addr)} (h : m.Distinct)
    (step : Step env m e answer m') : m'.Distinct := by
  cases step with
  | addRefused _ => exact h
  | removeRefused _ => exact h
  | @added name _ serverPubkey parsedAddr vip admits parses least =>
    have found {n e} : AList.lookup n (m.insert name ⟨parsedAddr, serverPubkey, vip⟩) = some e ↔
        if n = name then e = ⟨parsedAddr, serverPubkey, vip⟩ else m.lookup n = some e := by
      split
      · rename_i same
        subst same
        rw [AList.lookup_insert, Option.some.injEq, eq_comm]
      · rename_i other
        rw [AList.lookup_insert_ne other]
    have untaken : ∀ n e, m.lookup n = some e → e.virtualIp ≠ vip :=
      fun n e present same => least.1.2 ⟨n, e, present, same⟩
    constructor
    · intro n e present
      rw [found] at present
      split at present
      · rw [present]
        exact least.1.1
      · exact h.managed n e present
    · intro n n' e e' present present' same
      rw [found] at present present'
      split at present <;> split at present'
      · rename_i first second
        exact first.trans second.symm
      · rw [present] at same
        exact absurd same.symm (untaken n' e' present')
      · rw [present'] at same
        exact absurd same (untaken n e present)
      · exact h.injective n n' e e' present present' same
  | @removed name _ =>
    have kept {n e} (present : AList.lookup n (m.erase name) = some e) : m.lookup n = some e := by
      by_cases same : n = name
      · subst same
        rw [AList.lookup_erase] at present
        cases present
      · rwa [AList.lookup_erase_ne same] at present
    constructor
    · intro n e present
      exact h.managed n e (kept present)
    · intro n n' e e' present present'
      exact h.injective n n' e e' (kept present) (kept present')

end Registry

theorem Registry.Distinct.addresses_nodup {m : Registry} (h : m.Distinct) :
    (m.pairs.map fun e => e.2.virtualIp).Nodup := by
  apply List.Nodup.map_on _ m.pairs_nodup
  rintro ⟨n, e⟩ present ⟨n', e'⟩ present' same
  rw [KeyMap.mem_pairs] at present present'
  obtain rfl := h.injective n n' e e' present present' same
  rw [present, Option.some.injEq] at present'
  rw [present']

namespace Represents

variable {init file : FileConfig} {m : Registry}

theorem member (h : Represents init file m) {s : ServerSection} : s ∈ file.server ↔
    ∃ n e, m.lookup n = some e ∧ s = addedSection n e.addr e.serverPubkey e.virtualIp := by
  rw [h.sections.mem_iff, List.mem_map]
  constructor
  · rintro ⟨⟨n, e⟩, present, rfl⟩
    exact ⟨n, e, KeyMap.mem_pairs.mp present, rfl⟩
  · rintro ⟨n, e, present, rfl⟩
    exact ⟨(n, e), KeyMap.mem_pairs.mpr present, rfl⟩

theorem named (h : Represents init file m) {n : String} :
    (∃ s ∈ file.server, s.name = n) ↔ n ∈ m := by
  rw [← AList.lookup_isSome, Option.isSome_iff_exists]
  constructor
  · rintro ⟨s, present, rfl⟩
    obtain ⟨n, e, found, rfl⟩ := h.member.mp present
    exact ⟨e, found⟩
  · rintro ⟨e, found⟩
    exact ⟨_, h.member.mpr ⟨n, e, found, rfl⟩, rfl⟩

theorem names_nodup (h : Represents init file m) : (file.server.map (·.name)).Nodup := by
  have keys := h.sections.map (·.name)
  rw [List.map_map] at keys
  exact keys.nodup_iff.mpr m.keys_nodup

theorem wished (h : Represents init file m) :
    (wishes wish file.server).Perm (m.pairs.map fun e => e.2.virtualIp) := by
  have all := h.sections.filterMap wish
  rw [List.filterMap_map] at all
  have explicit : (wish ∘ fun e : String × Entry =>
      addedSection e.1 e.2.addr e.2.serverPubkey e.2.virtualIp) = fun e => some e.2.virtualIp := by
    funext e
    simp [wish, addedSection, Ipv4Addr.parse_display]
  rw [explicit, List.filterMap_eq_map'] at all
  exact all

theorem used_iff (h : Represents init file m) {ip : Ipv4Addr} :
    ip ∈ explicitIps file.server ↔ m.Taken ip := by
  rw [explicitIps_eq, List.mem_toFinset, h.wished.mem_iff, List.mem_map]
  constructor
  · rintro ⟨⟨n, e⟩, present, same⟩
    exact ⟨n, e, KeyMap.mem_pairs.mp present, same⟩
  · rintro ⟨n, e, present, same⟩
    exact ⟨(n, e), KeyMap.mem_pairs.mpr present, same⟩

theorem used_card (h : Represents init file m) (distinct : m.Distinct) :
    (explicitIps file.server).card = m.size := by
  rw [explicitIps_eq, List.toFinset_card_of_nodup (h.wished.nodup_iff.mpr distinct.addresses_nodup),
    h.wished.length_eq, List.length_map, KeyMap.pairs_length]

theorem lowest_iff (h : Represents init file m) {vip : Ipv4Addr} :
    firstFree managedTun.hosts (explicitIps file.server) = some vip ↔
      IsLeast {ip | ManagedHost ip ∧ ¬ m.Taken ip} vip := by
  rw [firstFree_eq_some_iff_isLeast managedTun.hosts_sorted]
  simp only [mem_managedHosts, h.used_iff]

/-- The subnet is full at 245 servers. -/
theorem room_iff (h : Represents init file m) (distinct : m.Distinct) :
    (∃ vip, firstFree managedTun.hosts (explicitIps file.server) = some vip) ↔ m.size < 245 := by
  have inside : ∀ ip ∈ explicitIps file.server, ip ∈ managedTun.hosts := by
    intro ip used
    obtain ⟨n, e, found, rfl⟩ := h.used_iff.mp used
    exact mem_managedHosts.mpr (distinct.managed n e found)
  have size := free_length (hosts_nodup managedTun) inside
  rw [h.used_card distinct, managedHosts_length] at size
  constructor
  · rintro ⟨vip, first⟩
    obtain ⟨others, head⟩ := firstFree_eq_some.mp first
    rw [head, List.length_cons] at size
    omega
  · intro room
    cases head : free managedTun.hosts (explicitIps file.server) with
    | nil =>
      rw [head, List.length_nil] at size
      omega
    | cons vip others => exact ⟨vip, firstFree_eq_some.mpr ⟨others, head⟩⟩

theorem tun (h : Represents init file m) (managed : init.tun = TunSection.default) :
    parseTun file.tun = .ok managedTun := by
  have same := congrArg FileConfig.tun h.rest
  dsimp only at same
  rw [same, managed, parseTun_default]

/-- The command succeeds on the file where the map admits the server. -/
theorem adds_iff {env : Environment} {name addr serverPubkey : String} {parsedAddr : SocketAddr}
    {vip : Ipv4Addr} (h : Represents init file m) (managed : init.tun = TunSection.default)
    (distinct : m.Distinct) :
    (∃ tun, Adds env file name addr serverPubkey parsedAddr tun vip) ↔
      Registry.Admits env m name addr serverPubkey ∧
        SocketAddr.parse (normalizeAddr addr) = some parsedAddr ∧
        IsLeast {ip | ManagedHost ip ∧ ¬ m.Taken ip} vip := by
  have fresh : (∀ s ∈ file.server, s.name ≠ name) ↔ name ∉ m := by
    rw [← h.named]
    push Not
    rfl
  constructor
  · rintro ⟨tun, parses, decodes, absent, tunParses, lowest⟩
    cases tunParses.symm.trans (h.tun managed)
    exact ⟨⟨fresh.mp absent, ⟨_, parses⟩, decodes, (h.room_iff distinct).mp ⟨vip, lowest⟩⟩, parses,
      h.lowest_iff.mp lowest⟩
  · rintro ⟨⟨absent, -, decodes, -⟩, parses, least⟩
    exact ⟨managedTun, parses, decodes, fresh.mpr absent, h.tun managed, h.lowest_iff.mpr least⟩

theorem insert {n serverPubkey : String} {addr : SocketAddr} {vip : Ipv4Addr}
    (h : Represents init file m) (fresh : n ∉ m) :
    Represents init
      { file with server := file.server ++ [addedSection n addr serverPubkey vip] }
      (m.insert n ⟨addr, serverPubkey, vip⟩) := by
  refine ⟨h.rest, ?_⟩
  rw [KeyMap.pairs_insert_of_notMem fresh, List.map_cons]
  exact (List.perm_append_singleton _ _).trans (h.sections.cons _)

theorem erase (h : Represents init file m) (n : String) :
    Represents init { file with server := file.server.filter (·.name ≠ n) } (m.erase n) := by
  refine ⟨h.rest, ?_⟩
  have kept := h.sections.filter (·.name ≠ n)
  rw [List.filter_map] at kept
  exact kept.trans ((KeyMap.pairs_erase_perm m n).map _).symm

/-- One command on the file is one step of the map. -/
theorem step {env : Environment} {e : Edit} {answer : Anyhow (Option Ipv4Addr)}
    {file' : FileConfig} (h : Represents init file m) (managed : init.tun = TunSection.default)
    (distinct : m.Distinct) (edited : edit env file e = some (answer, file')) :
    ∃ m', Registry.Step env m e answer.toOption m' ∧ Represents init file' m' := by
  cases e with
  | add name addr serverPubkey =>
    by_cases admits : Registry.Admits env m name addr serverPubkey
    · obtain ⟨fresh, ⟨parsedAddr, parses⟩, -, room⟩ := id admits
      obtain ⟨vip, lowest⟩ := (h.room_iff distinct).mpr room
      have least := h.lowest_iff.mp lowest
      obtain ⟨tun, adds⟩ := (h.adds_iff managed distinct).mpr ⟨admits, parses, least⟩
      rw [edit_added adds] at edited
      cases edited
      exact ⟨_, .added admits parses least, h.insert fresh⟩
    · cases edit_spec edited with
      | failed _ failure => exact ⟨m, .addRefused admits, h⟩
      | added adds => exact absurd ((h.adds_iff managed distinct).mp ⟨_, adds⟩).1 admits
  | remove name =>
    by_cases present : name ∈ m
    · rw [edit_removed (h.named.mpr present)] at edited
      cases edited
      exact ⟨_, .removed present, h.erase name⟩
    · cases edit_spec edited with
      | failed _ failure => exact ⟨m, .removeRefused present, h⟩
      | removed found => exact absurd (h.named.mp found) present

end Represents

/-- The file goes through the states of the map. -/
theorem runs_refine {env : Environment} {init file : FileConfig} {tr : Edits}
    (managed : init.tun = TunSection.default) (empty : init.server = [])
    (run : Run (edit env) init tr file) :
    ∃ m, Registry.Runs env (tr.map fun e => (e.1, e.2.toOption)) m ∧
      Represents init file m ∧ m.Distinct := by
  induction run with
  | nil =>
    refine ⟨∅, .nil, ⟨?_, ?_⟩, ⟨?_, ?_⟩⟩
    · rw [← empty]
    · rw [empty]
      exact .nil
    · intro n e present
      cases present
    · intro n n' e e' present
      cases present
  | snoc _ edited ih =>
    obtain ⟨m, runs, h, distinct⟩ := ih
    obtain ⟨m', next, h'⟩ := h.step managed distinct edited
    refine ⟨m', ?_, h', distinct.step next⟩
    rw [List.map_append]
    exact .snoc runs next

/-- The last successful addition of the name answered with the address, and
no later removal of it succeeded. -/
def Returned (tr : List (Edit × Option (Option Ipv4Addr))) (name : String) (ip : Ipv4Addr) : Prop :=
  ∃ before addr serverPubkey after,
    tr = before ++ (.add name addr serverPubkey, some (some ip)) :: after ∧
      (.remove name, some none) ∉ after

theorem returned_snoc {tr : List (Edit × Option (Option Ipv4Addr))}
    {e : Edit × Option (Option Ipv4Addr)} {name : String} {ip : Ipv4Addr} :
    Returned (tr ++ [e]) name ip ↔
      (∃ addr serverPubkey, e = (.add name addr serverPubkey, some (some ip))) ∨
        Returned tr name ip ∧ e ≠ (.remove name, some none) := by
  constructor
  · rintro ⟨before, addr, serverPubkey, after, split, kept⟩
    rcases List.eq_nil_or_concat after with rfl | ⟨after, last, rfl⟩
    · obtain ⟨-, same⟩ := List.append_inj' split rfl
      exact .inl ⟨addr, serverPubkey, List.singleton_inj.mp same⟩
    · rw [List.concat_eq_append, ← List.cons_append, ← List.append_assoc] at split
      obtain ⟨rfl, same⟩ := List.append_inj' split rfl
      obtain rfl := List.singleton_inj.mp same
      rw [List.concat_eq_append, List.mem_append, List.mem_singleton, not_or] at kept
      exact .inr ⟨⟨before, addr, serverPubkey, after, rfl, kept.1⟩, Ne.symm kept.2⟩
  · rintro (⟨addr, serverPubkey, rfl⟩ | ⟨⟨before, addr, serverPubkey, after, rfl, kept⟩, other⟩)
    · exact ⟨tr, addr, serverPubkey, [], rfl, List.not_mem_nil⟩
    · refine ⟨before, addr, serverPubkey, after ++ [e], by simp, ?_⟩
      rw [List.mem_append, List.mem_singleton, not_or]
      exact ⟨kept, Ne.symm other⟩

/-- The addresses in the map are the ones that the commands returned. -/
theorem Registry.Runs.returned {env : Environment} {tr : List (Edit × Option (Option Ipv4Addr))}
    {m : Registry} (runs : Runs env tr m) (n : String) (ip : Ipv4Addr) :
    (∃ e, m.lookup n = some e ∧ e.virtualIp = ip) ↔ Returned tr n ip := by
  induction runs with
  | nil =>
    constructor
    · rintro ⟨e, found, -⟩
      cases found
    · rintro ⟨before, _, _, after, split, -⟩
      simp at split
  | @snoc tr m e a m' _ step ih =>
    rw [returned_snoc, ← ih]
    cases step with
    | addRefused _ => simp
    | removeRefused _ => simp
    | @added name addr serverPubkey parsedAddr vip admits =>
      by_cases same : n = name
      · subst same
        have absent : m.lookup n = none := AList.lookup_eq_none.mpr admits.1
        simp [absent]
      · simp [AList.lookup_insert_ne same, Ne.symm same]
    | @removed name present =>
      by_cases same : n = name
      · subst same
        simp
      · simp [AList.lookup_erase_ne same, Ne.symm same]

end HyperionVpn.Client
