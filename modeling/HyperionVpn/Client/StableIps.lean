import HyperionVpn.Client.Editing

/-! Whether the virtual addresses stay what they were while the file is edited.
Those of sections without an explicit one depend on all other sections. -/
namespace HyperionVpn.Client
open Net FirstFit Machine

/-- The addresses that `load` and `summarize` resolve. -/
def FileConfig.virtualIps (file : FileConfig) : Anyhow (List Ipv4Addr) := do
  let tun ← parseTun file.tun
  resolveVirtualIps tun file.server

/-- If the command succeeds, the servers present before and after it resolve to
the same addresses, and a new one to another. -/
def Stable (env : Environment) (file : FileConfig) (e : Edit) : Prop :=
  ∀ answer file', edit env file e = some (.ok answer, file') →
    ∃ ips ips', file.virtualIps = .ok ips ∧ file'.virtualIps = .ok ips' ∧
      match e with
      | .add _ _ _ => ∃ vip, answer = some vip ∧ vip ∉ ips ∧ ips' = ips ++ [vip]
      | .remove name => ips' = ((file.server.zip ips).filter fun z => z.1.name ≠ name).map Prod.snd

/-- If the command succeeds: a server is added only where every section has an
explicit address, and one is removed only if it holds no address of the pool
below one of a remaining section without an explicit address. -/
def LeavesPool (env : Environment) (file : FileConfig) (e : Edit) : Prop :=
  ∀ answer file', edit env file e = some (.ok answer, file') →
    match e with
    | .add _ _ _ => ∀ s ∈ file.server, s.virtualIp ≠ none
    | .remove name => ∀ tun ips, parseTun file.tun = .ok tun → file.virtualIps = .ok ips →
      ∀ z ∈ file.server.zip ips, z.1.name ≠ name → z.1.virtualIp = none →
        ∀ y ∈ file.server.zip ips, y.1.name = name → y.2 ∈ tun.hosts → ¬ y.2 < z.2

theorem virtualIps_eq_ok {file : FileConfig} {ips : List Ipv4Addr} : file.virtualIps = .ok ips ↔
    ∃ tun, parseTun file.tun = .ok tun ∧ resolveVirtualIps tun file.server = .ok ips := by
  simp only [FileConfig.virtualIps, bind_eq_ok]

theorem wishes_snoc {servers : List ServerSection} {name serverPubkey : String} {addr : SocketAddr}
    {vip : Ipv4Addr} : wishes wish (servers ++ [addedSection name addr serverPubkey vip]) =
      wishes wish servers ++ [vip] := by
  simp [wishes, wish, addedSection, Ipv4Addr.parse_display]

theorem addedSection_parses {name serverPubkey : String} {addr : SocketAddr} {vip : Ipv4Addr} :
    Parses (addedSection name addr serverPubkey vip) := by
  rintro _ ⟨⟩
  exact ⟨vip, vip.parse_display⟩

/-- The explicit addresses stay in order when the first free one joins them. -/
theorem Explicit.snoc {tun : TunConfig} {servers : List ServerSection}
    {name serverPubkey : String} {addr : SocketAddr} {vip : Ipv4Addr} (explicit : Explicit servers)
    (lowest : firstFree tun.hosts (explicitIps servers) = some vip) :
    Explicit (servers ++ [addedSection name addr serverPubkey vip]) := by
  obtain ⟨others, head⟩ := firstFree_eq_some.mp lowest
  have free : vip ∈ free tun.hosts (explicitIps servers) := by
    rw [head]
    exact List.mem_cons_self
  have fresh : vip ∉ wishes wish servers := by
    intro member
    exact (mem_free.mp free).2 (List.mem_toFinset.mpr member)
  constructor
  · intro s member
    rcases List.mem_append.mp member with old | new
    · exact explicit.parses s old
    · rw [List.mem_singleton.mp new]
      exact addedSection_parses
  · rw [wishes_snoc, List.nodup_append]
    refine ⟨explicit.distinct, List.nodup_singleton vip, ?_⟩
    rintro ip member other new rfl
    rw [List.mem_singleton.mp new] at member
    exact fresh member

theorem explicitIps_snoc {servers : List ServerSection} {name serverPubkey : String}
    {addr : SocketAddr} {vip : Ipv4Addr} :
    explicitIps (servers ++ [addedSection name addr serverPubkey vip]) =
      insert vip (explicitIps servers) := by
  rw [explicitIps_eq, explicitIps_eq, wishes_snoc, List.toFinset_append]
  ext ip
  simp

/-- The new section gets its address; the others keep theirs exactly if all of
them have explicit ones. -/
theorem resolve_added_iff {tun : TunConfig} {servers : List ServerSection} {ips : List Ipv4Addr}
    {vip : Ipv4Addr} (name serverPubkey : String) (addr : SocketAddr)
    (ok : resolveVirtualIps tun servers = .ok ips)
    (lowest : firstFree tun.hosts (explicitIps servers) = some vip) :
    resolveVirtualIps tun (servers ++ [addedSection name addr serverPubkey vip]) =
      .ok (ips ++ [vip]) ↔ ∀ s ∈ servers, s.virtualIp ≠ none := by
  obtain ⟨explicit, size, served⟩ := served_of_ok ok
  have wanted : wish (addedSection name addr serverPubkey vip) = some vip := by
    simp [wish, addedSection, Ipv4Addr.parse_display]
  rw [resolveVirtualIps_eq_ok, serve_eq_some_iff (hosts_nodup tun), explicitIps_snoc,
    List.zip_append size.symm, List.zip_cons_cons, List.zip_nil_left,
    served.snoc_iff (hosts_nodup tun) lowest wanted]
  have sections : (servers.zip ips).map Prod.fst = servers := List.map_fst_zip size.ge
  constructor
  · rintro ⟨-, -, all⟩ s member
    rw [← sections] at member
    obtain ⟨z, inside, rfl⟩ := List.mem_map.mp member
    have plain := all z inside
    rwa [ne_eq, wish_eq_none (explicit.parses _ (sections ▸ List.mem_map_of_mem inside))] at plain
  · intro all
    refine ⟨explicit.snoc lowest, by simp [size], ?_⟩
    intro z inside
    have member : z.1 ∈ servers := sections ▸ List.mem_map_of_mem inside
    rw [ne_eq, wish_eq_none (explicit.parses _ member)]
    exact all _ member

/-- The remaining sections keep their addresses exactly if none of the pool
below one of theirs without an explicit address has become free. -/
theorem resolve_removed_iff {tun : TunConfig} {servers : List ServerSection} {ips : List Ipv4Addr}
    {name : String} (ok : resolveVirtualIps tun servers = .ok ips) :
    resolveVirtualIps tun (servers.filter (·.name ≠ name)) =
        .ok (((servers.zip ips).filter fun z => z.1.name ≠ name).map Prod.snd) ↔
      ∀ z ∈ servers.zip ips, z.1.name ≠ name → z.1.virtualIp = none →
        ∀ y ∈ servers.zip ips, y.1.name = name → y.2 ∈ tun.hosts → ¬ y.2 < z.2 := by
  obtain ⟨explicit, size, served⟩ := served_of_ok ok
  have sections : (servers.zip ips).map Prod.fst = servers := List.map_fst_zip size.ge
  generalize same : servers.zip ips = zs at sections served ⊢
  have kept : servers.filter (·.name ≠ name) =
      (zs.filter fun z => z.1.name ≠ name).map Prod.fst := by
    rw [← sections, List.filter_map]
    rfl
  have parses : ∀ z ∈ zs, Parses z.1 := by
    intro z member
    rw [← sections] at explicit
    exact explicit.parses _ (List.mem_map_of_mem member)
  have remaining : Explicit (servers.filter (·.name ≠ name)) :=
    ⟨fun s member => explicit.parses s (List.mem_filter.mp member).1,
      explicit.distinct.sublist (List.filter_sublist.filterMap _)⟩
  have whole : Served wish tun.hosts (wishes wish (zs.map Prod.fst)).toFinset zs := by
    rw [sections]
    exact served
  have distinct : (wishes wish (zs.map Prod.fst)).Nodup := by
    rw [sections]
    exact explicit.distinct
  have left := whole.filter_iff tun.hosts_sorted distinct fun s => decide (s.name ≠ name)
  have zipped : (servers.filter (·.name ≠ name)).zip
      ((zs.filter fun z => z.1.name ≠ name).map Prod.snd) = zs.filter fun z => z.1.name ≠ name :=
    (List.zip_of_prod kept.symm rfl).symm
  rw [resolveVirtualIps_eq_ok, serve_eq_some_iff (hosts_nodup tun), zipped, explicitIps_eq, kept,
    List.length_map, List.length_map, left]
  constructor
  · rintro ⟨-, -, above⟩ z member stays plain y gone leaves
    apply above z member (by simpa using stays) ((wish_eq_none (parses z member)).mpr plain)
      y gone
    simpa using leaves
  · intro above
    refine ⟨kept ▸ remaining, rfl, ?_⟩
    intro z member stays plain y gone leaves
    apply above z member (by simpa using stays) ((wish_eq_none (parses z member)).mp plain) y gone
    simpa using leaves

/-- A step from a file that resolves is stable exactly if it leaves the pool
alone, and then the new file resolves too. -/
theorem stable_iff {env : Environment} {file : FileConfig} {ips : List Ipv4Addr}
    (ok : file.virtualIps = .ok ips) (e : Edit) : Stable env file e ↔ LeavesPool env file e := by
  obtain ⟨tun, tunParses, resolved⟩ := virtualIps_eq_ok.mp ok
  have added {name addr serverPubkey parsedAddr tun' vip}
      (adds : Adds env file name addr serverPubkey parsedAddr tun' vip) :
      firstFree tun.hosts (explicitIps file.server) = some vip := by
    cases tunParses.symm.trans adds.tun_parses
    exact adds.lowest
  have resolves' {server : List ServerSection} {ips' : List Ipv4Addr} :
      FileConfig.virtualIps { file with server } = .ok ips' ↔
        resolveVirtualIps tun server = .ok ips' := by
    simp only [FileConfig.virtualIps, tunParses]
    rfl
  constructor
  · intro stable answer file' h
    obtain ⟨old, new, before, after, same⟩ := stable answer file' h
    cases ok.symm.trans before
    cases edit_spec h with
    | added adds =>
      obtain ⟨vip, ⟨⟩, -, rfl⟩ := same
      exact (resolve_added_iff _ _ _ resolved (added adds)).mp (resolves'.mp after)
    | removed present =>
      intro tun' ips' parses resolves
      cases tunParses.symm.trans parses
      cases ok.symm.trans resolves
      obtain rfl := same
      exact (resolve_removed_iff resolved).mp (resolves'.mp after)
  · intro leaves answer file' h
    have safe := leaves answer file' h
    cases edit_spec h with
    | @added name _ serverPubkey parsedAddr _ vip adds =>
      have after :=
        (resolve_added_iff name serverPubkey parsedAddr resolved (added adds)).mpr safe
      refine ⟨ips, _, ok, resolves'.mpr after, _, rfl, ?_, rfl⟩
      have nodup := (resolves after).nodup
      intro member
      exact (List.nodup_append.mp nodup).2.2 _ member _ List.mem_cons_self rfl
    | removed present =>
      have after := (resolve_removed_iff resolved).mpr (safe tun ips tunParses ok)
      exact ⟨ips, _, ok, resolves'.mpr after, rfl⟩

/-- Over any history of commands, every step keeps the addresses exactly if
every step leaves the pool alone. -/
theorem addresses_stable_iff (env : Environment) (init file : FileConfig) (tr : Edits)
    (run : Run (edit env) init tr file) (ok : ∃ ips, init.virtualIps = .ok ips) :
    Always (edit env) init (Stable env) tr ↔ Always (edit env) init (LeavesPool env) tr := by
  apply run.always_congr (P := fun file => ∃ ips, file.virtualIps = .ok ips) ok
  · rintro m e ⟨ips, resolved⟩
    exact stable_iff resolved e
  · rintro m e answer m' resolved stable h
    cases answer with
    | ok vip =>
      obtain ⟨-, ips', -, after, -⟩ := stable vip m' h
      exact ⟨ips', after⟩
    | error failure =>
      cases edit_spec h
      exact resolved

/-- Where every address is explicit, the edits keep it so, and leave the pool alone. -/
theorem explicit_edit {env : Environment} {file file' : FileConfig} {e : Edit}
    {answer : Anyhow (Option Ipv4Addr)} (explicit : ∀ s ∈ file.server, s.virtualIp ≠ none)
    (edited : edit env file e = some (answer, file')) : ∀ s ∈ file'.server, s.virtualIp ≠ none := by
  cases answer with
  | error failure =>
    cases edit_spec edited
    exact explicit
  | ok vip =>
    intro s member
    cases edit_spec edited with
    | added adds =>
      rcases List.mem_append.mp member with old | new
      · exact explicit s old
      · rw [List.mem_singleton.mp new]
        simp [addedSection]
    | removed present => exact explicit s (List.mem_of_mem_filter member)

theorem leavesPool_of_explicit {env : Environment} {file : FileConfig} (e : Edit)
    (explicit : ∀ s ∈ file.server, s.virtualIp ≠ none) : LeavesPool env file e := by
  intro answer file' _
  cases e with
  | add name addr serverPubkey => exact explicit
  | remove name =>
    intro tun ips _ _ z paired _ implicit
    exact absurd implicit (explicit z.1 (List.of_mem_zip paired).1)

/-- A file whose servers have explicit addresses. -/
def sampleExplicit : FileConfig :=
  { sampleFile with server :=
    [⟨"a", "192.0.2.1:8443", sampleKeyText, some "10.99.0.10", none, none, none⟩,
      ⟨"c", "192.0.2.3:8443", sampleKeyText, some "10.99.0.20", none, none, none⟩] }

/-- A server is added between them, and the first one is removed. -/
theorem addresses_stable_iff_sample : ∃ tr file,
    Run (edit sampleEnvironment) sampleExplicit tr file ∧
    tr.map Prod.fst = [sampleAdd, .remove "a"] ∧
    tr.map Prod.snd = [.ok (some ⟨10, 99, 0, 11⟩), .ok none] ∧
    Always (edit sampleEnvironment) sampleExplicit (Stable sampleEnvironment) tr := by
  have answers : (exec (edit sampleEnvironment) sampleExplicit [sampleAdd, .remove "a"]).map
      (fun result => result.1.map Prod.snd) = some [.ok (some ⟨10, 99, 0, 11⟩), .ok none] := by
    decide +kernel
  obtain ⟨⟨tr, file⟩, executed, answers⟩ := Option.map_eq_some_iff.mp answers
  obtain ⟨run, inputs⟩ := exec_run executed
  have resolved : sampleExplicit.virtualIps = .ok [⟨10, 99, 0, 10⟩, ⟨10, 99, 0, 20⟩] := by
    decide +kernel
  refine ⟨tr, file, run, inputs, answers, ?_⟩
  rw [addresses_stable_iff _ _ _ _ run ⟨_, resolved⟩]
  intro before e answer after m _ left
  apply leavesPool_of_explicit
  apply left.invariant (P := fun file => ∀ s ∈ file.server, s.virtualIp ≠ none)
  · simp [sampleExplicit]
  · exact explicit_edit

/-- A file with a server that has no explicit address. -/
def sampleImplicit : FileConfig :=
  { sampleFile with server := [⟨"a", "192.0.2.1:8443", sampleKeyText, none, none, none, none⟩] }

theorem added_server_takes_address : ¬ ∀ (env : Environment) (init file : FileConfig) (tr : Edits),
    Run (edit env) init tr file → (∃ ips, init.virtualIps = .ok ips) →
    Always (edit env) init (Stable env) tr := by
  intro claim
  have added : (edit sampleEnvironment sampleImplicit sampleAdd).map Prod.fst =
      some (.ok (some ⟨10, 99, 0, 10⟩)) := by decide +kernel
  have resolved : sampleImplicit.virtualIps = .ok [⟨10, 99, 0, 10⟩] := by decide +kernel
  obtain ⟨⟨answer, file⟩, h, rfl⟩ := Option.map_eq_some_iff.mp added
  have stable := claim _ _ _ _ (Run.single h) ⟨_, resolved⟩ [] sampleAdd _ [] _ rfl .nil
  obtain ⟨ips, -, before, -, vip, ⟨⟩, fresh, -⟩ := stable _ _ h
  cases resolved.symm.trans before
  exact fresh List.mem_cons_self

end HyperionVpn.Client
