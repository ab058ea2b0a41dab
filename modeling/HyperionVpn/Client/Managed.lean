import HyperionVpn.Client.Registry

/-! What `load` and `summarize` make of a file that only the commands have
edited. -/
namespace HyperionVpn.Client
open Net FirstFit Machine

namespace Represents

variable {env : Environment} {init file : FileConfig} {m : Registry}

theorem explicit (h : Represents init file m) (distinct : m.Distinct) : Explicit file.server := by
  constructor
  · intro s present
    obtain ⟨n, e, -, rfl⟩ := h.member.mp present
    exact addedSection_parses
  · exact h.wished.nodup_iff.mpr distinct.addresses_nodup

/-- Every section resolves to its own address. -/
theorem resolved (h : Represents init file m) (distinct : m.Distinct) :
    ∃ ips, resolveVirtualIps managedTun file.server = .ok ips ∧
      ∀ z, z ∈ file.server.zip ips ↔ ∃ n e, m.lookup n = some e ∧
        z = (addedSection n e.addr e.serverPubkey e.virtualIp, e.virtualIp) := by
  have none_absent : absent file.server = 0 := by
    rw [absent, List.countP_eq_zero]
    intro s present
    obtain ⟨n, e, -, rfl⟩ := h.member.mp present
    simp [addedSection]
  obtain ⟨ips, ok⟩ : ∃ ips, resolveVirtualIps managedTun file.server = .ok ips :=
    resolves_iff.mpr ⟨h.explicit distinct, none_absent.trans_le (Nat.zero_le _)⟩
  obtain ⟨-, size, served⟩ := served_of_ok ok
  have own {n : String} {e : Entry} {ip : Ipv4Addr}
      (paired : (addedSection n e.addr e.serverPubkey e.virtualIp, ip) ∈ file.server.zip ips) :
      ip = e.virtualIp := by
    apply served.honored _ paired
    simp [wish, addedSection, Ipv4Addr.parse_display]
  refine ⟨ips, ok, ?_⟩
  rintro ⟨s, ip⟩
  constructor
  · intro paired
    obtain ⟨n, e, found, rfl⟩ := h.member.mp (List.of_mem_zip paired).1
    exact ⟨n, e, found, by rw [own paired]⟩
  · rintro ⟨n, e, found, same⟩
    obtain ⟨rfl, rfl⟩ := Prod.mk.inj same
    have present := h.member.mpr ⟨n, e, found, rfl⟩
    have sections : (file.server.zip ips).map Prod.fst = file.server := List.map_fst_zip size.ge
    rw [← sections] at present
    obtain ⟨⟨s, ip⟩, paired, rfl⟩ := List.mem_map.mp present
    have address : ip = e.virtualIp := own paired
    subst address
    exact paired

theorem summarized (h : Represents init file m) (managed : init.tun = TunSection.default)
    (distinct : m.Distinct) : ∃ summary, summarize file = .ok summary ∧
      ∀ n ip, (∃ s ∈ summary.servers, s.name = n ∧ s.virtualIp = ip) ↔
        ∃ e, m.lookup n = some e ∧ e.virtualIp = ip := by
  obtain ⟨ips, ok, pairs⟩ := h.resolved distinct
  obtain ⟨summary, summarizes, servers⟩ : ∃ summary, summarize file = .ok summary ∧
      summary.servers = (file.server.zip ips).map fun z => ⟨z.1.name, z.1.addr, z.2⟩ := by
    rw [summarize, h.tun managed]
    dsimp only [bind, Except.bind]
    rw [ok]
    exact ⟨_, rfl, rfl⟩
  refine ⟨summary, summarizes, ?_⟩
  intro n ip
  simp only [servers, List.mem_map]
  constructor
  · rintro ⟨_, ⟨z, paired, rfl⟩, rfl, rfl⟩
    obtain ⟨n, e, found, rfl⟩ := (pairs z).mp paired
    exact ⟨e, found, rfl⟩
  · rintro ⟨e, found, rfl⟩
    exact ⟨_, ⟨_, (pairs _).mpr ⟨n, e, found, rfl⟩, rfl⟩, rfl, rfl⟩

theorem loaded (h : Represents init file m) (managed : init.tun = TunSection.default)
    (distinct : m.Distinct) {client : LoadedClient} (ok : load env file = .ok client)
    (n : String) (ip : Ipv4Addr) :
    (∃ e, client.servers.lookup n = some e ∧ e.virtualIp = ip) ↔
      ∃ e, m.lookup n = some e ∧ e.virtualIp = ip := by
  obtain ⟨admin, psk, tun, ips, loads⟩ := load_eq_ok.mp ok
  obtain ⟨ips', ok', pairs⟩ := h.resolved distinct
  cases loads.tun_ok.symm.trans (h.tun managed)
  cases loads.ips_ok.symm.trans ok'
  simp only [loads.lookup]
  constructor
  · rintro ⟨e, ⟨z, paired, rfl, -, address⟩, rfl⟩
    obtain ⟨n, e', found, rfl⟩ := (pairs z).mp paired
    exact ⟨e', found, address.symm⟩
  · rintro ⟨e, found, rfl⟩
    have paired := (pairs _).mpr ⟨n, e, found, rfl⟩
    obtain ⟨a, loadsAs⟩ := loads.loadsAs (List.of_mem_zip paired).1
    exact ⟨⟨a.1, e.virtualIp, a.2.1, a.2.2⟩, ⟨_, paired, rfl, loadsAs, rfl⟩, rfl⟩

end Represents

/-- The keys were checked when their servers were added. -/
def Registry.Decodes (env : Environment) (m : Registry) : Prop :=
  ∀ n e, m.lookup n = some e → ∃ key, PublicKey.fromBase64 env.library e.serverPubkey = .ok key

theorem Registry.Runs.decodes {env : Environment} {tr : List (Edit × Option (Option Ipv4Addr))}
    {m : Registry} (runs : Runs env tr m) : m.Decodes env := by
  induction runs with
  | nil =>
    intro n e found
    cases found
  | @snoc _ m _ _ _ _ step ih =>
    cases step with
    | addRefused _ => exact ih
    | removeRefused _ => exact ih
    | @added name _ _ _ _ admits =>
      intro n e found
      by_cases same : n = name
      · subst same
        rw [AList.lookup_insert] at found
        cases found
        exact admits.2.2.1
      · rw [AList.lookup_insert_ne same] at found
        exact ih n e found
    | @removed name _ =>
      intro n e found
      by_cases same : n = name
      · subst same
        rw [AList.lookup_erase] at found
        cases found
      · rw [AList.lookup_erase_ne same] at found
        exact ih n e found

theorem Represents.readAdminKey_eq {env : Environment} {init file : FileConfig} {m : Registry}
    (h : Represents init file m) : readAdminKey env file = readAdminKey env init := by
  rw [← h.rest]
  rfl

theorem Represents.readDefaultPsk_eq {env : Environment} {init file : FileConfig} {m : Registry}
    (h : Represents init file m) : readDefaultPsk env file = readDefaultPsk env init := by
  rw [← h.rest]
  rfl

/-- Loading such a file fails only over the admin key and the shared key. -/
theorem Represents.loads_iff {env : Environment} {keyPath saltKey : String} {file : FileConfig}
    {m : Registry} (h : Represents (initConfig keyPath saltKey) file m) (distinct : m.Distinct)
    (decodes : m.Decodes env) : (∃ client, load env file = .ok client) ↔
      (∃ admin, readAdminKey env (initConfig keyPath saltKey) = .ok admin) ∧
        ∃ psk, readDefaultPsk env (initConfig keyPath saltKey) = .ok psk := by
  have none_forwarded : file.forward = [] := congrArg FileConfig.forward h.rest
  rw [← h.readAdminKey_eq, ← h.readDefaultPsk_eq]
  constructor
  · rintro ⟨client, ok⟩
    obtain ⟨admin, psk, tun, ips, loads⟩ := load_eq_ok.mp ok
    exact ⟨⟨admin, loads.admin_ok⟩, psk, loads.default_ok⟩
  · rintro ⟨⟨admin, adminOk⟩, psk, pskOk⟩
    obtain ⟨ips, ok, pairs⟩ := h.resolved distinct
    obtain ⟨shared, rfl⟩ : ∃ shared, psk = some shared := by
      rw [h.readDefaultPsk_eq] at pskOk
      obtain ⟨shared, -, same⟩ := bind_eq_ok.mp pskOk
      cases same
      exact ⟨shared, rfl⟩
    have sections : (file.server.zip ips).map Prod.fst = file.server :=
      List.map_fst_zip (served_of_ok ok).2.1.ge
    obtain ⟨servers, serversOk⟩ : ∃ servers, loadServers env file admin (some shared) ∅
        (file.server.zip ips) = .ok servers := by
      apply loadServers_exists
      · have names := h.names_nodup
        rw [← sections, List.map_map] at names
        exact names
      · intro z _
        exact AList.notMem_empty _
      · intro z paired
        obtain ⟨n, e, found, rfl⟩ := (pairs z).mp paired
        obtain ⟨key, decoded⟩ := decodes n e found
        exact ⟨_, e.addr, key, shared, SocketAddr.parse_display _, decoded, rfl, rfl⟩
    refine ⟨⟨servers, [], managedTun⟩, load_eq_ok.mpr ⟨admin, some shared, managedTun, ips,
      adminOk, pskOk, h.tun rfl, ok, serversOk, ?_, rfl⟩⟩
    rw [none_forwarded]
    rfl

/-- From a new file on, the file is at every point a finite map from names to
servers, which the commands look up, extend and shrink, and whose addresses
`load` and `summarize` resolve. -/
theorem config_refines_map (env : Environment) (keyPath saltKey : String) (file : FileConfig)
    (tr : Edits) (run : Run (edit env) (initConfig keyPath saltKey) tr file) :
    (∃ m, Registry.Runs env (tr.map fun e => (e.1, e.2.toOption)) m ∧
      Represents (initConfig keyPath saltKey) file m ∧ m.Distinct) ∧
    (file.server.map (·.name)).Nodup ∧
    (∀ e failure file', edit env file e = some (.error failure, file') → file' = file) ∧
    (∃ summary, summarize file = .ok summary ∧ ∀ n ip,
      (∃ s ∈ summary.servers, s.name = n ∧ s.virtualIp = ip) ↔
        Returned (tr.map fun e => (e.1, e.2.toOption)) n ip) ∧
    ((∃ client, load env file = .ok client) ↔
      (∃ admin, readAdminKey env (initConfig keyPath saltKey) = .ok admin) ∧
        ∃ psk, readDefaultPsk env (initConfig keyPath saltKey) = .ok psk) ∧
    ∀ client, load env file = .ok client → ∀ n ip,
      (∃ e, client.servers.lookup n = some e ∧ e.virtualIp = ip) ↔
        Returned (tr.map fun e => (e.1, e.2.toOption)) n ip := by
  obtain ⟨m, runs, h, distinct⟩ := runs_refine rfl rfl run
  refine ⟨⟨m, runs, h, distinct⟩, h.names_nodup, ?_, ?_, h.loads_iff distinct runs.decodes, ?_⟩
  · intro e failure file' edited
    cases edit_spec edited
    rfl
  · simp only [← runs.returned]
    exact h.summarized rfl distinct
  · intro client ok n ip
    rw [← runs.returned]
    exact h.loaded rfl distinct ok n ip

/-- Two servers are added and the first is removed. -/
theorem config_refines_map_sample : ∃ tr file,
    Run (edit sampleEnvironment) sampleFile tr file ∧
    tr.map Prod.fst = [.add "a" "192.0.2.1" sampleKeyText, sampleAdd, .remove "a"] ∧
    ∃ m, Registry.Runs sampleEnvironment (tr.map fun e => (e.1, e.2.toOption)) m ∧
      Represents sampleFile file m ∧ m.Distinct := by
  obtain ⟨⟨tr, file⟩, h⟩ : ∃ result, exec (edit sampleEnvironment) sampleFile
      [.add "a" "192.0.2.1" sampleKeyText, sampleAdd, .remove "a"] = some result := ⟨_, rfl⟩
  obtain ⟨run, inputs⟩ := exec_run h
  exact ⟨tr, file, run, inputs, (config_refines_map _ _ _ _ _ run).1⟩

end HyperionVpn.Client
