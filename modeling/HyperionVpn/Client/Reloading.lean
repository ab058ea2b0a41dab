import HyperionVpn.Client.Loading
import HyperionVpn.Client.StableIps

/-! Whether a file that loads still loads after a successful command. -/
namespace HyperionVpn.Client
open Net FirstFit

/-- If the command succeeds, the new file loads: with the new server at the
returned address beside the old ones, or with exactly the remaining ones. The
old ones are the same apart from their virtual addresses. -/
def Reloads (env : Environment) (file : FileConfig) (client : LoadedClient) (e : Edit) : Prop :=
  ∀ answer file', edit env file e = some (.ok answer, file') →
    ∃ client', load env file' = .ok client' ∧
      match e with
      | .add name _ _ => name ∉ client.servers ∧
        (∃ entry, client'.servers.lookup name = some entry ∧ some entry.virtualIp = answer) ∧
        ∀ n, n ≠ name → (client'.servers.lookup n).map ServerEntry.apart =
          (client.servers.lookup n).map ServerEntry.apart
      | .remove name => name ∈ client.servers ∧ name ∉ client'.servers ∧
        ∀ n, n ≠ name → (client'.servers.lookup n).map ServerEntry.apart =
          (client.servers.lookup n).map ServerEntry.apart

/-- If the command succeeds: there is a global key for a new server, and an
address for it beyond those that the sections without one take; no forward
names a removed server. -/
def KeepsReferences (env : Environment) (file : FileConfig) (e : Edit) : Prop :=
  ∀ answer file', edit env file e = some (.ok answer, file') →
    match e with
    | .add _ _ _ => file.key ≠ none ∧
      ∀ tun, parseTun file.tun = .ok tun → absent file.server < (pool tun file.server).length
    | .remove name => ∀ f ∈ file.forward, f.server ≠ name

variable {env : Environment} {file : FileConfig} {admin : SecretKey} {defaultPsk : Option Psk}
  {tun : TunConfig} {ips : List Ipv4Addr} {client : LoadedClient}

theorem default_isSome (ok : readDefaultPsk env file = .ok defaultPsk) :
    defaultPsk ≠ none ↔ file.key ≠ none := by
  unfold readDefaultPsk at ok
  cases key : file.key with
  | none =>
    rw [key] at ok
    cases ok
    simp
  | some k =>
    rw [key] at ok
    obtain ⟨psk, -, ⟨⟩⟩ := bind_eq_ok.mp ok
    simp

/-- A section that `add_server` wrote loads if there is a global key. -/
theorem addedSection_loadsAs {name addr serverPubkey : String} {parsedAddr : SocketAddr}
    {vip : Ipv4Addr} (adds : Adds env file name addr serverPubkey parsedAddr tun vip) :
    (∃ a, LoadsAs env file admin defaultPsk (addedSection name parsedAddr serverPubkey vip) a) ↔
      defaultPsk ≠ none := by
  obtain ⟨key, decodes⟩ := adds.key_decodes
  constructor
  · rintro ⟨a, -, -, psk, -, -, resolved, -⟩ rfl
    cases resolved
  · intro given
    obtain ⟨psk, rfl⟩ := Option.ne_none_iff_exists'.mp given
    exact ⟨_, parsedAddr, key, psk, parsedAddr.parse_display, decodes, rfl, rfl⟩

theorem absent_snoc {servers : List ServerSection} {name serverPubkey : String}
    {addr : SocketAddr} {vip : Ipv4Addr} :
    absent (servers ++ [addedSection name addr serverPubkey vip]) = absent servers := by
  simp [absent, addedSection]

/-- The new section takes one address from the pool. -/
theorem pool_snoc_length {servers : List ServerSection} {vip : Ipv4Addr}
    (name serverPubkey : String) (addr : SocketAddr)
    (lowest : firstFree tun.hosts (explicitIps servers) = some vip) :
    (pool tun (servers ++ [addedSection name addr serverPubkey vip])).length + 1 =
      (pool tun servers).length := by
  obtain ⟨others, head⟩ := firstFree_eq_some.mp lowest
  rw [pool, pool, explicitIps_snoc, free_insert_head (hosts_nodup tun) head, head,
    List.length_cons]

/-- Nothing but the sections differs between two files that an edit relates. -/
theorem Loads.of_edited {server : List ServerSection} {client' : LoadedClient}
    (h : Loads env file admin defaultPsk tun ips client)
    (ok : load env { file with server } = .ok client') :
    ∃ ips', Loads env { file with server } admin defaultPsk tun ips' client' := by
  obtain ⟨admin', defaultPsk', tun', ips', h'⟩ := load_eq_ok.mp ok
  cases h.admin_ok.symm.trans h'.admin_ok
  cases h.default_ok.symm.trans h'.default_ok
  cases h.tun_ok.symm.trans h'.tun_ok
  exact ⟨ips', h'⟩

/-- Servers that are named in the same sections are loaded alike. -/
theorem Loads.lookup_edited {server : List ServerSection} {ips' : List Ipv4Addr}
    {client' : LoadedClient} (h : Loads env file admin defaultPsk tun ips client)
    (h' : Loads env { file with server } admin defaultPsk tun ips' client') {n : String}
    (same : ∀ s : ServerSection, s.name = n → (s ∈ server ↔ s ∈ file.server)) :
    (client'.servers.lookup n).map ServerEntry.apart =
      (client.servers.lookup n).map ServerEntry.apart := by
  ext a
  rw [h'.lookup_apart, h.lookup_apart]
  constructor
  · rintro ⟨s, member, named, loads⟩
    exact ⟨s, (same s named).mp member, named, loads⟩
  · rintro ⟨s, member, named, loads⟩
    exact ⟨s, (same s named).mpr member, named, loads⟩

theorem reloads_add_iff {name addr serverPubkey : String} {parsedAddr : SocketAddr}
    {vip : Ipv4Addr} (h : Loads env file admin defaultPsk tun ips client)
    (adds : Adds env file name addr serverPubkey parsedAddr tun vip) :
    (∃ client', load env { file with
        server := file.server ++ [addedSection name parsedAddr serverPubkey vip] } = .ok client') ↔
      file.key ≠ none ∧ absent file.server < (pool tun file.server).length := by
  have shorter := pool_snoc_length name serverPubkey parsedAddr adds.lowest
  have loads : (∃ a, LoadsAs env file admin defaultPsk
      (addedSection name parsedAddr serverPubkey vip) a) ↔ defaultPsk ≠ none :=
    addedSection_loadsAs adds
  rw [← default_isSome h.default_ok]
  constructor
  · rintro ⟨client', ok⟩
    obtain ⟨ips', h'⟩ := h.of_edited ok
    have resolved : resolveVirtualIps tun
        (file.server ++ [addedSection name parsedAddr serverPubkey vip]) = .ok ips' := h'.ips_ok
    have room := (resolves_iff.mp ⟨ips', resolved⟩).2
    rw [absent_snoc] at room
    exact ⟨loads.mp (h'.loadsAs (List.mem_append_right _ (List.mem_singleton_self _))), by omega⟩
  · rintro ⟨given, room⟩
    obtain ⟨explicit, -⟩ := served_of_ok h.ips_ok
    obtain ⟨ips', resolved⟩ : ∃ ips', resolveVirtualIps tun
        (file.server ++ [addedSection name parsedAddr serverPubkey vip]) = .ok ips' := by
      rw [resolves_iff, absent_snoc]
      exact ⟨explicit.snoc adds.lowest, by omega⟩
    obtain ⟨client', h'⟩ := h.reload resolved (by
      rw [List.map_append, List.nodup_append]
      refine ⟨h.names_nodup, List.nodup_singleton _, ?_⟩
      intro n old n' new same
      obtain ⟨s, member, named⟩ := List.mem_map.mp old
      obtain rfl := List.mem_singleton.mp new
      exact adds.fresh s member (named.trans same))
      (by
        intro s member
        rcases List.mem_append.mp member with old | new
        · exact h.loadsAs old
        · rw [List.mem_singleton.mp new]
          exact loads.mpr given)
      (by
        intro f member
        obtain ⟨s, inside, named⟩ :=
          (h.mem_iff f.server).mp (loadForwards_known h.forwards_ok f member)
        exact ⟨s, List.mem_append_left _ inside, named⟩)
    exact ⟨client', load_eq_ok.mpr ⟨_, _, _, _, h'⟩⟩

theorem reloads_remove_iff {name : String} (h : Loads env file admin defaultPsk tun ips client) :
    (∃ client', load env { file with server := file.server.filter (·.name ≠ name) } =
      .ok client') ↔ ∀ f ∈ file.forward, f.server ≠ name := by
  constructor
  · rintro ⟨client', ok⟩ f member same
    obtain ⟨ips', h'⟩ := h.of_edited ok
    obtain ⟨s, inside, named⟩ := (h'.mem_iff f.server).mp (loadForwards_known h'.forwards_ok f member)
    have other := (List.mem_filter.mp inside).2
    simp [named, same] at other
  · intro unnamed
    obtain ⟨⟨parses, distinct⟩, room⟩ := resolves_iff.mp ⟨ips, h.ips_ok⟩
    have kept : (file.server.filter (·.name ≠ name)).Sublist file.server := List.filter_sublist
    have fewer : explicitIps (file.server.filter (·.name ≠ name)) ⊆ explicitIps file.server := by
      intro ip member
      obtain ⟨s, inside, stated⟩ := mem_explicitIps.mp member
      exact mem_explicitIps.mpr ⟨s, kept.subset inside, stated⟩
    obtain ⟨ips', resolved⟩ : ∃ ips', resolveVirtualIps tun
        (file.server.filter (·.name ≠ name)) = .ok ips' := by
      rw [resolves_iff]
      refine ⟨⟨fun s member => parses s (kept.subset member), distinct.sublist (kept.filterMap _)⟩, ?_⟩
      exact (kept.countP_le.trans room).trans (free_sublist fewer).length_le
    obtain ⟨client', h'⟩ := h.reload resolved (h.names_nodup.sublist (kept.map _))
      (fun s member => h.loadsAs (kept.subset member))
      (by
        intro f member
        obtain ⟨s, inside, named⟩ :=
          (h.mem_iff f.server).mp (loadForwards_known h.forwards_ok f member)
        refine ⟨s, List.mem_filter.mpr ⟨inside, ?_⟩, named⟩
        simpa [named] using unnamed f member)
    exact ⟨client', load_eq_ok.mpr ⟨_, _, _, _, h'⟩⟩

/-- From every file that loads, a successful command leads to one that loads
exactly if it keeps the references that `load` checks. -/
theorem reloads_iff (env : Environment) (file : FileConfig) (client : LoadedClient) (e : Edit)
    (loaded : load env file = .ok client) : Reloads env file client e ↔ KeepsReferences env file e := by
  obtain ⟨admin, defaultPsk, tun, ips, h⟩ := load_eq_ok.mp loaded
  constructor
  · intro reloads answer file' done
    obtain ⟨client', ok, -⟩ := reloads answer file' done
    cases edit_spec done with
    | added adds =>
      cases h.tun_ok.symm.trans adds.tun_parses
      obtain ⟨key, room⟩ := (reloads_add_iff h adds).mp ⟨client', ok⟩
      refine ⟨key, ?_⟩
      intro tun' parses
      cases h.tun_ok.symm.trans parses
      exact room
    | removed present => exact (reloads_remove_iff h).mp ⟨client', ok⟩
  · intro keeps answer file' done
    have condition := keeps answer file' done
    cases edit_spec done with
    | @added name _ serverPubkey parsedAddr _ vip adds =>
      cases h.tun_ok.symm.trans adds.tun_parses
      obtain ⟨client', ok⟩ := (reloads_add_iff h adds).mpr ⟨condition.1, condition.2 _ h.tun_ok⟩
      obtain ⟨ips', h'⟩ := h.of_edited ok
      have last : addedSection name parsedAddr serverPubkey vip ∈
          file.server ++ [addedSection name parsedAddr serverPubkey vip] :=
        List.mem_append_right _ (List.mem_singleton_self _)
      refine ⟨client', ok, ?_, ?_, ?_⟩
      · rw [h.mem_iff]
        rintro ⟨s, member, named⟩
        exact adds.fresh s member named
      · obtain ⟨z, paired, same⟩ := h'.pair last
        obtain ⟨a, loads⟩ := h'.loadsAs last
        have address : z.2 = vip := by
          apply (served_of_ok h'.ips_ok).2.2.honored z paired
          simp [same, wish, addedSection, Ipv4Addr.parse_display]
        refine ⟨⟨a.1, z.2, a.2.1, a.2.2⟩, (h'.lookup name _).mpr ⟨z, paired, ?_, ?_, rfl⟩, ?_⟩
        · rw [same]
          rfl
        · rw [same]
          exact loads
        · rw [address]
      · intro n other
        apply h.lookup_edited h'
        intro s named
        rw [List.mem_append, List.mem_singleton]
        constructor
        · rintro (old | rfl)
          · exact old
          · exact absurd named.symm other
        · exact .inl
    | @removed name present =>
      obtain ⟨client', ok⟩ := (reloads_remove_iff h).mpr condition
      obtain ⟨ips', h'⟩ := h.of_edited ok
      refine ⟨client', ok, (h.mem_iff name).mpr present, ?_, ?_⟩
      · rw [h'.mem_iff]
        rintro ⟨s, member, named⟩
        have other := (List.mem_filter.mp member).2
        simp [named] at other
      · intro n other
        apply h.lookup_edited h'
        intro s named
        simp [named, other]

/-- A new file whose global key is given as a value. -/
def sampleKeyed : FileConfig :=
  { sampleFile with key := some ⟨"value", none, some sampleKeyText, none, none⟩ }

/-- Two servers and a forward. -/
def sampleForwarding : FileConfig :=
  { sampleKeyed with
    server := [⟨"a", "192.0.2.1:8443", sampleKeyText, none, none, none, none⟩,
      ⟨"c", "192.0.2.3:8443", sampleKeyText, some "10.99.0.20", none, none, none⟩]
    forward := [⟨"127.0.0.1:2222", "a", 22⟩] }

/-- A server is added, or the one is removed that no forward names. -/
theorem reloads_iff_sample : ∃ client, load sampleEnvironment sampleForwarding = .ok client ∧
    (∃ vip file', edit sampleEnvironment sampleForwarding sampleAdd = some (.ok (some vip), file')) ∧
    Reloads sampleEnvironment sampleForwarding client sampleAdd ∧
    (∃ file', edit sampleEnvironment sampleForwarding (.remove "c") = some (.ok none, file')) ∧
    Reloads sampleEnvironment sampleForwarding client (.remove "c") := by
  have accepts : (load sampleEnvironment sampleForwarding).toOption.isSome := by decide +kernel
  obtain ⟨client, found⟩ := Option.isSome_iff_exists.mp accepts
  have loaded : load sampleEnvironment sampleForwarding = .ok client := by
    cases result : load sampleEnvironment sampleForwarding with
    | ok c =>
      rw [result] at found
      cases found
      rfl
    | error e =>
      rw [result] at found
      cases found
  have added : (edit sampleEnvironment sampleForwarding sampleAdd).map Prod.fst =
      some (.ok (some ⟨10, 99, 0, 10⟩)) := by decide +kernel
  obtain ⟨⟨_, afterAdd⟩, addDone, rfl⟩ := Option.map_eq_some_iff.mp added
  have removed : (edit sampleEnvironment sampleForwarding (.remove "c")).map Prod.fst =
      some (.ok none) := by decide +kernel
  obtain ⟨⟨_, afterRemove⟩, removeDone, rfl⟩ := Option.map_eq_some_iff.mp removed
  refine ⟨client, loaded, ⟨_, afterAdd, addDone⟩, (reloads_iff _ _ _ _ loaded).mpr ?_,
    ⟨afterRemove, removeDone⟩, (reloads_iff _ _ _ _ loaded).mpr ?_⟩
  · rintro _ _ -
    refine ⟨by decide, ?_⟩
    intro tun parses
    let default : TunConfig := ⟨⟨10, 99, 0, 1⟩, 24, 1420, by decide, by decide⟩
    have addr : Ipv4Addr.parse "10.99.0.1" = some default.addr := by decide +kernel
    have parsed : parseTun sampleForwarding.tun = .ok default := by
      simp only [parseTun, sampleForwarding, sampleKeyed, sampleFile, initConfig, TunSection.default, addr]
      rfl
    have same : tun = default := Except.ok.inj (parses.symm.trans parsed)
    have room : absent sampleForwarding.server = 1 := rfl
    have many : 1 < (pool default sampleForwarding.server).length := by decide +kernel
    rw [room, same]
    exact many
  · rintro _ _ - f member
    obtain rfl := List.mem_singleton.mp member
    decide

/-- A new file without a global key. -/
def sampleKeyless : FileConfig := { sampleFile with key := none }

theorem added_server_breaks_load : ¬ ∀ (env : Environment) (file : FileConfig)
    (client : LoadedClient) (e : Edit), load env file = .ok client → Reloads env file client e := by
  intro claim
  have accepts : (load sampleEnvironment sampleKeyless).toOption.isSome := by decide +kernel
  have report : (edit sampleEnvironment sampleKeyless sampleAdd).map
      (fun result => (result.1, (load sampleEnvironment result.2).toOption.isSome)) =
      some (.ok (some ⟨10, 99, 0, 10⟩), false) := by decide +kernel
  cases loaded : load sampleEnvironment sampleKeyless with
  | error e =>
    rw [loaded] at accepts
    cases accepts
  | ok client =>
    obtain ⟨⟨answer, file'⟩, done, same⟩ := Option.map_eq_some_iff.mp report
    obtain ⟨rfl, rejects⟩ := Prod.mk.inj same
    obtain ⟨client', reloaded, -⟩ := claim _ _ client sampleAdd loaded _ file' done
    rw [reloaded] at rejects
    cases rejects

end HyperionVpn.Client
