import HyperionVpn.Client.Editing

/-! What `load` accepts and what it makes of it, and which edits it accepts. -/
namespace HyperionVpn.Client
open Net FirstFit

section
variable {env : Environment} {file : FileConfig} {admin : SecretKey} {defaultPsk : Option Psk}

/-- What does not depend on the virtual address. -/
def ServerEntry.apart (e : ServerEntry) : SocketAddr × TunnelParams × Nat :=
  (e.addr, e.params, e.poolSize)

theorem ServerEntry.eq_of_apart {e e' : ServerEntry} (same : e.apart = e'.apart)
    (address : e.virtualIp = e'.virtualIp) : e = e' := by
  obtain ⟨addr, virtualIp, params, poolSize⟩ := e
  obtain ⟨addr', virtualIp', params', poolSize'⟩ := e'
  simp only [apart, Prod.mk.injEq] at same address
  obtain ⟨rfl, rfl, rfl⟩ := same
  rw [address]

/-- A section loads as this, apart from its virtual address. -/
def LoadsAs (env : Environment) (file : FileConfig) (admin : SecretKey) (defaultPsk : Option Psk)
    (s : ServerSection) (a : SocketAddr × TunnelParams × Nat) : Prop :=
  ∃ addr serverPubkey psk, SocketAddr.parse s.addr = some addr ∧
    PublicKey.fromBase64 env.library s.serverPubkey = .ok serverPubkey ∧
    resolvePsk env s defaultPsk = .ok psk ∧
    a = (addr, ⟨admin, serverPubkey, psk,
      if file.knock.enabled then some ⟨file.knock.port.getD addr.port⟩ else none, none⟩,
      (s.poolSize.or file.poolSize).getD defaultPoolSize)

theorem context_eq_ok {message : String} {x : Anyhow α} {a : α} :
    context message x = .ok a ↔ x = .ok a := by
  unfold context
  split <;> simp

theorem loadServer_eq_ok {s : ServerSection} {virtualIp : Ipv4Addr} {e : ServerEntry} :
    loadServer env file admin defaultPsk s virtualIp = .ok e ↔
      LoadsAs env file admin defaultPsk s e.apart ∧ e.virtualIp = virtualIp := by
  simp only [loadServer, bind_eq_ok, contextParse_eq_ok, contextError_eq_ok, context_eq_ok]
  constructor
  · rintro ⟨addr, parses, key, decodes, psk, resolves, ⟨⟩⟩
    exact ⟨⟨addr, key, psk, parses, decodes, resolves, rfl⟩, rfl⟩
  · rintro ⟨⟨addr, key, psk, parses, decodes, resolves, same⟩, rfl⟩
    refine ⟨addr, parses, key, decodes, psk, resolves, ?_⟩
    obtain ⟨addr', virtualIp, params, poolSize⟩ := e
    simp only [ServerEntry.apart, Prod.mk.injEq] at same
    obtain ⟨rfl, rfl, rfl⟩ := same
    rfl

theorem LoadsAs.unique {s : ServerSection} {a b : SocketAddr × TunnelParams × Nat}
    (first : LoadsAs env file admin defaultPsk s a)
    (second : LoadsAs env file admin defaultPsk s b) : a = b := by
  obtain ⟨addr, key, psk, parses, decodes, resolves, rfl⟩ := first
  obtain ⟨addr', key', psk', parses', decodes', resolves', rfl⟩ := second
  cases parses.symm.trans parses'
  cases decodes.symm.trans decodes'
  cases resolves.symm.trans resolves'
  rfl

/-- The loop inserts the sections in order and stops at a repeated name. -/
theorem loadServers_spec {servers m : KeyMap String ServerEntry}
    {zs : List (ServerSection × Ipv4Addr)}
    (ok : loadServers env file admin defaultPsk servers zs = .ok m) :
    (zs.map (·.1.name)).Nodup ∧ (∀ z ∈ zs, z.1.name ∉ servers) ∧
      (∀ z ∈ zs, ∃ a, LoadsAs env file admin defaultPsk z.1 a) ∧
      ∀ n e, m.lookup n = some e ↔ servers.lookup n = some e ∨
        ∃ z ∈ zs, z.1.name = n ∧ LoadsAs env file admin defaultPsk z.1 e.apart ∧
          e.virtualIp = z.2 := by
  induction zs generalizing servers with
  | nil =>
    cases ok
    simp
  | cons z rest ih =>
    obtain ⟨s, ip⟩ := z
    obtain ⟨entry, loaded, later⟩ := bind_eq_ok.mp ok
    obtain ⟨loads, given⟩ := loadServer_eq_ok.mp loaded
    split at later
    · cases later
    rename_i fresh
    obtain ⟨distinct, disjoint, all, found⟩ := ih later
    have others : ∀ z ∈ rest, z.1.name ≠ s.name ∧ z.1.name ∉ servers := by
      intro z member
      have absent := disjoint z member
      rwa [AList.mem_insert, not_or] at absent
    refine ⟨?_, ?_, ?_, ?_⟩
    · rw [List.map_cons, List.nodup_cons]
      refine ⟨?_, distinct⟩
      intro repeated
      obtain ⟨z, member, same⟩ := List.mem_map.mp repeated
      exact (others z member).1 same
    · rintro z (_ | ⟨_, member⟩)
      · exact fresh
      · exact (others z member).2
    · rintro z (_ | ⟨_, member⟩)
      · exact ⟨_, loads⟩
      · exact all z member
    · intro n e
      rw [found n e]
      by_cases same : n = s.name
      · subst same
        have absent : servers.lookup s.name = none := AList.lookup_eq_none.mpr fresh
        simp only [AList.lookup_insert, Option.some.injEq, absent, reduceCtorEq, false_or,
          List.exists_mem_cons_iff, true_and]
        apply or_congr_left'
        intro notLater
        constructor
        · rintro rfl
          exact ⟨loads, given⟩
        · rintro ⟨again, address⟩
          exact ServerEntry.eq_of_apart (loads.unique again) (given.trans address.symm)
      · rw [AList.lookup_insert_ne same]
        simp only [List.exists_mem_cons_iff, Ne.symm same, false_and, false_or]

theorem loadServers_exists {servers : KeyMap String ServerEntry}
    {zs : List (ServerSection × Ipv4Addr)} (distinct : (zs.map (·.1.name)).Nodup)
    (disjoint : ∀ z ∈ zs, z.1.name ∉ servers)
    (loads : ∀ z ∈ zs, ∃ a, LoadsAs env file admin defaultPsk z.1 a) :
    ∃ m, loadServers env file admin defaultPsk servers zs = .ok m := by
  induction zs generalizing servers with
  | nil => exact ⟨servers, rfl⟩
  | cons z rest ih =>
    obtain ⟨s, ip⟩ := z
    obtain ⟨a, first⟩ := loads (s, ip) List.mem_cons_self
    obtain ⟨fresh, tail⟩ := List.nodup_cons.mp distinct
    have loaded : loadServer env file admin defaultPsk s ip = .ok ⟨a.1, ip, a.2.1, a.2.2⟩ :=
      loadServer_eq_ok.mpr ⟨first, rfl⟩
    have apart : ∀ z ∈ rest, z.1.name ∉ servers.insert s.name ⟨a.1, ip, a.2.1, a.2.2⟩ := by
      intro z member
      rw [AList.mem_insert, not_or]
      refine ⟨?_, disjoint z (List.mem_cons_of_mem _ member)⟩
      intro same
      exact fresh (List.mem_map.mpr ⟨z, member, same⟩)
    obtain ⟨m, ok⟩ := ih tail apart fun z member => loads z (List.mem_cons_of_mem _ member)
    refine ⟨m, bind_eq_ok.mpr ⟨_, loaded, ?_⟩⟩
    rw [if_neg (disjoint _ List.mem_cons_self)]
    exact ok

theorem loadForwards_known {servers : KeyMap String ServerEntry} {forwards : List ForwardSection}
    {out : List ForwardEntry} (ok : loadForwards servers forwards = .ok out) :
    ∀ f ∈ forwards, f.server ∈ servers := by
  induction forwards generalizing out with
  | nil => simp
  | cons f rest ih =>
    obtain ⟨addr, -, later⟩ := bind_eq_ok.mp ok
    split at later
    · cases later
    · rename_i known
      obtain ⟨tail, loaded, -⟩ := bind_eq_ok.mp later
      rintro g (_ | ⟨_, member⟩)
      · exact not_not.mp known
      · exact ih loaded g member

/-- The forwards load the same way over any servers that they name. -/
theorem loadForwards_transfer {servers servers' : KeyMap String ServerEntry}
    {forwards : List ForwardSection} {out : List ForwardEntry}
    (ok : loadForwards servers forwards = .ok out) (known : ∀ f ∈ forwards, f.server ∈ servers') :
    loadForwards servers' forwards = .ok out := by
  induction forwards generalizing out with
  | nil => exact ok
  | cons f rest ih =>
    obtain ⟨addr, parsed, later⟩ := bind_eq_ok.mp ok
    split at later
    · cases later
    · obtain ⟨tail, loaded, same⟩ := bind_eq_ok.mp later
      refine bind_eq_ok.mpr ⟨addr, parsed, ?_⟩
      rw [if_neg (not_not.mpr (known f List.mem_cons_self))]
      exact bind_eq_ok.mpr ⟨tail, ih loaded fun g member =>
        known g (List.mem_cons_of_mem _ member), same⟩

/-- What `load` has checked when it accepts a file. -/
structure Loads (env : Environment) (file : FileConfig) (admin : SecretKey)
    (defaultPsk : Option Psk) (tun : TunConfig) (ips : List Ipv4Addr) (client : LoadedClient) :
    Prop where
  admin_ok : readAdminKey env file = .ok admin
  default_ok : readDefaultPsk env file = .ok defaultPsk
  tun_ok : parseTun file.tun = .ok tun
  ips_ok : resolveVirtualIps tun file.server = .ok ips
  servers_ok : loadServers env file admin defaultPsk ∅ (file.server.zip ips) = .ok client.servers
  forwards_ok : loadForwards client.servers file.forward = .ok client.forwards
  tun_eq : client.tun = tun

theorem load_eq_ok {client : LoadedClient} : load env file = .ok client ↔
    ∃ admin defaultPsk tun ips, Loads env file admin defaultPsk tun ips client := by
  simp only [load, bind_eq_ok]
  constructor
  · rintro ⟨admin, adminOk, psk, pskOk, tun, tunOk, ips, ipsOk, servers, serversOk, forwards,
      forwardsOk, ⟨⟩⟩
    exact ⟨admin, psk, tun, ips, adminOk, pskOk, tunOk, ipsOk, serversOk, forwardsOk, rfl⟩
  · rintro ⟨admin, psk, tun, ips, adminOk, pskOk, tunOk, ipsOk, serversOk, forwardsOk, rfl⟩
    exact ⟨admin, adminOk, psk, pskOk, _, tunOk, ips, ipsOk, _, serversOk, _, forwardsOk, rfl⟩

namespace Loads

variable {tun : TunConfig} {ips : List Ipv4Addr} {client : LoadedClient}

theorem sections (h : Loads env file admin defaultPsk tun ips client) :
    (file.server.zip ips).map Prod.fst = file.server :=
  List.map_fst_zip (resolves h.ips_ok).length.ge

theorem names_nodup (h : Loads env file admin defaultPsk tun ips client) :
    (file.server.map (·.name)).Nodup := by
  have distinct := (loadServers_spec h.servers_ok).1
  have names : (file.server.zip ips).map (·.1.name) = file.server.map (·.name) := by
    conv_rhs => rw [← h.sections, List.map_map]
    rfl
  rwa [names] at distinct

/-- The entries of the map are the sections with their addresses. -/
theorem lookup (h : Loads env file admin defaultPsk tun ips client) (n : String) (e : ServerEntry) :
    client.servers.lookup n = some e ↔ ∃ z ∈ file.server.zip ips, z.1.name = n ∧
      LoadsAs env file admin defaultPsk z.1 e.apart ∧ e.virtualIp = z.2 := by
  rw [(loadServers_spec h.servers_ok).2.2.2 n e]
  simp

theorem pair (h : Loads env file admin defaultPsk tun ips client) {s : ServerSection}
    (member : s ∈ file.server) : ∃ z ∈ file.server.zip ips, z.1 = s := by
  rw [← h.sections] at member
  exact List.mem_map.mp member

theorem section_mem {z : ServerSection × Ipv4Addr} (member : z ∈ file.server.zip ips) :
    z.1 ∈ file.server :=
  (List.of_mem_zip member).1

theorem loadsAs (h : Loads env file admin defaultPsk tun ips client) {s : ServerSection}
    (member : s ∈ file.server) : ∃ a, LoadsAs env file admin defaultPsk s a := by
  obtain ⟨z, inside, rfl⟩ := h.pair member
  exact (loadServers_spec h.servers_ok).2.2.1 z inside

theorem lookup_apart (h : Loads env file admin defaultPsk tun ips client) (n : String)
    (a : SocketAddr × TunnelParams × Nat) :
    (client.servers.lookup n).map ServerEntry.apart = some a ↔
      ∃ s ∈ file.server, s.name = n ∧ LoadsAs env file admin defaultPsk s a := by
  simp only [Option.map_eq_some_iff, h.lookup]
  constructor
  · rintro ⟨e, ⟨z, member, named, loads, -⟩, rfl⟩
    exact ⟨z.1, section_mem member, named, loads⟩
  · rintro ⟨s, member, named, loads⟩
    obtain ⟨z, inside, rfl⟩ := h.pair member
    exact ⟨⟨a.1, z.2, a.2.1, a.2.2⟩, ⟨z, inside, named, loads, rfl⟩, rfl⟩

theorem mem_iff (h : Loads env file admin defaultPsk tun ips client) (n : String) :
    n ∈ client.servers ↔ ∃ s ∈ file.server, s.name = n := by
  rw [← AList.lookup_isSome, Option.isSome_iff_exists]
  constructor
  · rintro ⟨e, found⟩
    obtain ⟨z, member, named, -⟩ := (h.lookup n e).mp found
    exact ⟨z.1, section_mem member, named⟩
  · rintro ⟨s, member, named⟩
    obtain ⟨a, loads⟩ := h.loadsAs member
    have found := (h.lookup_apart n a).mpr ⟨s, member, named, loads⟩
    obtain ⟨e, found, -⟩ := Option.map_eq_some_iff.mp found
    exact ⟨e, found⟩

/-- A file with other sections loads if they resolve, have distinct names and
load one by one, and no forward names a missing one. -/
theorem reload (h : Loads env file admin defaultPsk tun ips client) {server : List ServerSection}
    {ips' : List Ipv4Addr} (ok : resolveVirtualIps tun server = .ok ips')
    (distinct : (server.map (·.name)).Nodup)
    (loads : ∀ s ∈ server, ∃ a, LoadsAs env file admin defaultPsk s a)
    (known : ∀ f ∈ file.forward, ∃ s ∈ server, s.name = f.server) :
    ∃ client', Loads env { file with server } admin defaultPsk tun ips' client' := by
  have sections : (server.zip ips').map Prod.fst = server :=
    List.map_fst_zip (resolves ok).length.ge
  obtain ⟨m, servers_ok⟩ : ∃ m, loadServers env { file with server } admin defaultPsk ∅
      (server.zip ips') = .ok m := by
    apply loadServers_exists
    · rw [← sections, List.map_map] at distinct
      exact distinct
    · intro z _
      exact AList.notMem_empty _
    · intro z member
      exact loads z.1 (List.of_mem_zip member).1
  have found := (loadServers_spec servers_ok).2.2.2
  have all : ∀ f ∈ file.forward, f.server ∈ m := by
    intro f member
    obtain ⟨s, inside, named⟩ := known f member
    obtain ⟨a, loaded⟩ := loads s inside
    rw [← sections] at inside
    obtain ⟨z, paired, rfl⟩ := List.mem_map.mp inside
    rw [← AList.lookup_isSome, Option.isSome_iff_exists]
    exact ⟨⟨a.1, z.2, a.2.1, a.2.2⟩, (found _ _).mpr (.inr ⟨z, paired, named, loaded, rfl⟩)⟩
  exact ⟨⟨m, client.forwards, tun⟩, h.admin_ok, h.default_ok, h.tun_ok, ok, servers_ok,
    loadForwards_transfer h.forwards_ok all, rfl⟩

end Loads

end
end HyperionVpn.Client
