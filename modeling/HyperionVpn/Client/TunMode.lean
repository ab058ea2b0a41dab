import HyperionVpn.Client.Reloading

/-! The two TUN modes: the table of routes that each builds from the loaded
servers, and the pool through which a connection of the device is forwarded. -/
namespace HyperionVpn.Client
open Net

def defaultFwmark : UInt32 := 0x6879

/-- A pool of tunnels as `build_pool` makes it. Two pools that dial the same
server alike are still different pools, told apart by their number. -/
structure PoolHandle where
  id : Nat
  addr : SocketAddr
  params : TunnelParams
  size : Nat
  deriving DecidableEq

def buildPool (id : Nat) (addr : SocketAddr) (params : TunnelParams) (size : Nat) : PoolHandle :=
  ⟨id, addr, params, max size 1⟩

/-- `routes`, with all pools built so far under their server's name, and those
whose only handle went away with an overwritten route. -/
structure Routing where
  routes : KeyMap IpAddr PoolHandle
  built : List (String × PoolHandle)
  dropped : List PoolHandle

namespace Routing

def empty : Routing := ⟨∅, [], []⟩

/-- One turn of the loop over the servers. How long it waits for a connection
decides only what it logs. -/
def addServer (r : Routing) (key : IpAddr) (name : String) (addr : SocketAddr)
    (params : TunnelParams) (poolSize : Nat) : Routing :=
  let pool := buildPool r.built.length addr params poolSize
  ⟨r.routes.insert key pool, r.built ++ [(name, pool)],
    r.dropped ++ (r.routes.lookup key).toList⟩

/-- The pool and the port for which `serve` calls `forward_one`. -/
def dispatch (r : Routing) (dest : SocketAddr) : Option (PoolHandle × UInt16) :=
  (r.routes.lookup dest.ip).map fun pool => (pool, dest.port)

end Routing

/-- In what the loops of the two modes differ. -/
structure TunMode where
  key : ServerEntry → IpAddr
  params : ServerEntry → TunnelParams

namespace TunMode

/-- The loop of `run_managed`. -/
def managed : TunMode := ⟨fun e => .v4 e.virtualIp, fun e => e.params⟩

/-- The loop of `run`. -/
def real : TunMode :=
  ⟨fun e => e.addr.ip, fun e => { e.params with fwmark := some defaultFwmark }⟩

def openRoutes (mode : TunMode) (servers : List (String × ServerEntry)) : Routing :=
  servers.foldl (fun r (name, e) => r.addServer (mode.key e) name e.addr (mode.params e) e.poolSize)
    Routing.empty

end TunMode

/-- How a hash map hands out its entries. -/
abbrev HashOrder := (m : KeyMap String ServerEntry) → m.Iteration

/-- `run_managed` until it serves. -/
def runManaged (order : HashOrder) (cfg : LoadedClient) : Anyhow Routing :=
  if cfg.servers.size = 0 then
    bail "no servers configured; add one with `hyperion-client add-server`"
  else return TunMode.managed.openRoutes (order cfg.servers).entries

def runForeground (env : Environment) (order : HashOrder) (file : FileConfig) : Anyhow Routing := do
  let cfg ← load env file
  runManaged order cfg

/-- `run` until it serves. -/
def run (env : Environment) (order : HashOrder) (file : FileConfig) : Anyhow Routing := do
  let cfg ← load env file
  if cfg.servers.size = 0 then bail "no servers configured"
  else return TunMode.real.openRoutes (order cfg.servers).entries

/-! The loop. -/

namespace TunMode

variable (mode : TunMode)

/-- The pool that the turn number `id` builds. -/
def pool (id : Nat) (e : ServerEntry) : PoolHandle :=
  buildPool id e.addr (mode.params e) e.poolSize

theorem openRoutes_snoc (servers : List (String × ServerEntry)) (name : String) (e : ServerEntry) :
    mode.openRoutes (servers ++ [(name, e)]) = (mode.openRoutes servers).addServer (mode.key e) name
      e.addr (mode.params e) e.poolSize := by
  rw [openRoutes, List.foldl_append]
  rfl

theorem openRoutes_built (servers : List (String × ServerEntry)) :
    (mode.openRoutes servers).built =
      servers.zipIdx.map fun x => (x.1.1, mode.pool x.2 x.1.2) := by
  induction servers using List.reverseRecOn with
  | nil => rfl
  | append_singleton servers s ih =>
    obtain ⟨name, e⟩ := s
    have turn : (mode.openRoutes servers).built.length = servers.length := by
      rw [ih, List.length_map, List.length_zipIdx]
    simp only [openRoutes_snoc, Routing.addServer, turn]
    rw [List.zipIdx_append, List.map_append, ih]
    simp [pool]

/-- The loop inserts a pool for each server under its key. -/
theorem openRoutes_routes (servers : List (String × ServerEntry)) :
    (mode.openRoutes servers).routes =
      KeyMap.collect (servers.zipIdx.map fun x => (mode.key x.1.2, mode.pool x.2 x.1.2)) := by
  induction servers using List.reverseRecOn with
  | nil => rfl
  | append_singleton servers s ih =>
    obtain ⟨name, e⟩ := s
    have turn : (mode.openRoutes servers).built.length = servers.length := by
      rw [openRoutes_built, List.length_map, List.length_zipIdx]
    simp only [openRoutes_snoc, Routing.addServer, turn]
    rw [List.zipIdx_append, List.map_append, ih]
    simp [KeyMap.collect_snoc, pool]

theorem keys_zipIdx (servers : List (String × ServerEntry)) :
    (servers.zipIdx.map fun x => (mode.key x.1.2, mode.pool x.2 x.1.2)).map Prod.fst =
      servers.map fun s => mode.key s.2 := by
  conv_rhs => rw [← List.zipIdx_map_fst 0 servers, List.map_map]
  rw [List.map_map]
  rfl

theorem openRoutes_dropped {servers : List (String × ServerEntry)}
    (distinct : (servers.map fun s => mode.key s.2).Nodup) :
    (mode.openRoutes servers).dropped = [] := by
  induction servers using List.reverseRecOn with
  | nil => rfl
  | append_singleton servers s ih =>
    obtain ⟨name, e⟩ := s
    rw [List.map_append, List.nodup_append] at distinct
    obtain ⟨init, -, apart⟩ := distinct
    have fresh : (mode.openRoutes servers).routes.lookup (mode.key e) = none := by
      rw [AList.lookup_eq_none, openRoutes_routes, KeyMap.mem_collect, keys_zipIdx]
      intro repeated
      exact apart _ repeated _ (by simp) rfl
    simp only [openRoutes_snoc, Routing.addServer, fresh, ih init]
    rfl

end TunMode

/-! Every server behind its own pool. -/

/-- The pool dials the server as the mode has it. -/
def PoolHandle.Dials (p : PoolHandle) (mode : TunMode) (e : ServerEntry) : Prop :=
  p.addr = e.addr ∧ p.params = mode.params e ∧ p.size = max e.poolSize 1

/-- The table has one entry for each server; a connection to the server's key
is forwarded through the pool that was built for it; and no pool is gone. -/
structure Routing.Complete (r : Routing) (mode : TunMode) (servers : KeyMap String ServerEntry) :
    Prop where
  size : r.routes.size = servers.size
  own : ∀ name e, servers.lookup name = some e → ∃ pool : PoolHandle,
    (∀ p, (name, p) ∈ r.built ↔ p = pool) ∧ pool.Dials mode e ∧
    ∀ dest : SocketAddr, dest.ip = mode.key e → r.dispatch dest = some (pool, dest.port)
  alive : ∀ name pool, (name, pool) ∈ r.built → pool ∉ r.dropped

/-- No two servers have the same key. -/
def TunMode.Distinct (mode : TunMode) (servers : KeyMap String ServerEntry) : Prop :=
  ∀ n n' e e', servers.lookup n = some e → servers.lookup n' = some e' →
    mode.key e = mode.key e' → n = n'

theorem TunMode.complete_iff (mode : TunMode) {servers : KeyMap String ServerEntry}
    (order : servers.Iteration) :
    (mode.openRoutes order.entries).Complete mode servers ↔ mode.Distinct servers := by
  have nodup : mode.Distinct servers ↔ (order.entries.map fun s => mode.key s.2).Nodup :=
    (order.map_nodup_iff mode.key).symm
  rw [nodup]
  constructor
  · intro complete
    rw [← mode.keys_zipIdx, ← KeyMap.size_collect_iff, ← mode.openRoutes_routes, complete.size,
      List.length_map, List.length_zipIdx, order.length]
  · intro distinct
    have keys := distinct
    rw [← mode.keys_zipIdx] at keys
    refine ⟨?_, ?_, ?_⟩
    · rw [mode.openRoutes_routes, KeyMap.size_collect_iff.mpr keys, List.length_map,
        List.length_zipIdx, order.length]
    · intro name e found
      obtain ⟨id, turn⟩ := List.mem_iff_getElem?.mp (order.mem_iff.mpr found)
      have inside : ((name, e), id) ∈ order.entries.zipIdx := List.mk_mem_zipIdx_iff_getElem?.mpr turn
      refine ⟨mode.pool id e, ?_, ⟨rfl, rfl, rfl⟩, ?_⟩
      · intro p
        rw [mode.openRoutes_built, List.mem_map]
        constructor
        · rintro ⟨⟨⟨name', e'⟩, id'⟩, inside', same⟩
          cases same
          have turn' := List.mk_mem_zipIdx_iff_getElem?.mp inside'
          have named : (order.entries.map Prod.fst)[id]? = (order.entries.map Prod.fst)[id']? := by
            rw [List.getElem?_map, List.getElem?_map, turn, turn']
            rfl
          have bound : id < (order.entries.map Prod.fst).length := by
            rw [List.length_map]
            exact (List.getElem?_eq_some_iff.mp turn).1
          obtain rfl := (List.getElem?_inj bound order.keys_nodup).mp named
          cases turn.symm.trans turn'
          rfl
        · rintro rfl
          exact ⟨_, inside, rfl⟩
      · intro dest towards
        have routed : (mode.key e, mode.pool id e) ∈
            order.entries.zipIdx.map fun x => (mode.key x.1.2, mode.pool x.2 x.1.2) :=
          List.mem_map.mpr ⟨_, inside, rfl⟩
        rw [Routing.dispatch, towards, mode.openRoutes_routes, KeyMap.lookup_collect keys routed]
        rfl
    · intro name pool _
      rw [mode.openRoutes_dropped distinct]
      exact List.not_mem_nil

/-- If there is a server at all, the mode gets to serve with a complete table. -/
def Serves (result : Anyhow Routing) (mode : TunMode) (servers : KeyMap String ServerEntry) : Prop :=
  servers.size ≠ 0 → ∃ r, result = .ok r ∧ r.Complete mode servers

theorem serves_iff {mode : TunMode} {servers : KeyMap String ServerEntry} {message : String}
    (order : servers.Iteration) :
    Serves (if servers.size = 0 then bail message else return mode.openRoutes order.entries) mode
      servers ↔ mode.Distinct servers := by
  unfold Serves
  by_cases none : servers.size = 0
  · simp only [none, ne_eq, not_true_eq_false, false_implies, true_iff]
    intro n n' e e' found
    have member := order.mem_iff.mpr found
    rw [List.eq_nil_of_length_eq_zero (order.length.trans none)] at member
    contradiction
  · rw [if_neg none, ← mode.complete_iff order]
    constructor
    · intro serves
      obtain ⟨r, ok, complete⟩ := serves none
      cases ok
      exact complete
    · intro complete _
      exact ⟨_, rfl, complete⟩

theorem managed_distinct {env : Environment} {file : FileConfig} {client : LoadedClient}
    (loaded : load env file = .ok client) : TunMode.managed.Distinct client.servers := by
  obtain ⟨admin, psk, tun, ips, loads⟩ := load_eq_ok.mp loaded
  intro n n' e e' found found' same
  obtain ⟨z, inside, rfl, -, address⟩ := (loads.lookup n e).mp found
  obtain ⟨z', inside', rfl, -, address'⟩ := (loads.lookup n' e').mp found'
  have virtual : z.2 = z'.2 := by
    rw [← address, ← address']
    exact IpAddr.v4.inj same
  have zipped : ((file.server.zip ips).map Prod.snd).Nodup := by
    rw [List.map_snd_zip (resolves loads.ips_ok).length.le]
    exact (resolves loads.ips_ok).nodup
  rw [List.inj_on_of_nodup_map zipped inside inside' virtual]

/-- Of the files that load, the managed mode serves all, and the other exactly
those whose servers have IP addresses of their own. -/
theorem tun_serves_iff (env : Environment) (order : HashOrder) (file : FileConfig)
    (client : LoadedClient) (loaded : load env file = .ok client) :
    Serves (runForeground env order file) .managed client.servers ∧
      (Serves (run env order file) .real client.servers ↔
        ∀ n n' e e', client.servers.lookup n = some e → client.servers.lookup n' = some e' →
          e.addr.ip = e'.addr.ip → n = n') := by
  rw [runForeground, run, loaded]
  exact ⟨(serves_iff (order client.servers)).mpr (managed_distinct loaded),
    serves_iff (order client.servers)⟩

/-- Two servers on one machine, behind different ports. -/
def sampleShared : FileConfig :=
  { sampleKeyed with server := [⟨"a", "192.0.2.1:8443", sampleKeyText, none, none, none, none⟩,
      ⟨"b", "192.0.2.1:9443", sampleKeyText, none, none, none, none⟩] }

def sampleOrder : HashOrder := fun m => ⟨m.pairs, .refl _⟩

theorem sampleShared_loads : ∃ client, load sampleEnvironment sampleShared = .ok client ∧
    ∃ e e', client.servers.lookup "a" = some e ∧ client.servers.lookup "b" = some e' ∧
      e.addr.ip = e'.addr.ip := by
  have report : (load sampleEnvironment sampleShared).toOption.bind (fun client =>
      client.servers.lookup "a" |>.bind fun e => client.servers.lookup "b" |>.map fun e' =>
        decide (e.addr.ip = e'.addr.ip)) = some true := by decide +kernel
  cases loaded : load sampleEnvironment sampleShared with
  | error failure =>
    rw [loaded] at report
    contradiction
  | ok client =>
    rw [loaded] at report
    obtain ⟨_, ⟨⟩, report⟩ := Option.bind_eq_some_iff.mp report
    obtain ⟨e, found, report⟩ := Option.bind_eq_some_iff.mp report
    obtain ⟨e', found', same⟩ := Option.map_eq_some_iff.mp report
    exact ⟨client, rfl, e, e', found, found', of_decide_eq_true same⟩

theorem shared_address_loses_server :
    ¬ ∀ (env : Environment) (order : HashOrder) (file : FileConfig) (client : LoadedClient),
      load env file = .ok client → Serves (runForeground env order file) .managed client.servers ∧
        Serves (run env order file) .real client.servers := by
  intro claim
  obtain ⟨client, loaded, e, e', found, found', same⟩ := sampleShared_loads
  have serves := (claim _ sampleOrder _ _ loaded).2
  rw [run, loaded] at serves
  have distinct := (serves_iff (sampleOrder client.servers)).mp serves
  exact absurd (distinct "a" "b" e e' found found' same) (by decide)

theorem tun_serves_iff_sample : ∃ client, load sampleEnvironment sampleShared = .ok client ∧
    Serves (runForeground sampleEnvironment sampleOrder sampleShared) .managed client.servers ∧
    ¬ Serves (run sampleEnvironment sampleOrder sampleShared) .real client.servers := by
  obtain ⟨client, loaded, e, e', found, found', same⟩ := sampleShared_loads
  obtain ⟨managed, real⟩ := tun_serves_iff _ sampleOrder _ _ loaded
  refine ⟨client, loaded, managed, ?_⟩
  rw [real]
  intro distinct
  exact absurd (distinct "a" "b" e e' found found' same) (by decide)

end HyperionVpn.Client
