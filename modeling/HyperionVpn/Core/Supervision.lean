import HyperionVpn.Core.PoolProofs
import HyperionVpn.Core.SuperviseProofs

/-! A pool with its supervisors and the calls of `open`, in any order of their
steps. What the supervisors put into the slots is what the calls find there. -/
namespace HyperionVpn
open Net Client Machine History

structure Supervision where
  pool : SupervisedPool
  supervisors : List Supervisor
  /-- Numbers what `mux::client` makes. -/
  made : Nat

namespace Supervision

inductive Event where
  | elapse (ms : Nat)
  | supervise (slot : Nat) (answer : Supervisor.Answer)
  | start (call : Nat)
  | poll (call : Nat) (answer : Except Error MuxStream)

/-- The ticket that was drawn, and what the supervisor of a slot has done. -/
structure Output where
  ticket : Option UInt64
  slot : Nat
  actions : List Supervisor.Action

abbrev Trace := List (Event × Output)

variable (crypto : Knock.Crypto) (addr : SocketAddr) (params : TunnelParams)

def buildPool (size : Nat) : Supervision where
  pool := ⟨List.replicate (max size 1) none, 0, fun _ => .idle⟩
  supervisors := List.replicate (max size 1) (Supervisor.new params)
  made := 0

/-- What an action of the supervisor means to its slot. -/
def access (slot : Nat) : Supervisor.Action → Option SupervisedPool.Event
  | .set control => some (.supervise slot (some control))
  | .clear => some (.supervise slot none)
  | .knock _ _ | .connect _ | .sleep _ | .wake => none

def show_ (pool : SupervisedPool) : SupervisedPool.Event → SupervisedPool
  | .supervise slot control => { pool with slots := pool.slots.set slot control }
  | .start _ | .poll _ _ => pool

def step (s : Supervision) : Event → Option (Output × Supervision)
  | .elapse ms =>
    some (⟨none, 0, []⟩, { s with supervisors := s.supervisors.map fun v => { v with now := v.now + ms } })
  | .supervise slot a => do
    let v ← s.supervisors[slot]?
    let (actions, v) ← v.waited crypto addr params { a with control := ⟨s.made⟩ }
    return (⟨none, slot, actions⟩,
      ⟨(actions.filterMap (access slot)).foldl show_ s.pool, s.supervisors.set slot v, s.made + 1⟩)
  | .start call => do
    let (ticket, pool) ← s.pool.step (.start call)
    return (⟨ticket, 0, []⟩, { s with pool })
  | .poll call answer => do
    let (ticket, pool) ← s.pool.step (.poll call answer)
    return (⟨ticket, 0, []⟩, { s with pool })

/-- `SupervisedPool::live_slots`. -/
def liveSlots (s : Supervision) : Nat := s.pool.slots.countP Option.isSome

/-! The parts of a run. -/

/-- What a step is to the pool. -/
def poolEvents (e : Event × Output) : List (SupervisedPool.Event × Option UInt64) :=
  match e.1 with
  | .elapse _ => []
  | .supervise slot _ => (e.2.actions.filterMap (access slot)).map fun event => (event, none)
  | .start call => [(.start call, e.2.ticket)]
  | .poll call answer => [(.poll call answer, e.2.ticket)]

/-- What the supervisor of the slot has done. -/
def actionsOf (slot : Nat) (tr : Trace) : List Supervisor.Action :=
  tr.flatMap fun e =>
    match e.1 with
    | .supervise i _ => if i = slot then e.2.actions else []
    | .elapse _ | .start _ | .poll _ _ => []

def tunnel? : Supervisor.Action → Option MuxControl
  | .set control => some control
  | .clear | .knock _ _ | .connect _ | .sleep _ | .wake => none

/-- The tunnels that have been shown in a slot. -/
def shown (tr : Trace) : List MuxControl := tr.flatMap fun e => e.2.actions.filterMap tunnel?

end Supervision
end HyperionVpn
