import HyperionVpn.Client.Config
import HyperionVpn.Core.Knock
import HyperionVpn.Core.Pool

/-! The supervisor of one tunnel of a pool, which dials it again and again. A step
is one completed wait of `supervise`, of the `dial` it is in, or of the driver of
the connection; between the waits time passes, in milliseconds. -/
namespace HyperionVpn
open Net Client Machine

def knockRetryAttempts : Nat := 6
def knockRetryDelay : Nat := 150
def backoffInitial : Nat := 250
def backoffMax : Nat := 15000

/-- Of the bytes that the random generator filled in, or left at zero. -/
def backoffJitter (random : UInt16) : Nat := random.toNat % 500

/-- The knock goes to the address of the server; `SocketAddr::new` has no scope. -/
def knockTarget (addr : SocketAddr) (k : KnockSettings) : SocketAddr :=
  match addr with
  | .v4 ip _ => .v4 ip k.port
  | .v6 ip _ _ => .v6 ip 0 k.port

namespace Supervisor

/-- Where `supervise` stands: in `dial` (its knock, its attempts to connect with
the sleeps between them, the handshake), with a tunnel, or asleep. -/
inductive Phase where
  | knocking
  | connecting (attempt : Nat)
  | retrying (attempt due : Nat)
  | shaking
  | connected (control : MuxControl)
  | driving (control : MuxControl)
  | dropped (control : MuxControl)
  | sleeping (due : Nat)
  deriving DecidableEq, Repr

/-- How a wait ends, and what the system's clock, its random generator and
`mux::client` yield if they are asked then. -/
structure Answer where
  result : Except Error Unit
  timestamp : UInt64
  nonce : Knock.Nonce
  random : UInt16
  control : MuxControl

inductive Event where
  | elapse (ms : Nat)
  | wait (answer : Answer)

/-- What can be seen of a supervisor. -/
inductive Action where
  | knock (target : SocketAddr) (packet : List UInt8)
  | connect (target : SocketAddr)
  | set (control : MuxControl)
  | clear
  | sleep (ms : Nat)
  | wake
  deriving DecidableEq, Repr

end Supervisor

open Supervisor

structure Supervisor where
  now : Nat
  phase : Supervisor.Phase
  backoff : Nat
  deriving DecidableEq, Repr

namespace Supervisor

variable (crypto : Knock.Crypto) (addr : SocketAddr) (params : TunnelParams)

def attempts : Nat := if params.knock.isSome then knockRetryAttempts else 1

/-- The first wait of `dial`. -/
def dial : Phase := if params.knock.isSome then .knocking else .connecting 0

def new : Supervisor := ⟨0, dial params, backoffInitial⟩

/-- The sleep at the end of a turn of the loop. -/
def pause (v : Supervisor) (a : Answer) : List Action × Supervisor :=
  let ms := v.backoff + backoffJitter a.random
  ([.sleep ms], { v with phase := .sleeping (v.now + ms) })

def sent (k : KnockSettings) (a : Answer) : Action :=
  .knock (knockTarget addr k)
    (Knock.sealAt crypto params.psk params.serverPubkey addr.port a.timestamp a.nonce)

/-- An attempt of `connect_tcp` is over. -/
def tried (v : Supervisor) (attempt : Nat) (a : Answer) : List Action × Supervisor :=
  match a.result with
  | .ok () => ([.connect addr], { v with phase := .shaking })
  | .error _ =>
    if attempt + 1 < attempts params then
      ([.connect addr], { v with phase := .retrying attempt (v.now + knockRetryDelay) })
    else
      let (actions, v) := v.pause a
      (.connect addr :: actions, v)

/-- A sleep that is not over yet yields nothing. -/
def waited (v : Supervisor) (a : Answer) : Option (List Action × Supervisor) :=
  match v.phase with
  | .knocking =>
    match params.knock, a.result with
    | none, _ => none
    | some k, .ok () => some ([sent crypto addr params k a], { v with phase := .connecting 0 })
    | some _, .error _ => some (v.pause a)
  | .connecting attempt => some (v.tried addr params attempt a)
  | .retrying attempt due =>
    if due ≤ v.now then some ([], { v with phase := .connecting (attempt + 1) }) else none
  | .shaking =>
    match a.result with
    | .ok () => some ([], { v with phase := .connected a.control })
    | .error _ => some (v.pause a)
  | .connected control =>
    some ([.set control], { v with phase := .driving control, backoff := backoffInitial })
  | .driving control => some ([], { v with phase := .dropped control })
  | .dropped _ =>
    let (actions, v) := v.pause a
    some (.clear :: actions, v)
  | .sleeping due =>
    if due ≤ v.now then
      some ([.wake], { v with phase := dial params, backoff := min (v.backoff * 2) backoffMax })
    else none

def step (v : Supervisor) : Event → Option (List Action × Supervisor)
  | .elapse ms => some ([], { v with now := v.now + ms })
  | .wait a => v.waited crypto addr params a

/-- The control that the supervisor has put into its slot. -/
def Phase.shown : Phase → Option MuxControl
  | .driving control | .dropped control => some control
  | _ => none

abbrev Trace := List (Event × List Action)

def actions (tr : Trace) : List Action := tr.flatMap Prod.snd

end Supervisor
end HyperionVpn
