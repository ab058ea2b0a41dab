import HyperionVpn.Core.Error
import HyperionVpn.Lib.Machine

/-! The client's pool of supervised tunnels. Any number of calls of `open` draw
tickets from one shared counter, and supervisors replace the controls in the
slots; a step is one access to what they share, in any order. -/
namespace HyperionVpn

structure MuxControl where
  id : Nat
  deriving DecidableEq, Repr

structure MuxStream where
  id : Nat
  deriving DecidableEq, Repr

namespace SupervisedPool

def openGraceAttempts : Nat := 20

/-- Where a call of `open` stands: in a pass of the outer loop, after a number
of turns of the inner loop. -/
inductive Phase where
  | idle
  | drawing (pass turn : Nat)
  | looking (pass turn slot : Nat)
  | opening (pass turn slot : Nat) (control : MuxControl)
  | sleeping (pass : Nat)
  | done (result : Except Error MuxStream)
  deriving DecidableEq

/-- `answer` is what `c.open()` returns to a call that awaits it. -/
inductive Event where
  | start (call : Nat)
  | poll (call : Nat) (answer : Except Error MuxStream)
  | supervise (slot : Nat) (control : Option MuxControl)

end SupervisedPool

open SupervisedPool

structure SupervisedPool where
  slots : List (Option MuxControl)
  next : UInt64
  calls : Nat → Phase

namespace SupervisedPool

def setCall (p : SupervisedPool) (call : Nat) (phase : Phase) : SupervisedPool :=
  { p with calls := Function.update p.calls call phase }

/-- One step of `open`, with the ticket if it draws one. -/
def poll (p : SupervisedPool) (call : Nat) (answer : Except Error MuxStream) :
    Option (Option UInt64 × SupervisedPool) :=
  match p.calls call with
  | .idle | .done _ => some (none, p)
  | .drawing pass turn =>
    if turn < p.slots.length then
      let slot := p.next.toNat % p.slots.length
      some (some p.next, { p.setCall call (.looking pass turn slot) with next := p.next + 1 })
    else some (none, p.setCall call (.sleeping pass))
  | .looking pass turn slot => do
    match ← p.slots[slot]? with
    | some control => return (none, p.setCall call (.opening pass turn slot control))
    | none => return (none, p.setCall call (.drawing pass (turn + 1)))
  | .opening pass turn _ _ =>
    match answer with
    | .ok s => some (none, p.setCall call (.done (.ok s)))
    | .error _ => some (none, p.setCall call (.drawing pass (turn + 1)))
  | .sleeping pass =>
    if pass + 1 < openGraceAttempts then some (none, p.setCall call (.drawing (pass + 1) 0))
    else some (none, p.setCall call (.done (.error (.protocol "no live tunnel to server"))))

def step (p : SupervisedPool) : Event → Option (Option UInt64 × SupervisedPool)
  | .start call =>
    match p.calls call with
    | .idle => some (none, p.setCall call (.drawing 0 0))
    | _ => some (none, p)
  | .poll call answer => p.poll call answer
  | .supervise slot control => some (none, { p with slots := p.slots.set slot control })

end SupervisedPool
end HyperionVpn
