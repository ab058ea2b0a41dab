import HyperionVpn.Core.Pool

/-! The driver of a multiplexed connection. It answers the requests of any
number of callers from one queue, and forwards the peer's streams. A step is
one access of the driver to one of its sources, or one of a caller to the
queue, in any order. -/
namespace HyperionVpn

namespace Mux

def openBacklog : Nat := 64

def stopped : Error := .protocol "mux driver stopped"

/-- Where a call of `MuxControl::open` stands. Nobody awaits one that is gone. -/
inductive Call where
  | idle
  | sending
  | waiting
  | done (result : Except Error MuxStream)
  | gone
  deriving DecidableEq

/-- What `open` makes of the driver's reply. -/
def reply : Except String MuxStream → Except Error MuxStream
  | .ok s => .ok s
  | .error e => .error (.protocol ("yamux open: " ++ e))

/-- Where the driver stands: before one of the three parts of its loop, or
between two polls of its task. -/
inductive Phase where
  | outbound
  | inbound (progress : Bool)
  | queue (progress : Bool)
  | asleep
  | finished (result : Except Error Unit)
  deriving DecidableEq

/-- `poll` has what yamux would return, and whether the task has budget left to
receive from the queue. -/
inductive Event where
  | open (call : Nat)
  | send (call : Nat)
  | abandon (call : Nat)
  | clone
  | drop
  | close
  | poll (outbound : Poll (Except String MuxStream))
      (inbound : Poll (Option (Except String MuxStream))) (budget : Bool)

/-- The call that enters the queue, or what the driver polled, if it did. -/
inductive Output where
  | quiet
  | queued (call : Nat)
  | outbound (polled : Option (Nat × Poll (Except String MuxStream)))
  | inbound (polled : Poll (Option (Except String MuxStream)))
  | queue (polled : Option (Poll (Option Nat)))
  | resumed
  deriving DecidableEq

end Mux

open Mux

/-- `openRx` is the queue while the driver holds its receiver, and `inbox` what
the acceptor has been sent. The queue wakes a task that is registered with it. -/
structure Mux where
  phase : Phase
  pending : Option Nat
  openRx : Option (List Nat)
  senders : Nat
  calls : Nat → Call
  inbox : List MuxStream
  acceptor : Bool
  registered : Bool
  woken : Bool

namespace Mux

/-- The client drops its acceptor at once. -/
def client : Mux := ⟨.outbound, none, some [], 1, fun _ => .idle, [], false, false, false⟩

/-- The server has no queue. -/
def server : Mux := ⟨.outbound, none, none, 0, fun _ => .idle, [], true, false, false⟩

def setCall (m : Mux) (call : Nat) (phase : Call) : Mux :=
  { m with calls := Function.update m.calls call phase }

/-- Sends on the reply channel of a call, which fails if the call is gone. -/
def answer (m : Mux) (call : Nat) (result : Except Error MuxStream) : Mux :=
  if m.calls call = .waiting then m.setCall call (.done result) else m

/-- Notifies the driver if it waits for the queue. -/
def wake (m : Mux) : Mux :=
  { m with woken := m.woken || m.registered, registered := false }

/-- The driver returns. With it go the held request and those in the queue,
whose callers learn it. -/
def finish (m : Mux) (result : Except Error Unit) : Mux :=
  let dropped := m.pending.toList ++ m.openRx.getD []
  { m with
    phase := .finished result
    pending := none
    openRx := none
    calls := fun call =>
      if call ∈ dropped ∧ m.calls call = .waiting then .done (.error stopped) else m.calls call }

/-- The end of the loop's body. -/
def settle (m : Mux) (progress : Bool) : Mux :=
  { m with phase := if progress then .outbound else .asleep }

def pollOutbound (m : Mux) (polled : Poll (Except String MuxStream)) : Output × Mux :=
  match m.pending with
  | none => (.outbound none, { m with phase := .inbound false })
  | some call =>
    match polled with
    | .ready result =>
      (.outbound (some (call, .ready result)),
        { m.answer call (reply result) with phase := .inbound true, pending := none })
    | .pending => (.outbound (some (call, .pending)), { m with phase := .inbound false })

def pollInbound (m : Mux) (progress : Bool) (polled : Poll (Option (Except String MuxStream))) :
    Output × Mux :=
  match polled with
  | .ready (some (.ok stream)) =>
    (.inbound polled, { m with
      phase := .queue true
      inbox := if m.acceptor then m.inbox ++ [stream] else m.inbox })
  | .ready (some (.error e)) => (.inbound polled, m.finish (.error (.protocol ("yamux: " ++ e))))
  | .ready none => (.inbound polled, m.finish (.ok ()))
  | .pending => (.inbound polled, { m with phase := .queue progress })

/-- Without budget the queue answers that nothing is there, and wakes the task. -/
def pollQueue (m : Mux) (progress budget : Bool) : Output × Mux :=
  match m.pending, m.openRx with
  | none, some queue =>
    if !budget then (.queue (some .pending), { m with woken := true }.settle progress)
    else
      match queue with
      | call :: rest =>
        (.queue (some (.ready (some call))),
          { m with pending := some call, openRx := some rest }.settle true)
      | [] =>
        if m.senders = 0 then
          (.queue (some (.ready none)), { m with openRx := none }.settle progress)
        else (.queue (some .pending), { m with registered := true }.settle progress)
  | _, _ => (.queue none, m.settle progress)

/-- The next part of `run`. -/
def drive (m : Mux) (outbound : Poll (Except String MuxStream))
    (inbound : Poll (Option (Except String MuxStream))) (budget : Bool) : Output × Mux :=
  match m.phase with
  | .outbound => m.pollOutbound outbound
  | .inbound progress => m.pollInbound progress inbound
  | .queue progress => m.pollQueue progress budget
  | .asleep => (.resumed, { m with phase := .outbound, woken := false })
  | .finished _ => (.quiet, m)

/-- `send` waits for room in the queue, and fails if there is no receiver. -/
def send (m : Mux) (call : Nat) : Output × Mux :=
  if m.calls call = .sending then
    match m.openRx with
    | none => (.quiet, m.setCall call (.done (.error stopped)))
    | some queue =>
      if queue.length < openBacklog then
        (.queued call, { m.setCall call .waiting with openRx := some (queue ++ [call]) }.wake)
      else (.quiet, m)
  else (.quiet, m)

def step (m : Mux) : Event → Option (Output × Mux)
  | .open call =>
    if m.calls call = .idle ∧ 0 < m.senders then some (.quiet, m.setCall call .sending)
    else some (.quiet, m)
  | .send call => some (m.send call)
  | .abandon call =>
    if m.calls call = .sending ∨ m.calls call = .waiting then
      some (.quiet, m.setCall call .gone)
    else some (.quiet, m)
  | .clone => some (.quiet, if 0 < m.senders then { m with senders := m.senders + 1 } else m)
  | .drop =>
    let rest := { m with senders := m.senders - 1 }
    some (.quiet, if rest.senders = 0 then rest.wake else rest)
  | .close => some (.quiet, { m with acceptor := false })
  | .poll outbound inbound budget => some (m.drive outbound inbound budget)

end Mux
end HyperionVpn
