import HyperionVpn.Core.Protocol
import HyperionVpn.Lib.Machine
import HyperionVpn.Lib.Pipe

/-! The server's handler of one stream: it reads the port, dials the target on
the loopback interface if the egress list has it, answers, and relays. A step
is one completed wait of the handler; a wait that goes on is no step. -/
namespace HyperionVpn

structure Egress where
  ports : Finset UInt16

def Egress.permits (egress : Egress) (port : UInt16) : Bool := decide (port ∈ egress.ports)

namespace HandleStream

def earlyEof : Error := .io ⟨.unexpectedEof, "early eof"⟩
def writeZero : Error := .io ⟨.writeZero, "write zero byte into writer"⟩

inductive Phase where
  | reading (got : List UInt8)
  | dialing (port : UInt16)
  | responding (response : ConnectResponse) (rest : List UInt8)
  | relaying (up down : Copy UInt8)
  | finished (result : Except Error Unit)
  deriving DecidableEq

/-- `n` bounds what a read yields or a write accepts. `up` is the direction to
the target. -/
inductive Event where
  | read (n : Nat)
  | wrote (n : Nat)
  | flushed
  | dialed (connected : Bool)
  | copy (up : Bool) (op : Copy.Op)
  | copied
  | fail (error : IoError)
  deriving DecidableEq

end HandleStream

open HandleStream

/-- The pipes are named from the handler's side. -/
structure HandleStream where
  phase : Phase
  streamIn : Pipe UInt8
  streamOut : Pipe UInt8
  targetIn : Pipe UInt8
  targetOut : Pipe UInt8

namespace HandleStream

def new : HandleStream := ⟨.reading [], .empty, .empty, .empty, .empty⟩

def respond (h : HandleStream) (response : ConnectResponse) : HandleStream :=
  { h with phase := .responding response [response.code] }

/-- The handler returns, and drops the stream and the connection to the target. -/
def finish (h : HandleStream) (result : Except Error Unit) : HandleStream :=
  { h with
    phase := .finished result
    streamOut := h.streamOut.close
    targetOut := h.targetOut.close }

/-- `read_connect_request`, and what depends on the port that it returns. The
output is the port of a dial to 127.0.0.1. -/
def readRequest (egress : Egress) (h : HandleStream) (got : List UInt8) (n : Nat) :
    Option UInt16 × HandleStream :=
  if h.streamIn.ended then (none, h.finish (.error earlyEof))
  else
    let room := min n (2 - got.length)
    let h' := { h with streamIn := h.streamIn.read room }
    match got ++ h.streamIn.next room with
    | [hi, lo] =>
      let port := (ConnectRequest.fromBytes hi lo).port
      if !egress.permits port then (none, h'.respond .denied)
      else (some port, { h' with phase := .dialing port })
    | got => (none, { h' with phase := .reading got })

/-- `copy_bidirectional` between the stream and the target. -/
def relay (h : HandleStream) (up down : Copy UInt8) : Bool → Copy.Op → HandleStream
  | true, op => { h with
      phase := .relaying (up.copier h.streamIn op) down
      streamIn := Copy.source h.streamIn op
      targetOut := up.target h.targetOut op }
  | false, op => { h with
      phase := .relaying up (down.copier h.targetIn op)
      targetIn := Copy.source h.targetIn op
      streamOut := down.target h.streamOut op }

def whileReading (egress : Egress) (h : HandleStream) (got : List UInt8) :
    Event → Option UInt16 × HandleStream
  | .read n => h.readRequest egress got n
  | .fail e => (none, h.finish (.error (.io e)))
  | _ => (none, h)

def whileDialing (h : HandleStream) : Event → HandleStream
  | .dialed connected => h.respond (if connected then .ok else .unreachable)
  | _ => h

/-- `write_connect_response`, and what follows the answer. -/
def whileResponding (h : HandleStream) (response : ConnectResponse) (rest : List UInt8) :
    Event → HandleStream
  | .wrote n =>
    if rest = [] then h
    else if n = 0 then h.finish (.error writeZero)
    else { h with
      phase := .responding response (rest.drop n)
      streamOut := h.streamOut.write (rest.take n) }
  | .flushed =>
    if rest ≠ [] then h
    else if response = .ok then { h with phase := .relaying .start .start }
    else h.finish (.ok ())
  | .fail e => h.finish (.error (.io e))
  | _ => h

/-- How the copying ends makes no difference to the handler. -/
def whileRelaying (h : HandleStream) (up down : Copy UInt8) : Event → HandleStream
  | .copy direction op => h.relay up down direction op
  | .copied =>
    if up.finished h.targetOut && down.finished h.streamOut then h.finish (.ok ()) else h
  | .fail _ => h.finish (.ok ())
  | _ => h

/-- `handle_stream`. -/
def step (egress : Egress) (h : HandleStream) (e : Event) : Option (Option UInt16 × HandleStream) :=
  match h.phase with
  | .reading got => some (h.whileReading egress got e)
  | .dialing _ => some (none, h.whileDialing e)
  | .responding response rest => some (none, h.whileResponding response rest e)
  | .relaying up down => some (none, h.whileRelaying up down e)
  | .finished _ => some (none, h)

/-! What a step can do. -/

inductive Moves (egress : Egress) (h : HandleStream) : Option UInt16 → HandleStream → Prop where
  | still : Moves egress h none h
  | reads {got room} : h.phase = .reading got → (got ++ h.streamIn.next room).length < 2 →
      Moves egress h none { h with
        phase := .reading (got ++ h.streamIn.next room)
        streamIn := h.streamIn.read room }
  | denies {got room request} : h.phase = .reading got →
      got ++ h.streamIn.next room = ConnectRequest.bytes request →
      egress.permits request.port = false →
      Moves egress h none ({ h with streamIn := h.streamIn.read room }.respond .denied)
  | dials {got room request} : h.phase = .reading got →
      got ++ h.streamIn.next room = ConnectRequest.bytes request →
      egress.permits request.port = true →
      Moves egress h (some request.port) { h with
        phase := .dialing request.port
        streamIn := h.streamIn.read room }
  | connects {port} : h.phase = .dialing port → Moves egress h none (h.respond .ok)
  | misses {port} : h.phase = .dialing port → Moves egress h none (h.respond .unreachable)
  | writes {response rest n} : h.phase = .responding response rest →
      Moves egress h none { h with
        phase := .responding response (rest.drop n)
        streamOut := h.streamOut.write (rest.take n) }
  | starts : h.phase = .responding .ok [] →
      Moves egress h none { h with phase := .relaying .start .start }
  | copies {up down direction op} : h.phase = .relaying up down →
      Moves egress h none (h.relay up down direction op)
  | ends {result} : Moves egress h none (h.finish result)

theorem readRequest_spec (egress : Egress) {h : HandleStream} {got : List UInt8} (n : Nat)
    (phase : h.phase = .reading got) (short : got.length < 2) :
    Moves egress h (h.readRequest egress got n).1 (h.readRequest egress got n).2 := by
  have room : (got ++ h.streamIn.next (min n (2 - got.length))).length ≤ 2 := by
    simp only [List.length_append, Pipe.next, List.length_take]
    omega
  unfold readRequest
  split
  · exact .ends
  dsimp only
  split <;> rename_i bytes
  · rename_i hi lo
    have same := bytes.trans (ConnectRequest.bytes_fromBytes hi lo).symm
    split <;> rename_i permit
    · exact .denies phase same (by simpa using permit)
    · exact .dials phase same (by simpa using permit)
  · refine .reads phase ?_
    by_contra long
    have two : (got ++ h.streamIn.next (min n (2 - got.length))).length = 2 := by omega
    obtain ⟨hi, lo, same⟩ := List.length_eq_two.mp two
    exact bytes hi lo same

theorem reading_spec (egress : Egress) {h : HandleStream} {got : List UInt8} (e : Event)
    (phase : h.phase = .reading got) (short : got.length < 2) :
    Moves egress h (h.whileReading egress got e).1 (h.whileReading egress got e).2 := by
  unfold whileReading
  split
  · exact readRequest_spec egress _ phase short
  · exact .ends
  · exact .still

/-- While it reads, the handler lacks a byte of the request. -/
def Short (h : HandleStream) : Prop := ∀ got, h.phase = .reading got → got.length < 2

theorem step_spec {egress : Egress} {h h' : HandleStream} {e : Event} {o : Option UInt16}
    (short : h.Short) (stepped : step egress h e = some (o, h')) : Moves egress h o h' := by
  unfold step at stepped
  split at stepped <;> rename_i phase
  · rename_i got
    have read := reading_spec egress e phase (short got phase)
    rwa [Option.some.inj stepped] at read
  · cases stepped
    unfold whileDialing
    split
    · split
      · exact .connects phase
      · exact .misses phase
    · exact .still
  · cases stepped
    unfold whileResponding
    split
    · split
      · exact .still
      split
      · exact .ends
      · exact .writes phase
    · split
      · exact .still
      rename_i sent
      rw [not_not.mp sent] at phase
      split <;> rename_i answer
      · exact .starts (answer ▸ phase)
      · exact .ends
    · exact .ends
    · exact .still
  · cases stepped
    unfold whileRelaying
    split
    · exact .copies phase
    · split
      · exact .ends
      · exact .still
    · exact .ends
    · exact .still
  · cases stepped
    exact .still

/-! Where the header ends and the relayed bytes begin. -/

/-- Nothing is relayed to the target before the request, and nothing is sent on
the stream before the answer, which is followed by bytes of the target only if
it is `ok`. -/
structure Framed (h : HandleStream) : Prop where
  up : h.targetOut.sent = [] ∨
    ∃ request : ConnectRequest, request.bytes ++ h.targetOut.sent <+: h.streamIn.received
  down : ∃ response : ConnectResponse, h.streamOut.sent <+: response.code :: h.targetIn.received ∧
    (response = .ok ∨ h.targetIn.received = [])

/-- Nothing has been relayed. -/
def Quiet (h : HandleStream) : Prop := h.targetIn.received = [] ∧ h.targetOut.sent = []

/-- The phases of the handler against its pipes. -/
def Handles (h : HandleStream) : Prop :=
  match h.phase with
  | .reading got => h.streamIn.received = got ∧ got.length < 2 ∧ h.streamOut.sent = [] ∧ h.Quiet
  | .dialing port => h.streamIn.received = ConnectRequest.bytes ⟨port⟩ ∧ h.streamOut.sent = [] ∧
      h.Quiet
  | .responding response rest => (∃ request : ConnectRequest, h.streamIn.received = request.bytes) ∧
      h.streamOut.sent ++ rest = [response.code] ∧ h.Quiet
  | .relaying up down =>
      (∃ request : ConnectRequest,
        h.streamIn.received = request.bytes ++ (h.targetOut.sent ++ up.buffer)) ∧
      h.streamOut.sent ++ down.buffer = ConnectResponse.ok.code :: h.targetIn.received
  | .finished _ => h.Framed

theorem Handles.short {h : HandleStream} (handles : h.Handles) : h.Short := by
  intro got phase
  unfold Handles at handles
  rw [phase] at handles
  exact handles.2.1

theorem Handles.framed {h : HandleStream} (handles : h.Handles) : h.Framed := by
  unfold Handles at handles
  split at handles
  · obtain ⟨-, -, out, received, sent⟩ := handles
    exact ⟨.inl sent, .ok, by simp [out], .inl rfl⟩
  · obtain ⟨-, out, received, sent⟩ := handles
    exact ⟨.inl sent, .ok, by simp [out], .inl rfl⟩
  · obtain ⟨-, out, received, sent⟩ := handles
    refine ⟨.inl sent, ‹ConnectResponse›, ?_, .inr received⟩
    simp only [received]
    exact ⟨_, out⟩
  · obtain ⟨⟨request, up⟩, down⟩ := handles
    refine ⟨.inr ⟨request, ?_⟩, .ok, ⟨_, down⟩, .inl rfl⟩
    rw [up, ← List.append_assoc]
    exact List.prefix_append _ _
  · exact handles

theorem handles_new : new.Handles := ⟨rfl, by decide, rfl, rfl, rfl⟩

theorem handles_moves {egress : Egress} {h h' : HandleStream} {o : Option UInt16}
    (handles : h.Handles) (moves : Moves egress h o h') : h'.Handles := by
  have framed := handles.framed
  unfold Handles at handles
  cases moves with
  | still =>
    unfold Handles
    exact handles
  | reads phase short =>
    rw [phase] at handles
    obtain ⟨rfl, -, out, quiet⟩ := handles
    exact ⟨rfl, short, out, quiet⟩
  | denies phase bytes _ =>
    rw [phase] at handles
    obtain ⟨rfl, -, out, quiet⟩ := handles
    exact ⟨⟨_, bytes⟩, by simp [respond, out], quiet⟩
  | dials phase bytes _ =>
    rw [phase] at handles
    obtain ⟨rfl, -, out, quiet⟩ := handles
    exact ⟨bytes, out, quiet⟩
  | connects phase =>
    rw [phase] at handles
    obtain ⟨bytes, out, quiet⟩ := handles
    exact ⟨⟨_, bytes⟩, by simp [respond, out], quiet⟩
  | misses phase =>
    rw [phase] at handles
    obtain ⟨bytes, out, quiet⟩ := handles
    exact ⟨⟨_, bytes⟩, by simp [respond, out], quiet⟩
  | writes phase =>
    rw [phase] at handles
    obtain ⟨request, out, quiet⟩ := handles
    refine ⟨request, ?_, quiet⟩
    simpa using out
  | starts phase =>
    rw [phase] at handles
    obtain ⟨⟨request, bytes⟩, out, received, sent⟩ := handles
    refine ⟨⟨request, ?_⟩, ?_⟩
    · simpa [Copy.start, sent] using bytes
    · simpa [Copy.start, received] using out
  | @copies up down direction op phase =>
    rw [phase] at handles
    obtain ⟨⟨request, toTarget⟩, fromTarget⟩ := handles
    cases direction with
    | true =>
      obtain ⟨xs, received, sent⟩ := Copy.copied up h.streamIn h.targetOut op
      refine ⟨⟨request, ?_⟩, fromTarget⟩
      simp only [relay, received, sent, toTarget, List.append_assoc]
    | false =>
      obtain ⟨xs, received, sent⟩ := Copy.copied down h.targetIn h.streamOut op
      refine ⟨⟨request, toTarget⟩, ?_⟩
      simp only [relay, received, sent, fromTarget, List.cons_append]
  | ends => exact ⟨framed.up, framed.down⟩

end HandleStream
end HyperionVpn
