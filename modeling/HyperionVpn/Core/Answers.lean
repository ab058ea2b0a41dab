import HyperionVpn.Core.Relay
import HyperionVpn.Core.ServeConnection

/-! What a handler says first on its stream is its verdict on the port and the
dial, and it relays only after it has said `ok`. -/
namespace HyperionVpn

theorem HandleStream.moves_received {egress : Egress} {h h' : HandleStream} {o : Option UInt16}
    (moves : Moves egress h o h') : h.streamIn.received <+: h'.streamIn.received := by
  cases moves with
  | reads _ _ => exact List.prefix_append _ _
  | denies _ _ _ => exact List.prefix_append _ _
  | dials _ _ _ => exact List.prefix_append _ _
  | @copies up down direction op _ =>
    cases direction with
    | true => exact Copy.received_source_prefix _ op
    | false => exact List.prefix_rfl
  | _ => exact List.prefix_rfl

namespace Handler
open HandleStream

variable {egress : Egress} {h h' : Handler} {o : Option UInt16}

inductive Steps (egress : Egress) (h : Handler) : Option UInt16 → Handler → Prop where
  | still : Steps egress h none h
  | connects {port connected} : h.task.phase = .dialing port →
      Steps egress h none { h with
        task := h.task.respond (if connected then .ok else .unreachable)
        outcome := some connected }
  | moves {o task} : (∀ port, h.task.phase ≠ .dialing port) → Moves egress h.task o task →
      Steps egress h o { h with task }

theorem step_spec {e : HandleStream.Event} (short : h.task.Short)
    (stepped : h.step egress e = some (o, h')) : Steps egress h o h' := by
  simp only [Handler.step, Option.bind_eq_bind, Option.bind_eq_some_iff] at stepped
  obtain ⟨⟨dialed, task⟩, ran, stepped⟩ := stepped
  by_cases dialing : ∃ port, h.task.phase = .dialing port
  · obtain ⟨port, phase⟩ := dialing
    simp only [HandleStream.step, phase, Option.some.injEq, Prod.mk.injEq] at ran
    obtain ⟨rfl, rfl⟩ := ran
    simp only [phase] at stepped
    cases e with
    | dialed connected =>
      cases stepped
      exact .connects phase
    | _ =>
      cases stepped
      exact .still
  · have other (port : UInt16) : h.task.phase ≠ .dialing port := fun same => dialing ⟨port, same⟩
    have kept : h' = { h with task } ∧ o = dialed := by
      split at stepped
      · exact absurd ‹_› (other _)
      · cases stepped
        exact ⟨rfl, rfl⟩
    obtain ⟨rfl, rfl⟩ := kept
    exact .moves other (HandleStream.step_spec short ran)

/-- When the handler's verdict on a request is this one. -/
def Decides (egress : Egress) (request : ConnectRequest) (outcome : Option Bool) :
    ConnectResponse → Prop
  | .denied => egress.permits request.port = false ∧ outcome = none
  | .ok => egress.permits request.port = true ∧ outcome = some true
  | .unreachable => egress.permits request.port = true ∧ outcome = some false

/-- A verdict that has been given is right, and only after `ok` anything else
is sent, or relayed in either direction. -/
structure Settled (egress : Egress) (h : Handler) : Prop where
  verdict : h.task.streamOut.sent ≠ [] → ∃ request response rest,
    ConnectRequest.bytes request <+: h.task.streamIn.received ∧
    Decides egress request h.outcome response ∧
    h.task.streamOut.sent = response.code :: rest ∧ (response = .ok ∨ rest = [])
  relayed : ¬ h.task.Quiet → ∃ rest, h.task.streamOut.sent = ConnectResponse.ok.code :: rest

/-- The phases of the handler against its verdict. -/
def Deciding (egress : Egress) (h : Handler) : Prop :=
  match h.task.phase with
  | .reading _ => h.outcome = none
  | .dialing port => egress.permits port = true ∧ h.outcome = none
  | .responding response _ => ∃ request : ConnectRequest,
      h.task.streamIn.received = request.bytes ∧ Decides egress request h.outcome response
  | .relaying _ _ => (∃ request : ConnectRequest,
      request.bytes <+: h.task.streamIn.received ∧ Decides egress request h.outcome .ok) ∧
      ∃ rest, h.task.streamOut.sent = ConnectResponse.ok.code :: rest
  | .finished _ => h.Settled egress

theorem Deciding.settled (deciding : h.Deciding egress) (handles : h.task.Handles) :
    h.Settled egress := by
  unfold Deciding at deciding
  unfold Handles at handles
  split at deciding <;> rename_i phase <;> simp only [phase] at handles
  · obtain ⟨-, -, out, quiet⟩ := handles
    exact ⟨fun sent => absurd out sent, fun loud => absurd quiet loud⟩
  · obtain ⟨-, out, quiet⟩ := handles
    exact ⟨fun sent => absurd out sent, fun loud => absurd quiet loud⟩
  · rename_i response rest
    obtain ⟨request, bytes, decides⟩ := deciding
    obtain ⟨-, out, quiet⟩ := handles
    refine ⟨fun sent => ?_, fun loud => absurd quiet loud⟩
    refine ⟨request, response, [], bytes ▸ List.prefix_rfl, decides, ?_, .inr rfl⟩
    rcases List.append_eq_singleton_iff.mp out with ⟨none, -⟩ | ⟨all, -⟩
    · exact absurd none sent
    · exact all
  · obtain ⟨⟨request, bytes, decides⟩, rest, out⟩ := deciding
    exact ⟨fun _ => ⟨request, .ok, rest, bytes, decides, out, .inl rfl⟩, fun _ => ⟨rest, out⟩⟩
  · exact deciding

theorem deciding_new (stream : MuxStream) : (new stream).Deciding egress := rfl

theorem Deciding.congr (deciding : h.Deciding egress) (outcome : h'.outcome = h.outcome)
    (phase : h'.task.phase = h.task.phase)
    (streamIn : h'.task.streamIn.received = h.task.streamIn.received)
    (streamOut : h'.task.streamOut.sent = h.task.streamOut.sent)
    (targetIn : h'.task.targetIn.received = h.task.targetIn.received)
    (targetOut : h'.task.targetOut.sent = h.task.targetOut.sent) : h'.Deciding egress := by
  unfold Deciding at deciding ⊢
  rw [phase]
  split <;> rename_i stands <;> simp only [stands] at deciding
  · rwa [outcome]
  · rwa [outcome]
  · rwa [outcome, streamIn]
  · rwa [outcome, streamIn, streamOut]
  · obtain ⟨verdict, relayed⟩ := deciding
    constructor
    · rwa [outcome, streamIn, streamOut]
    · rwa [Quiet, targetIn, targetOut, streamOut]

theorem deciding_moves {task : HandleStream} (deciding : h.Deciding egress)
    (handles : h.task.Handles) (idle : ∀ port, h.task.phase ≠ .dialing port)
    (moves : Moves egress h.task o task) : Deciding egress { h with task } := by
  have settled := deciding.settled handles
  unfold Deciding at deciding
  unfold Handles at handles
  cases moves with
  | still => exact deciding
  | reads phase short =>
    simp only [phase] at deciding
    exact deciding
  | denies phase bytes permit =>
    simp only [phase] at deciding handles
    refine ⟨_, ?_, permit, deciding⟩
    simpa only [respond, Pipe.received_read, handles.1] using bytes
  | dials phase _ permit =>
    simp only [phase] at deciding
    exact ⟨permit, deciding⟩
  | connects phase => exact absurd phase (idle _)
  | misses phase => exact absurd phase (idle _)
  | writes phase =>
    simp only [phase] at deciding
    exact deciding
  | starts phase =>
    simp only [phase] at deciding handles
    obtain ⟨request, bytes, decides⟩ := deciding
    obtain ⟨-, out, -⟩ := handles
    exact ⟨⟨request, bytes ▸ List.prefix_rfl, decides⟩, [], by simpa using out⟩
  | @copies up down direction op phase =>
    simp only [phase] at deciding
    obtain ⟨⟨request, bytes, decides⟩, rest, out⟩ := deciding
    cases direction with
    | true =>
      exact ⟨⟨request, bytes.trans (Copy.received_source_prefix _ op), decides⟩, rest, out⟩
    | false =>
      obtain ⟨more, sent⟩ := Copy.sent_target_prefix down h.task.streamOut op
      refine ⟨⟨request, bytes, decides⟩, rest ++ more, ?_⟩
      simp only [relay, ← sent, out, List.cons_append]
  | ends => exact ⟨settled.verdict, settled.relayed⟩

/-- What holds of a handler on a stream on which the peer has sent these bytes. -/
structure Sound (egress : Egress) (sent : List UInt8) (h : Handler) : Prop where
  fed : h.task.streamIn.sent <+: sent
  handles : h.task.Handles
  deciding : h.Deciding egress

theorem sound_new (egress : Egress) (sent : List UInt8) (stream : MuxStream) :
    (new stream).Sound egress sent where
  fed := List.nil_prefix
  handles := handles_new
  deciding := deciding_new stream

theorem Sound.settled {sent : List UInt8} (sound : h.Sound egress sent) : h.Settled egress :=
  sound.deciding.settled sound.handles

theorem sound_steps {sent : List UInt8} (sound : h.Sound egress sent) (steps : Steps egress h o h') :
    h'.Sound egress sent := by
  obtain ⟨fed, handles, deciding⟩ := sound
  cases steps with
  | still => exact ⟨fed, handles, deciding⟩
  | @connects port connected phase =>
    refine ⟨fed, ?_, ?_⟩
    · cases connected with
      | true =>
        have connects : Moves egress h.task none (h.task.respond .ok) := .connects phase
        exact handles_moves handles connects
      | false =>
        have misses : Moves egress h.task none (h.task.respond .unreachable) := .misses phase
        exact handles_moves handles misses
    · unfold Deciding at deciding
      unfold Handles at handles
      simp only [phase] at deciding handles
      refine ⟨⟨port⟩, handles.1, ?_⟩
      cases connected <;> exact ⟨deciding.1, rfl⟩
  | moves idle moves =>
    obtain ⟨streamIn, -, -⟩ := moves_frame moves
    exact ⟨streamIn ▸ fed, handles_moves handles moves,
      deciding_moves deciding handles idle moves⟩

theorem steps_stream (steps : Steps egress h o h') : h'.stream = h.stream := by
  cases steps <;> rfl

theorem steps_received (steps : Steps egress h o h') :
    h.task.streamIn.received <+: h'.task.streamIn.received := by
  cases steps with
  | moves _ moves => exact moves_received moves
  | _ => exact List.prefix_rfl

/-- A dial is for the request that the handler has read. -/
theorem steps_dial {port : UInt16} {sent : List UInt8} (sound : h.Sound egress sent)
    (steps : Steps egress h (some port) h') :
    egress.permits port = true ∧ ConnectRequest.bytes ⟨port⟩ <+: h'.task.streamIn.received := by
  cases steps with
  | moves _ moves =>
    cases moves with
    | @dials got room request phase bytes permit =>
      have handles := sound.handles
      unfold Handles at handles
      simp only [phase] at handles
      refine ⟨permit, ?_⟩
      simp only [Pipe.received_read, handles.1, bytes]
      exact List.prefix_rfl

/-! What the peer and the target do. -/

/-- A change to what waits in the pipes to be read. -/
theorem Sound.arrives {sent : List UInt8} {streamIn targetIn : Pipe UInt8}
    (sound : h.Sound egress sent) (fed : streamIn.sent <+: sent)
    (stream : streamIn.received = h.task.streamIn.received)
    (target : targetIn.received = h.task.targetIn.received) :
    Sound egress sent { h with task := { h.task with streamIn, targetIn } } where
  fed := fed
  handles := sound.handles.congr rfl stream rfl target rfl
  deciding := sound.deciding.congr rfl rfl stream rfl target rfl

theorem sound_deliver {sent : List UInt8} (sound : h.Sound egress sent) (n : Nat) :
    (h.deliver sent n).Sound egress sent := by
  have fed : (h.deliver sent n).task.streamIn.sent <+: sent := by
    obtain ⟨rest, same⟩ := sound.fed
    simp only [deliver, Pipe.sent_write, ← same, List.drop_left]
    exact (List.prefix_append_right_inj _).mpr (List.take_prefix _ _)
  exact sound.arrives fed rfl rfl

end Handler
end HyperionVpn
