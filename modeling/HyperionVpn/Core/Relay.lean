import HyperionVpn.Core.ForwardOne

/-! The forward is a transparent relay: the two sides agree on where the
request and the response end, so neither leaks into the relayed bytes and none
of these is lost to the exchange. -/
namespace HyperionVpn

namespace HandleStream

variable {egress : Egress} {h h' : HandleStream} {o : Option UInt16}

/-- The handler reads what the client has written, and the other way round. -/
theorem moves_frame (moves : Moves egress h o h') :
    h'.streamIn.sent = h.streamIn.sent ∧ h'.streamOut.received = h.streamOut.received ∧
      h'.targetIn.sent = h.targetIn.sent := by
  cases moves with
  | @copies up down direction op _ => cases direction <;> simp [relay]
  | _ => simp [respond, finish]

theorem Handles.congr (handles : h.Handles) (phase : h'.phase = h.phase)
    (streamIn : h'.streamIn.received = h.streamIn.received)
    (streamOut : h'.streamOut.sent = h.streamOut.sent)
    (targetIn : h'.targetIn.received = h.targetIn.received)
    (targetOut : h'.targetOut.sent = h.targetOut.sent) : h'.Handles := by
  unfold Handles at handles ⊢
  rw [phase]
  split <;> rename_i stands <;> simp only [stands] at handles
  · simpa only [streamIn, streamOut, Quiet, targetIn, targetOut] using handles
  · simpa only [streamIn, streamOut, Quiet, targetIn, targetOut] using handles
  · simpa only [streamIn, streamOut, Quiet, targetIn, targetOut] using handles
  · simpa only [streamIn, streamOut, targetIn, targetOut] using handles
  · obtain ⟨up, down⟩ := handles
    constructor
    · simpa only [targetOut, streamIn] using up
    · simpa only [streamOut, targetIn] using down

end HandleStream

namespace Tunnel
open Machine

variable {port : UInt16} {t t' : Tunnel}

/-- The client has read the answer `ok`. -/
def Relays (t : Tunnel) : Prop :=
  (∃ up down, t.phase = .relaying up down) ∨ t.phase = .finished (.ok ())

/-- The client has touched none of the application's bytes, nor sent it any. -/
def Unread (t : Tunnel) : Prop := t.localIn.received = [] ∧ t.localOut.sent = []

/-! The client's steps. -/

inductive Advances (port : UInt16) (t : Tunnel) : Tunnel → Prop where
  | still : Advances port t t
  | opens : t.phase = .opening →
      Advances port t { t with phase := .requesting (ConnectRequest.bytes ⟨port⟩) }
  | writes {rest n} : t.phase = .requesting rest →
      Advances port t { t.withStreamIn (t.handler.streamIn.write (rest.take n)) with
        phase := .requesting (rest.drop n) }
  | waits : t.phase = .requesting [] → Advances port t { t with phase := .awaiting }
  | accepted {rest} : t.phase = .awaiting →
      t.handler.streamOut.buffered = ConnectResponse.ok.code :: rest →
      Advances port t { t.withStreamOut (t.handler.streamOut.read 1) with
        phase := .relaying .start .start }
  | copies {up down direction op} : t.phase = .relaying up down →
      Advances port t (t.relay up down direction op)
  | ends {up down} : t.phase = .relaying up down → Advances port t (t.finish (.ok ()))
  | fails {e streamOut} : ¬ t.Relays → streamOut.sent = t.handler.streamOut.sent →
      Advances port t ((t.withStreamOut streamOut).finish (.error e))

theorem unrelayed (phase : t.phase = .opening ∨ (∃ rest, t.phase = .requesting rest) ∨
    t.phase = .awaiting) : ¬ t.Relays := by
  rintro (⟨up, down, relaying⟩ | finished)
  · rcases phase with stands | ⟨rest, stands⟩ | stands <;> cases relaying.symm.trans stands
  · rcases phase with stands | ⟨rest, stands⟩ | stands <;> cases finished.symm.trans stands

theorem readResponse_spec (phase : t.phase = .awaiting) : Advances port t (t.readResponse port) := by
  have before := unrelayed (.inr (.inr phase))
  unfold readResponse
  split
  · rename_i code rest buffered
    have same : (t.handler.streamOut.read 1).sent = t.handler.streamOut.sent := Pipe.sent_read _ _
    unfold onResponse
    split
    · rename_i decoded
      rw [ConnectResponse.fromCode_eq_ok] at decoded
      exact .accepted phase (decoded ▸ buffered)
    · exact .fails before same
    · exact .fails before same
    · exact .fails before same
  · split
    · exact .fails before rfl
    · exact .still

theorem forward_spec (port : UInt16) (t : Tunnel) (e : Event) : Advances port t (t.forward port e) := by
  unfold forward
  split <;> rename_i phase
  · unfold whileOpening
    split
    · exact .opens phase
    · exact .fails (unrelayed (.inl phase)) rfl
    · exact .still
  · have before := unrelayed (.inr (.inl ⟨_, phase⟩))
    unfold whileRequesting
    split
    · split
      · exact .still
      split
      · exact .fails before rfl
      · exact .writes phase
    · split
      · exact .still
      rename_i sent
      exact .waits (not_not.mp sent ▸ phase)
    · exact .fails before rfl
    · exact .fails before rfl
    · exact .still
  · unfold whileAwaiting
    split
    · exact readResponse_spec phase
    · exact .fails (unrelayed (.inr (.inr phase))) rfl
    · exact .fails (unrelayed (.inr (.inr phase))) rfl
    · exact .still
  · unfold whileRelaying
    split
    · exact .copies phase
    · split
      · exact .ends phase
      · exact .still
    · exact .ends phase
    · exact .still
  · exact .still

/-- The client reads what the handler has written, and the other way round. -/
theorem advances_frame (advances : Advances port t t') :
    t'.handler.phase = t.handler.phase ∧
      t'.handler.streamIn.received = t.handler.streamIn.received ∧
      t'.handler.streamOut.sent = t.handler.streamOut.sent ∧
      t'.handler.targetIn = t.handler.targetIn ∧ t'.handler.targetOut = t.handler.targetOut ∧
      t'.localIn.sent = t.localIn.sent := by
  cases advances with
  | @copies up down direction op _ =>
    cases direction <;> simp [relay, withStreamIn, withStreamOut]
  | fails _ same => simpa [finish, withStreamIn, withStreamOut] using same
  | _ => simp [finish, withStreamIn, withStreamOut]

/-! The client's phases against the pipes. -/

def Forwards (port : UInt16) (t : Tunnel) : Prop :=
  match t.phase with
  | .opening => t.handler.streamIn.sent = [] ∧ t.handler.streamOut.received = [] ∧ t.Unread
  | .requesting rest => t.handler.streamIn.sent ++ rest = ConnectRequest.bytes ⟨port⟩ ∧
      t.handler.streamOut.received = [] ∧ t.Unread
  | .awaiting => t.handler.streamIn.sent = ConnectRequest.bytes ⟨port⟩ ∧
      t.handler.streamOut.received = [] ∧ t.Unread
  | .relaying up down =>
      t.handler.streamIn.sent ++ up.buffer = ConnectRequest.bytes ⟨port⟩ ++ t.localIn.received ∧
      t.handler.streamOut.received = ConnectResponse.ok.code :: (t.localOut.sent ++ down.buffer)
  | .finished (.error _) => t.handler.streamIn.sent <+: ConnectRequest.bytes ⟨port⟩ ∧ t.Unread
  | .finished (.ok ()) =>
      t.handler.streamIn.sent <+: ConnectRequest.bytes ⟨port⟩ ++ t.localIn.received ∧
      ConnectResponse.ok.code :: t.localOut.sent <+: t.handler.streamOut.received

theorem Forwards.congr (forwards : Forwards port t) (phase : t'.phase = t.phase)
    (streamIn : t'.handler.streamIn.sent = t.handler.streamIn.sent)
    (streamOut : t'.handler.streamOut.received = t.handler.streamOut.received)
    (localIn : t'.localIn.received = t.localIn.received)
    (localOut : t'.localOut.sent = t.localOut.sent) : Forwards port t' := by
  unfold Forwards at forwards ⊢
  rw [phase]
  split <;> rename_i stands <;> simp only [stands] at forwards
  all_goals simpa only [streamIn, streamOut, Unread, localIn, localOut] using forwards

/-- Before the answer, the client has sent at most its request. -/
theorem Forwards.before (forwards : Forwards port t) (before : ¬ t.Relays) :
    t.handler.streamIn.sent <+: ConnectRequest.bytes ⟨port⟩ ∧ t.Unread := by
  unfold Forwards at forwards
  split at forwards
  · obtain ⟨sent, -, unread⟩ := forwards
    exact ⟨by simp [sent], unread⟩
  · obtain ⟨sent, -, unread⟩ := forwards
    exact ⟨⟨_, sent⟩, unread⟩
  · obtain ⟨sent, -, unread⟩ := forwards
    exact ⟨sent ▸ List.prefix_rfl, unread⟩
  · exact absurd (.inl ⟨_, _, ‹_›⟩) before
  · exact forwards
  · exact absurd (.inr ‹_›) before

/-- After it, the application's bytes follow the request, and what it is sent
follows the answer. -/
theorem Forwards.after (forwards : Forwards port t) (after : t.Relays) :
    t.handler.streamIn.sent <+: ConnectRequest.bytes ⟨port⟩ ++ t.localIn.received ∧
      ConnectResponse.ok.code :: t.localOut.sent <+: t.handler.streamOut.received := by
  unfold Forwards at forwards
  rcases after with ⟨up, down, phase⟩ | phase <;> simp only [phase] at forwards
  · obtain ⟨sent, received⟩ := forwards
    refine ⟨⟨_, sent⟩, ?_⟩
    rw [received, ← List.cons_append]
    exact List.prefix_append _ _
  · exact forwards

theorem forwards_advances (forwards : Forwards port t) (advances : Advances port t t') :
    Forwards port t' := by
  cases advances with
  | still => exact forwards
  | opens phase =>
    unfold Forwards at forwards
    simp only [phase] at forwards
    obtain ⟨sent, received, unread⟩ := forwards
    exact ⟨by simp [sent], received, unread⟩
  | writes phase =>
    unfold Forwards at forwards
    simp only [phase] at forwards
    obtain ⟨sent, received, unread⟩ := forwards
    exact ⟨by simpa [withStreamIn] using sent, received, unread⟩
  | waits phase =>
    unfold Forwards at forwards
    simp only [phase, List.append_nil] at forwards
    exact forwards
  | accepted phase buffered =>
    unfold Forwards at forwards
    simp only [phase] at forwards
    obtain ⟨sent, received, fresh, quiet⟩ := forwards
    constructor
    · simpa [Copy.start, withStreamOut, fresh] using sent
    · simp [Copy.start, withStreamOut, received, quiet, Pipe.next, buffered]
  | @copies up down direction op phase =>
    unfold Forwards at forwards
    simp only [phase] at forwards
    obtain ⟨toStream, fromStream⟩ := forwards
    cases direction with
    | true =>
      obtain ⟨xs, received, sent⟩ := Copy.copied up t.localIn t.handler.streamIn op
      refine ⟨?_, fromStream⟩
      simp only [relay, withStreamIn, received, sent, toStream, List.append_assoc]
    | false =>
      obtain ⟨xs, received, sent⟩ := Copy.copied down t.handler.streamOut t.localOut op
      refine ⟨toStream, ?_⟩
      simp only [relay, withStreamOut, received, sent, fromStream, List.cons_append]
  | ends phase => exact forwards.after (.inl ⟨_, _, phase⟩)
  | fails before _ => exact forwards.before before

/-! Both sides. -/

abbrev Trace := List (Event × Option UInt16)

theorem prefix_of_header {header header' xs ys : List UInt8} (size : header.length = header'.length)
    (together : header ++ xs <+: header' ++ ys) : header = header' ∧ xs <+: ys := by
  obtain ⟨rest, same⟩ := together
  rw [List.append_assoc] at same
  obtain ⟨first, second⟩ := List.append_inj same size
  exact ⟨first, rest, second⟩

/-- What either side has gone through, seen from its own end of the stream. -/
structure Sides (port : UInt16) (t : Tunnel) : Prop where
  forwards : Forwards port t
  handles : t.handler.Handles

theorem sides_step {egress : Egress} {e : Event} {o : Option UInt16} (sides : Sides port t)
    (stepped : step port egress t e = some (o, t')) : Sides port t' := by
  have advanced (same : some (none, t.forward port e) = some (o, t')) : Sides port t' := by
    cases same
    have advances := forward_spec port t e
    obtain ⟨phase, streamIn, streamOut, targetIn, targetOut, -⟩ := advances_frame advances
    refine ⟨forwards_advances sides.forwards advances, ?_⟩
    exact sides.handles.congr phase streamIn streamOut (congrArg _ targetIn) (congrArg _ targetOut)
  cases e with
  | handler e =>
    obtain ⟨⟨dialed, handler⟩, moved, same⟩ := Option.bind_eq_some_iff.mp stepped
    cases same
    have moves := HandleStream.step_spec sides.handles.short moved
    obtain ⟨streamIn, streamOut, -⟩ := HandleStream.moves_frame moves
    exact ⟨sides.forwards.congr rfl streamIn streamOut rfl rfl,
      HandleStream.handles_moves sides.handles moves⟩
  | app bytes =>
    cases stepped
    exact ⟨sides.forwards.congr rfl rfl rfl rfl rfl, sides.handles⟩
  | appClose =>
    cases stepped
    exact ⟨sides.forwards.congr rfl rfl rfl rfl rfl, sides.handles⟩
  | target bytes =>
    cases stepped
    exact ⟨sides.forwards.congr rfl rfl rfl rfl rfl, sides.handles.congr rfl rfl rfl rfl rfl⟩
  | targetClose =>
    cases stepped
    exact ⟨sides.forwards.congr rfl rfl rfl rfl rfl, sides.handles.congr rfl rfl rfl rfl rfl⟩
  | _ => exact advanced stepped

theorem Sides.request_sent (sides : Sides port t) :
    t.handler.streamIn.sent <+: ConnectRequest.bytes ⟨port⟩ ++ t.localIn.received := by
  by_cases relays : t.Relays
  · exact (sides.forwards.after relays).1
  · exact (sides.forwards.before relays).1.trans (List.prefix_append _ _)

/-- The handler dials the port that the client asks for. -/
theorem Sides.dials {egress : Egress} {e : Event} {dialed : UInt16} (sides : Sides port t)
    (stepped : step port egress t e = some (some dialed, t')) : dialed = port := by
  cases e with
  | handler e =>
    obtain ⟨⟨dialed, handler⟩, moved, same⟩ := Option.bind_eq_some_iff.mp stepped
    cases same
    have moves := HandleStream.step_spec sides.handles.short moved
    have kept := (HandleStream.moves_frame moves).1
    have handles := HandleStream.handles_moves sides.handles moves
    cases moves with
    | @dials got room request phase bytes permitted =>
      obtain ⟨received, -⟩ := handles
      have sent := (Pipe.received_prefix _).trans (kept ▸ sides.request_sent)
      rw [received, ← List.append_nil (ConnectRequest.bytes _)] at sent
      have same := (prefix_of_header (by simp) sent).1
      obtain ⟨hi, lo, two⟩ := List.length_eq_two.mp (ConnectRequest.bytes_length request)
      have decoded := ConnectRequest.fromBytes_eq two
      have decoded' := ConnectRequest.fromBytes_eq (same.symm.trans two)
      exact congrArg ConnectRequest.port (decoded.symm.trans decoded')
  | _ => cases stepped

/-- The bytes that reach either end are a prefix of what the other end sent.
Unless the client has read `ok`, it has relayed none and sent none of the
application's on the stream. -/
structure Transparent (port : UInt16) (tr : Trace) (t : Tunnel) : Prop where
  toTarget : t.handler.targetOut.sent <+: t.localIn.sent
  toLocal : t.localOut.sent <+: t.handler.targetIn.sent
  answered : t.Relays → ∃ rest, t.handler.streamOut.received = ConnectResponse.ok.code :: rest
  unanswered : ¬ t.Relays → t.localIn.received = [] ∧ t.localOut.sent = [] ∧
    t.handler.streamIn.sent <+: ConnectRequest.bytes ⟨port⟩
  dialed : ∀ e p, (e, some p) ∈ tr → p = port

theorem Sides.toTarget (sides : Sides port t) : t.handler.targetOut.sent <+: t.localIn.sent := by
  rcases sides.handles.framed.up with none | ⟨request, relayed⟩
  · rw [none]
    exact List.nil_prefix
  · have sent := (relayed.trans (Pipe.received_prefix _)).trans sides.request_sent
    exact (prefix_of_header (by simp) sent).2.trans (Pipe.received_prefix _)

theorem Sides.toLocal (sides : Sides port t) : t.localOut.sent <+: t.handler.targetIn.sent := by
  by_cases relays : t.Relays
  · obtain ⟨response, sent, -⟩ := sides.handles.framed.down
    have received := (sides.forwards.after relays).2
    have whole := (received.trans (Pipe.received_prefix _)).trans sent
    exact (List.cons_prefix_cons.mp whole).2.trans (Pipe.received_prefix _)
  · rw [(sides.forwards.before relays).2.2]
    exact List.nil_prefix

theorem run_sides {egress : Egress} {tr : Trace} (run : Run (step port egress) new tr t) :
    Sides port t := by
  apply run.invariant
  · exact ⟨⟨rfl, rfl, rfl, rfl⟩, HandleStream.handles_new⟩
  · exact fun sides stepped => sides_step sides stepped

theorem run_dialed {egress : Egress} {tr : Trace} (run : Run (step port egress) new tr t) :
    ∀ e p, (e, some p) ∈ tr → p = port := by
  induction run with
  | nil =>
    intro e p member
    contradiction
  | snoc left stepped ih =>
    intro e p member
    rcases List.mem_append.mp member with old | last
    · exact ih e p old
    · cases List.mem_singleton.mp last
      exact (run_sides left).dials stepped

theorem forward_is_transparent (port : UInt16) (egress : Egress) (tr : Trace) (t : Tunnel)
    (run : Run (step port egress) new tr t) : Transparent port tr t := by
  have sides := run_sides run
  constructor
  · exact sides.toTarget
  · exact sides.toLocal
  · intro relays
    obtain ⟨rest, received⟩ := (sides.forwards.after relays).2
    exact ⟨t.localOut.sent ++ rest, received.symm⟩
  · intro relays
    obtain ⟨sent, read, none⟩ := sides.forwards.before relays
    exact ⟨read, none, sent⟩
  · exact run_dialed run

/-- The application sends before the tunnel answers, in chunks of a byte. -/
def sampleEvents : List Event :=
  [.app [1, 2, 3], .opened (.ok ()), .wrote 1, .handler (.read 9), .wrote 5, .flushed,
   .handler (.read 9), .handler (.dialed true), .handler (.wrote 1), .handler .flushed,
   .target [7, 8], .handler (.copy false (.pull 2)), .handler (.copy false (.push 2)), .read,
   .copy true (.pull 2), .copy true (.push 1), .handler (.copy true (.pull 9)),
   .handler (.copy true (.push 9)), .copy false (.pull 1), .copy false (.push 1)]

theorem forward_is_transparent_sample : ∃ tr t,
    Run (step 8080 ⟨{8080}⟩) new tr t ∧ tr.map Prod.fst = sampleEvents ∧
    t.handler.targetOut.sent = [1] ∧ t.localOut.sent = [7] ∧ Transparent 8080 tr t := by
  obtain ⟨⟨tr, t⟩, h, first, second⟩ : ∃ result,
      exec (step 8080 ⟨{8080}⟩) new sampleEvents = some result ∧
      result.2.handler.targetOut.sent = [1] ∧ result.2.localOut.sent = [7] := ⟨_, rfl, rfl, rfl⟩
  obtain ⟨run, inputs⟩ := exec_run h
  exact ⟨tr, t, run, inputs, first, second, forward_is_transparent _ _ _ _ run⟩

end Tunnel
end HyperionVpn
