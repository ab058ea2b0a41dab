import HyperionVpn.Core.NoiseReading
import HyperionVpn.Core.NoiseWriting
import HyperionVpn.Lib.Machine

/-! One direction of a session: a sender and a receiver with the same cipher
state, and a network that decides how the inner streams answer. -/
namespace HyperionVpn
open Machine Framing NoiseStream

/-- The two ends with what has happened so far: the bytes that the sender's
inner stream accepted, the bytes taken from the receiver's, the messages sealed
into frames, `buf[..n]` of every write that returned `Ok(n)`, and the bytes put
into the buffers of the reads. -/
structure Session where
  sender : NoiseStream
  receiver : NoiseStream
  wire : List UInt8
  received : List UInt8
  sealed : List (List UInt8)
  accepted : List (List UInt8)
  delivered : List UInt8

namespace Session

inductive Call where
  | write (buf : List UInt8) (script : List InnerWrite)
  | flush (script : List InnerWrite) (last : InnerDone)
  | shutdown (script : List InnerWrite) (last : InnerDone)
  | read (remaining : Nat) (script : List InnerRead)
  deriving DecidableEq, Repr

inductive Reply where
  | wrote (result : PollResult Nat)
  | drained (result : PollResult Unit)
  | read (result : PollResult (List UInt8))
  deriving DecidableEq, Repr

/-- Ciphers of the other directions play no part. -/
def new (c recv send : CipherState) : Session :=
  ⟨NoiseStream.new c recv, NoiseStream.new send c, [], [], [], [], []⟩

def accept (accepted : List (List UInt8)) (buf : List UInt8) : PollResult Nat → List (List UInt8)
  | .ready (.ok 0) => accepted
  | .ready (.ok n) => accepted ++ [buf.take n]
  | _ => accepted

def step (aead : Aead) (s : Session) : Call → Option (Reply × Session)
  | .write buf script => do
    let w ← s.sender.pollWrite aead buf script
    let sealed := if w.stream.send = s.sender.send then s.sealed else s.sealed ++ [chunk buf]
    let accepted := accept s.accepted buf w.result
    return (.wrote w.result,
      { s with sender := w.stream, wire := s.wire ++ w.wire, sealed, accepted })
  | .flush script last => do
    let w ← s.sender.pollFlush script last
    return (.drained w.result, { s with sender := w.stream, wire := s.wire ++ w.wire })
  | .shutdown script last => do
    let w ← s.sender.pollShutdown script last
    return (.drained w.result, { s with sender := w.stream, wire := s.wire ++ w.wire })
  | .read remaining script => do
    let r ← s.receiver.pollRead aead remaining script
    return (.read r.result,
      { s with
        receiver := r.stream, received := s.received ++ r.taken,
        delivered := s.delivered ++ outOf r.result })

variable {aead : Aead} {c : CipherState}

/-- What holds of every session, whatever the network does. -/
structure Sound (aead : Aead) (c : CipherState) (s : Session) : Prop where
  sending : Sending aead c s.sender s.wire s.sealed
  receiving : ∃ opened, Receiving aead c s.receiver s.received s.delivered opened

theorem sound_new (aead : Aead) (c recv send : CipherState) : Sound aead c (new c recv send) :=
  ⟨sending_new aead c recv, [], receiving_new aead send c⟩

/-- The poll fails on the frame that it has sealed itself. -/
def LosesFrame (s : Session) : Call → Prop
  | .write buf script => buf ≠ [] ∧ ∃ middle, drain s.sender.unsent.length script = .done middle ∧
      drain (lenPrefix + min buf.length maxPlaintext + tagLen) middle = .failed
  | _ => False

/-- What one call does to the two ends. -/
inductive Steps (aead : Aead) (c : CipherState) (s : Session) (call : Call) :
    Reply → Session → Prop where
  | idle {buf : List UInt8} {script : List InnerWrite} {sender : NoiseStream} {wire : List UInt8}
      {result : PollResult Nat} : call = .write buf script →
      (∀ n, result = .ready (.ok n) → n = 0) →
      Sending aead c sender (s.wire ++ wire) s.sealed →
      Steps aead c s call (.wrote result) { s with sender, wire := s.wire ++ wire }
  | sealed {buf : List UInt8} {script : List InnerWrite} {sender : NoiseStream} {wire : List UInt8}
      {result : PollResult Nat} : call = .write buf script → buf ≠ [] →
      (LosesFrame s call ∧ (∃ e, result = .ready (.error e)) ∨
        ¬ LosesFrame s call ∧ result = .ready (.ok (min buf.length maxPlaintext))) →
      Sending aead c sender (s.wire ++ wire) (s.sealed ++ [chunk buf]) →
      Steps aead c s call (.wrote result)
        { s with
          sender, wire := s.wire ++ wire, sealed := s.sealed ++ [chunk buf],
          accepted := accept s.accepted buf result }
  | drained {sender : NoiseStream} {wire : List UInt8} {result : PollResult Unit} :
      (∀ remaining script, call ≠ .read remaining script) →
      Sending aead c sender (s.wire ++ wire) s.sealed →
      (result = .ready (.ok ()) → sender.unsent = []) →
      Steps aead c s call (.drained result) { s with sender, wire := s.wire ++ wire }
  | read {remaining : Nat} {script : List InnerRead} {r : Reading (PollResult (List UInt8))} :
      call = .read remaining script →
      (∀ opened, Receiving aead c s.receiver s.received s.delivered opened →
        Reads aead c s.received s.delivered opened remaining script r) →
      Steps aead c s call (.read r.result)
        { s with
          receiver := r.stream, received := s.received ++ r.taken,
          delivered := s.delivered ++ outOf r.result }

theorem advance_ne (c : CipherState) : c.advance 1 ≠ c := by
  intro same
  have := congrArg CipherState.n same
  simp [CipherState.advance] at this

theorem losesFrame_iff {s : Session} {buf : List UInt8} {script middle : List InnerWrite}
    (nonempty : buf ≠ []) (out : drain s.sender.unsent.length script = .done middle) :
    LosesFrame s (.write buf script) ↔
      drain (s.sender.nextFrame aead buf).length middle = .failed := by
  have size : lenPrefix + min buf.length maxPlaintext + tagLen =
      (s.sender.nextFrame aead buf).length := by
    rw [nextFrame_length, lenPrefix, tagLen]
    omega
  simp only [LosesFrame, size]
  constructor
  · rintro ⟨-, middle', out', failed⟩
    cases out.symm.trans out'
    exact failed
  · exact fun failed => ⟨nonempty, middle, out, failed⟩

theorem accept_of_not_ok {accepted : List (List UInt8)} {buf : List UInt8} {result : PollResult Nat}
    (none : ∀ n, result = .ready (.ok n) → n = 0) : accept accepted buf result = accepted := by
  cases result with
  | pending => rfl
  | ready value =>
    cases value with
    | error e => rfl
    | ok n =>
      obtain rfl := none n rfl
      rfl

theorem write_spec {s : Session} (h : Sound aead c s) (buf : List UInt8) (script : List InnerWrite) :
    ∃ reply s', step aead s (.write buf script) = some (reply, s') ∧
      Steps aead c s (.write buf script) reply s' := by
  obtain ⟨w, called, wrote⟩ := pollWrite_spec aead s.sender buf script h.sending.bounded
  have stepped : step aead s (.write buf script) = some (.wrote w.result,
      { s with
        sender := w.stream, wire := s.wire ++ w.wire,
        sealed := if w.stream.send = s.sender.send then s.sealed else s.sealed ++ [chunk buf],
        accepted := accept s.accepted buf w.result }) := by
    simp [step, called]
  -- A call that seals nothing leaves the histories of messages as they are.
  have idle (send : w.stream.send = s.sender.send)
      (none : ∀ n, w.result = .ready (.ok n) → n = 0)
      (sending : Sending aead c w.stream (s.wire ++ w.wire) s.sealed) :
      ∃ reply s', step aead s (.write buf script) = some (reply, s') ∧
        Steps aead c s (.write buf script) reply s' := by
    rw [if_pos send, accept_of_not_ok none] at stepped
    exact ⟨_, _, stepped, .idle rfl none sending⟩
  cases wrote with
  | empty empty same =>
    refine idle (by rw [same]) (fun n ok => ?_) ?_
    · rw [same] at ok
      cases ok
      rfl
    · simpa [same] using h.sending
  | @blocked pending off nonempty outcome inside shape conserved =>
    refine idle (by rw [shape]; rfl) (fun n ok => ?_) ?_
    · rcases outcome with ⟨-, result⟩ | ⟨-, e, result⟩ <;> rw [result] at ok <;> cases ok
    · rw [shape] at conserved ⊢
      exact h.sending.flush inside conserved
  | @sealed pending off middle nonempty out outcome inside shape conserved =>
    have advanced : w.stream.send ≠ s.sender.send := by
      rw [shape]
      exact advance_ne _
    rw [if_neg advanced] at stepped
    refine ⟨_, _, stepped, .sealed rfl nonempty ?_ ?_⟩
    · rw [losesFrame_iff nonempty out]
      exact outcome
    · rw [shape] at conserved ⊢
      exact h.sending.seal nonempty inside conserved

theorem step_spec {s : Session} (h : Sound aead c s) (call : Call) :
    ∃ reply s', step aead s call = some (reply, s') ∧ Steps aead c s call reply s' := by
  have drainer (script : List InnerWrite) (last : InnerDone)
      (writing : ∀ remaining script, call ≠ .read remaining script) : ∃ w,
      s.sender.pollDrain script last = some w ∧ Steps aead c s call (.drained w.result)
        { s with sender := w.stream, wire := s.wire ++ w.wire } := by
    obtain ⟨w, called, conserved, ⟨pending, off, inside, shape⟩, out⟩ :=
      pollDrain_spec s.sender script last h.sending.bounded
    refine ⟨w, called, .drained writing ?_ out⟩
    rw [shape] at conserved ⊢
    exact h.sending.flush inside conserved
  cases call with
  | write buf script => exact write_spec h buf script
  | flush script last =>
    obtain ⟨w, called, steps⟩ := drainer script last (by simp)
    exact ⟨_, _, by simp [step, pollFlush, called], steps⟩
  | shutdown script last =>
    obtain ⟨w, called, steps⟩ := drainer script last (by simp)
    exact ⟨_, _, by simp [step, pollShutdown, called], steps⟩
  | read remaining script =>
    obtain ⟨opened, receiving⟩ := h.receiving
    obtain ⟨r, called, reads⟩ := pollRead_spec receiving remaining script
    refine ⟨.read r.result,
      { s with
        receiver := r.stream, received := s.received ++ r.taken,
        delivered := s.delivered ++ outOf r.result },
      by simp [step, called], .read rfl fun opened' receiving' => ?_⟩
    obtain ⟨r', called', reads'⟩ := pollRead_spec receiving' remaining script
    cases called.symm.trans called'
    exact reads'

theorem sound_step {s s' : Session} {call : Call} {reply : Reply} (h : Sound aead c s)
    (stepped : step aead s call = some (reply, s')) :
    Sound aead c s' ∧ Steps aead c s call reply s' := by
  obtain ⟨reply', s'', stepped', steps⟩ := step_spec h call
  cases stepped.symm.trans stepped'
  refine ⟨?_, steps⟩
  cases steps with
  | idle _ _ sending => exact ⟨sending, h.receiving⟩
  | sealed _ _ _ sending => exact ⟨sending, h.receiving⟩
  | drained _ sending _ => exact ⟨sending, h.receiving⟩
  | read _ reads =>
    obtain ⟨opened, receiving⟩ := h.receiving
    obtain ⟨more, receiving'⟩ := (reads opened receiving).receiving
    exact ⟨h.sending, opened ++ more, receiving'⟩

theorem run_sound {recv send : CipherState} {tr : List (Call × Reply)} {s : Session}
    (run : Run (step aead) (new c recv send) tr s) : Sound aead c s :=
  run.invariant (sound_new aead c recv send) fun h stepped => (sound_step h stepped).1

theorem accept_chunk (accepted : List (List UInt8)) {buf : List UInt8} (nonempty : buf ≠ []) :
    accept accepted buf (.ready (.ok (min buf.length maxPlaintext))) = accepted ++ [chunk buf] := by
  have positive : min buf.length maxPlaintext ≠ 0 := by
    have := List.length_pos_iff.mpr nonempty
    rw [maxPlaintext]
    omega
  obtain ⟨n, hn⟩ := Nat.exists_eq_succ_of_ne_zero positive
  rw [chunk, hn]
  rfl

/-- While no poll loses its frame, the messages sealed are the buffers accepted. -/
theorem sealed_eq_accepted_step {s s' : Session} {call : Call} {reply : Reply}
    (h : s.sealed = s.accepted) (steps : Steps aead c s call reply s')
    (keeps : ¬ LosesFrame s call) : s'.sealed = s'.accepted := by
  cases steps with
  | idle _ _ _ => exact h
  | drained _ _ _ => exact h
  | read _ _ => exact h
  | sealed same nonempty outcome sending =>
    rcases outcome with ⟨lost, -⟩ | ⟨-, ok⟩
    · exact absurd lost keeps
    dsimp only
    rw [ok, h, accept_chunk _ nonempty]

end Session
end HyperionVpn
