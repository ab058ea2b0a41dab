import HyperionVpn.Core.NoiseDelivery

/-! What a write that returns an error leaves behind, and what becomes of it
when the caller goes on and writes the buffer again. -/
namespace HyperionVpn.Session
open Bytes Machine Framing NoiseStream

variable {aead : Aead} {c : CipherState}

/-- The plaintext of the wire and the pending frame. -/
def Encodes (aead : Aead) (c : CipherState) (s : Session) (text : List UInt8) : Prop :=
  ∃ msgs, (∀ msg ∈ msgs, msg.length ≤ maxPlaintext) ∧
    s.wire ++ s.sender.unsent = stream (c.sealAll aead msgs) ∧ msgs.flatten = text

theorem stream_sealAll_injective {a b : List (List UInt8)}
    (smallA : ∀ msg ∈ a, msg.length ≤ maxPlaintext) (smallB : ∀ msg ∈ b, msg.length ≤ maxPlaintext)
    (same : stream (c.sealAll aead a) = stream (c.sealAll aead b)) : a = b := by
  rw [← List.append_nil (stream (c.sealAll aead a))] at same
  obtain ⟨bodies, split, none_left⟩ := stream_split (sealed_fits smallA) (sealed_fits smallB) same
  obtain ⟨rest, rfl, rfl⟩ := CipherState.sealAll_split split
  cases rest with
  | nil => rw [List.append_nil]
  | cons msg rest =>
    have size := congrArg List.length none_left
    simp only [CipherState.sealAll, stream_cons, List.length_nil, List.length_append,
      frame_length] at size
    omega

theorem Sound.encodes {s : Session} (h : Sound aead c s) : Encodes aead c s s.sealed.flatten :=
  ⟨s.sealed, fun msg member => (h.sending.small msg member).2, h.sending.conserved, rfl⟩

/-- A wire has one plaintext. -/
theorem Sound.encodes_unique {s : Session} (h : Sound aead c s) {text : List UInt8}
    (encodes : Encodes aead c s text) : text = s.sealed.flatten := by
  obtain ⟨msgs, small, conserved, rfl⟩ := encodes
  rw [h.sending.conserved] at conserved
  rw [stream_sealAll_injective (fun msg member => (h.sending.small msg member).2) small conserved]

/-- A receiver of the wire is handed a beginning of its plaintext. -/
theorem Sound.delivers {s : Session} (h : Sound aead c s) {receiver : NoiseStream}
    {received delivered : List UInt8} {opened : List (List UInt8)}
    (receiving : Receiving aead c receiver received delivered opened)
    (piped : received <+: s.wire) : delivered <+: s.sealed.flatten := by
  obtain ⟨later, wire⟩ := piped
  have whole : received ++ (later ++ s.sender.unsent) = stream (c.sealAll aead s.sealed) := by
    rw [← List.append_assoc, wire, h.sending.conserved]
  obtain ⟨rest, split, -⟩ :=
    genuine receiving (fun msg member => (h.sending.small msg member).2) whole
  exact delivered_prefix receiving ⟨rest, split.symm⟩

/-- If the write returns an error, the plaintext is what it was, and through
any later calls up to the next failing write it grows only by what the writes
accept, such as that of a retry; so a receiver of the wire is handed nothing
that no write has accepted. -/
def FailsCleanly (aead : Aead) (c : CipherState) (s : Session) (buf : List UInt8)
    (script : List InnerWrite) : Prop :=
  ∀ e s' text, step aead s (.write buf script) = some (.wrote (.ready (.error e)), s') →
    Encodes aead c s text → ∀ tr s'', Run (step aead) s' tr s'' →
      (∀ call e', (call, .wrote (.ready (.error e'))) ∉ tr) →
      ∃ more, s''.accepted = s.accepted ++ more ∧ Encodes aead c s'' (text ++ more.flatten) ∧
        ∀ receiver received delivered opened,
          Receiving aead c receiver received delivered opened → received <+: s''.wire →
            delivered <+: text ++ more.flatten

/-- A call that is no failing write seals what it accepts. -/
theorem extends_step {s s' : Session} {call : Call} {reply : Reply}
    (steps : Steps aead c s call reply s') (fine : ∀ e, reply ≠ .wrote (.ready (.error e))) :
    ∃ more, s'.sealed = s.sealed ++ more ∧ s'.accepted = s.accepted ++ more := by
  cases steps with
  | idle _ _ _ => exact ⟨[], by simp, by simp⟩
  | drained _ _ _ => exact ⟨[], by simp, by simp⟩
  | read _ _ => exact ⟨[], by simp, by simp⟩
  | @sealed buf _ _ _ _ _ nonempty outcome _ =>
    rcases outcome with ⟨-, e, failed⟩ | ⟨-, ok⟩
    · exact absurd (congrArg Reply.wrote failed) (fine e)
    · refine ⟨[chunk buf], rfl, ?_⟩
      dsimp only
      rw [ok, accept_chunk _ nonempty]

theorem extends_run {s s' : Session} {tr : List (Call × Reply)} (sound : Sound aead c s)
    (run : Run (step aead) s tr s') (fine : ∀ call e, (call, .wrote (.ready (.error e))) ∉ tr) :
    Sound aead c s' ∧
      ∃ more, s'.sealed = s.sealed ++ more ∧ s'.accepted = s.accepted ++ more := by
  induction run with
  | nil => exact ⟨sound, [], by simp, by simp⟩
  | @snoc tr m call reply m' _ stepped ih =>
    obtain ⟨sound', more, sealed, accepted⟩ :=
      ih fun call e member => fine call e (List.mem_append_left _ member)
    obtain ⟨sound'', steps⟩ := sound_step sound' stepped
    have last : ∀ e, reply ≠ .wrote (.ready (.error e)) := by
      rintro e rfl
      exact fine call e (by simp)
    obtain ⟨next, sealed', accepted'⟩ := extends_step steps last
    refine ⟨sound'', more ++ next, ?_, ?_⟩
    · rw [sealed', sealed, List.append_assoc]
    · rw [accepted', accepted, List.append_assoc]

/-- A poll that loses its frame has sealed the buffer and returns an error. -/
theorem lost_step {s : Session} (h : Sound aead c s) {buf : List UInt8} {script : List InnerWrite}
    (lost : LosesFrame s (.write buf script)) :
    ∃ e s', step aead s (.write buf script) = some (.wrote (.ready (.error e)), s') ∧
      s'.sealed = s.sealed ++ [chunk buf] ∧ s'.accepted = s.accepted := by
  obtain ⟨nonempty, middle, out, failed⟩ := id lost
  obtain ⟨w, called, wrote⟩ := pollWrite_spec aead s.sender buf script h.sending.bounded
  cases wrote with
  | empty empty _ => exact absurd empty nonempty
  | blocked _ outcome _ _ _ =>
    rcases outcome with ⟨blocked, -⟩ | ⟨blocked, -⟩ <;>
    · rw [out] at blocked
      cases blocked
  | @sealed pending off middle' _ out' outcome _ shape _ =>
    rcases outcome with ⟨-, e, result⟩ | ⟨kept, -⟩
    · have advanced : w.stream.send ≠ s.sender.send := by
        rw [shape]
        exact advance_ne _
      have stepped : step aead s (.write buf script) = some (.wrote (.ready (.error e)),
          { s with
            sender := w.stream, wire := s.wire ++ w.wire, sealed := s.sealed ++ [chunk buf] }) := by
        simp [step, called, result, advanced, accept]
      exact ⟨e, _, stepped, rfl, rfl⟩
    · exact absurd ((losesFrame_iff nonempty out').mp lost) kept

/-- Any other failing write has sealed nothing. -/
theorem kept_step {s s' : Session} {buf : List UInt8} {script : List InnerWrite} {e : StreamError}
    (steps : Steps aead c s (.write buf script) (.wrote (.ready (.error e))) s')
    (kept : ¬ LosesFrame s (.write buf script)) :
    s'.sealed = s.sealed ∧ s'.accepted = s.accepted := by
  generalize failed : Reply.wrote (.ready (.error e)) = reply at steps
  cases steps with
  | idle _ _ _ => exact ⟨rfl, rfl⟩
  | drained _ _ _ => contradiction
  | read _ _ => contradiction
  | sealed _ _ outcome _ =>
    rcases outcome with ⟨lost, -⟩ | ⟨-, ok⟩
    · exact absurd lost kept
    · rw [ok] at failed
      cases failed

theorem not_failsCleanly {s : Session} (h : Sound aead c s) {buf : List UInt8}
    {script : List InnerWrite} (lost : LosesFrame s (.write buf script)) :
    ¬ FailsCleanly aead c s buf script := by
  intro clean
  obtain ⟨e, s', stepped, sealed, accepted⟩ := lost_step h lost
  obtain ⟨more, extends_, encodes, -⟩ :=
    clean e s' _ stepped h.encodes [] s' .nil fun _ _ => List.not_mem_nil
  rw [accepted, List.self_eq_append_right] at extends_
  have text := (sound_step h stepped).1.encodes_unique encodes
  have written := chunk_ne_nil lost.1
  rw [extends_, sealed] at text
  simp only [List.flatten_nil, List.append_nil, List.flatten_append, List.flatten_cons,
    List.self_eq_append_right] at text
  exact written text

/-- A failing write consumes nothing, in any reachable state, exactly unless it
fails on the frame that it has sealed itself. -/
theorem failed_write_consumes_nothing_iff (aead : Aead) (c recv send : CipherState)
    (tr : List (Call × Reply)) (s : Session) (run : Run (step aead) (new c recv send) tr s)
    (buf : List UInt8) (script : List InnerWrite) :
    FailsCleanly aead c s buf script ↔ ¬ LosesFrame s (.write buf script) := by
  have sound := run_sound run
  constructor
  · exact fun clean lost => not_failsCleanly sound lost clean
  · intro kept e s' text stepped encodes tr' s'' later fine
    obtain ⟨sound', steps⟩ := sound_step sound stepped
    obtain ⟨sealed, accepted⟩ := kept_step steps kept
    obtain ⟨sound'', more, sealed', accepted'⟩ := extends_run sound' later fine
    have whole : s''.sealed.flatten = text ++ more.flatten := by
      rw [sealed', sealed, List.flatten_append, sound.encodes_unique encodes]
    refine ⟨more, by rw [accepted', accepted], whole ▸ sound''.encodes, ?_⟩
    intro receiver received delivered opened receiving piped
    exact whole ▸ sound''.delivers receiving piped

/-- The inner stream fails on the old frame, before the new one is sealed. -/
theorem failed_write_consumes_nothing_sample : ∃ tr s,
    Run (step .transparent) (new sampleCipher sampleCipher sampleCipher) tr s ∧
    tr.map Prod.fst = [.write [7] [.pending]] ∧
    FailsCleanly .transparent sampleCipher s [8] [.error ⟨.other, "transient"⟩] := by
  have executed : (exec (step .transparent) (new sampleCipher sampleCipher sampleCipher)
      [.write [7] [.pending]]).map (fun r => r.2.sender.unsent.length) = some 19 := by
    decide +kernel
  obtain ⟨⟨tr, s⟩, executed, size⟩ := Option.map_eq_some_iff.mp executed
  obtain ⟨run, inputs⟩ := exec_run executed
  refine ⟨tr, s, run, inputs, ?_⟩
  rw [failed_write_consumes_nothing_iff _ _ _ _ _ _ run]
  rintro ⟨-, middle, out, -⟩
  dsimp only at size
  rw [size] at out
  cases out

/-- The inner stream fails on the frame of a first write. -/
theorem failed_write_consumed :
    ¬ ∀ (aead : Aead) (c recv send : CipherState) (tr : List (Call × Reply)) (s : Session),
      Run (step aead) (new c recv send) tr s → ∀ buf script, buf ≠ [] →
      FailsCleanly aead c s buf script := by
  intro claim
  have clean := claim .transparent sampleCipher sampleCipher sampleCipher [] _ .nil [7]
    [.error ⟨.other, "transient"⟩] (by decide)
  have sound := sound_new .transparent sampleCipher sampleCipher sampleCipher
  refine not_failsCleanly sound ⟨by decide, _, drain_zero _, ?_⟩ clean
  decide +kernel

end HyperionVpn.Session
