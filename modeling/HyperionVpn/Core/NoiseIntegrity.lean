import HyperionVpn.Core.NoiseDelivery

/-! An active network puts arbitrary bytes on the receiver's wire. What opens
is then the peer's, by the authenticity of its ciphertexts, and in order, by
the counter; but a write that failed may have sealed its buffer all the same. -/
namespace HyperionVpn.Session
open Bytes Machine Framing NoiseStream

variable {aead : Aead} {c : CipherState}

/-- At counter `i`, up to the peer's next, only the ciphertext that the peer
produced there opens, of all that the network has shown the receiver. -/
def Unforged (aead : Aead) (c : CipherState) (s : Session) : Call → Prop
  | .read _ script => ∀ i ≤ s.sealed.length, ∀ ciphertext,
      ciphertext <:+: s.received ++ scriptBytes script →
      ((c.advance i).decryptVec aead ciphertext).isSome = true →
      ∃ msg, s.sealed[i]? = some msg ∧ ciphertext = ((c.advance i).encryptVec aead msg).1
  | _ => True

/-- What opens is what the peer sealed. -/
def Authentic (aead : Aead) (c : CipherState) (s : Session) : Prop :=
  ∃ opened, Receiving aead c s.receiver s.received s.delivered opened ∧ opened <+: s.sealed

theorem opened_prefix {s : Session} {remaining : Nat} {script : List InnerRead} {seen : List UInt8}
    {receiver : NoiseStream} {delivered : List UInt8} {opened : List (List UInt8)}
    (ideal : Unforged aead c s (.read remaining script))
    (shown : seen <+: s.received ++ scriptBytes script)
    (receiving : Receiving aead c receiver seen delivered opened) : opened <+: s.sealed := by
  have matched (i : Nat) (bound : i < opened.length) (counted : i ≤ s.sealed.length) :
      s.sealed[i]? = some opened[i] := by
    have entry : (c.sealAll aead opened)[i]? =
        some ((c.advance i).encryptVec aead opened[i]).1 := by
      rw [CipherState.getElem?_sealAll, List.getElem?_eq_getElem bound]
      rfl
    have inside : ((c.advance i).encryptVec aead opened[i]).1 <:+:
        s.received ++ scriptBytes script := by
      have body := body_infix (List.mem_of_getElem? entry)
      have front : stream (c.sealAll aead opened) <+: seen := ⟨receiver.readRaw, receiving.consumed.symm⟩
      exact body.trans (front.trans shown).isInfix
    obtain ⟨msg, found, same⟩ := ideal i counted _ inside
      (by rw [CipherState.decryptVec_encryptVec]; rfl)
    rw [found, aead.encrypt_injective same]
  apply List.prefix_iff_getElem?.mpr
  intro i bound
  induction i with
  | zero => exact matched 0 bound (Nat.zero_le _)
  | succ i ih =>
    obtain ⟨counted, -⟩ := List.getElem?_eq_some_iff.mp (ih (by omega))
    exact matched (i + 1) bound counted

theorem authentic_step {s s' : Session} {call : Call} {reply : Reply} (sound : Sound aead c s)
    (h : Authentic aead c s) (ideal : Unforged aead c s call)
    (stepped : step aead s call = some (reply, s')) : Authentic aead c s' := by
  obtain ⟨-, steps⟩ := sound_step sound stepped
  obtain ⟨opened, receiving, first⟩ := h
  cases steps with
  | idle _ _ _ => exact ⟨opened, receiving, first⟩
  | sealed _ _ _ _ => exact ⟨opened, receiving, first.trans (List.prefix_append _ _)⟩
  | drained _ _ _ => exact ⟨opened, receiving, first⟩
  | @read remaining script r same reads =>
    subst same
    obtain ⟨accounts, ⟨more, receiving'⟩, -⟩ := reads opened receiving
    have shown : s.received ++ r.taken <+: s.received ++ scriptBytes script := by
      rw [accounts.bytes, ← List.append_assoc]
      exact List.prefix_append _ _
    have first' : opened ++ more <+: s.sealed := opened_prefix ideal shown receiving'
    exact ⟨opened ++ more, receiving', first'⟩

/-- A call to a receiver that has refused a frame: no read delivers anything. -/
theorem poisoned_step {s s' : Session} {call : Call} {reply : Reply} (sound : Sound aead c s)
    (h : Poisoned aead s.receiver) (stepped : step aead s call = some (reply, s')) :
    Poisoned aead s'.receiver ∧ s'.delivered = s.delivered ∧
      ∀ remaining script, call = .read remaining script →
        ∃ message, reply = .read (.ready (.error (.invalidData message))) := by
  by_cases reading : ∃ remaining script, call = .read remaining script
  · obtain ⟨remaining, script, rfl⟩ := reading
    obtain ⟨message, called⟩ := pollRead_poisoned h remaining script
    simp only [step, called, Option.bind_eq_bind, Option.bind_some] at stepped
    cases stepped
    exact ⟨h, List.append_nil _, fun _ _ _ => ⟨message, rfl⟩⟩
  · have other : ∀ remaining script, call ≠ .read remaining script :=
      fun remaining script same => reading ⟨remaining, script, same⟩
    obtain ⟨-, steps⟩ := sound_step sound stepped
    cases steps with
    | idle _ _ _ => exact ⟨h, rfl, fun _ _ same => absurd same (other _ _)⟩
    | sealed _ _ _ _ => exact ⟨h, rfl, fun _ _ same => absurd same (other _ _)⟩
    | drained _ _ _ => exact ⟨h, rfl, fun _ _ same => absurd same (other _ _)⟩
    | read same _ => exact absurd same (other _ _)

/-- From a refused frame on every read is refused, and nothing more is delivered. -/
theorem poisoned_run {s s' : Session} {tr : List (Call × Reply)} (sound : Sound aead c s)
    (h : Poisoned aead s.receiver) (run : Run (step aead) s tr s') :
    Sound aead c s' ∧ Poisoned aead s'.receiver ∧ s'.delivered = s.delivered ∧
      ∀ remaining script reply, (.read remaining script, reply) ∈ tr →
        ∃ message, reply = .read (.ready (.error (.invalidData message))) := by
  induction run with
  | nil => exact ⟨sound, h, rfl, by simp⟩
  | @snoc tr m call reply m' left stepped ih =>
    obtain ⟨sound', poisoned, same, refused⟩ := ih
    obtain ⟨poisoned', same', refused'⟩ := poisoned_step sound' poisoned stepped
    refine ⟨(sound_step sound' stepped).1, poisoned', same'.trans same, ?_⟩
    intro remaining script reply' member
    rcases List.mem_append.mp member with old | new
    · exact refused remaining script reply' old
    · cases List.mem_singleton.mp new
      exact refused' remaining script rfl

theorem refused_poisons {s s' : Session} {call : Call} {message : String} (sound : Sound aead c s)
    (stepped : step aead s call = some (.read (.ready (.error (.invalidData message))), s')) :
    Poisoned aead s'.receiver := by
  obtain ⟨-, steps⟩ := sound_step sound stepped
  generalize refused : Reply.read (.ready (.error (.invalidData message))) = reply at steps
  cases steps with
  | idle _ _ _ => contradiction
  | sealed _ _ _ _ => contradiction
  | drained _ _ _ => contradiction
  | @read remaining script r same reads =>
    obtain ⟨opened, receiving⟩ := sound.receiving
    have stops := (reads opened receiving).stops
    simp only [Reply.read.injEq] at refused
    rw [← refused] at stops
    exact stops

/-- The receiver delivers a beginning of what the peer's writes accepted, and
from a refused frame on every read is refused and delivers nothing. -/
def Intact (aead : Aead) (init : Session) (tr : List (Call × Reply)) (s : Session) : Prop :=
  s.delivered <+: s.accepted.flatten ∧
    ∀ before call message after m, tr = before ++
        (call, .read (.ready (.error (.invalidData message)))) :: after →
      Run (step aead) init
        (before ++ [(call, .read (.ready (.error (.invalidData message))))]) m →
      s.delivered = m.delivered ∧ ∀ remaining script reply, (.read remaining script, reply) ∈ after →
        ∃ message, reply = .read (.ready (.error (.invalidData message)))

theorem refusal_is_final {recv send : CipherState} {before after : List (Call × Reply)} {call : Call}
    {message : String} {s m : Session}
    (run : Run (step aead) (new c recv send)
      (before ++ (call, .read (.ready (.error (.invalidData message)))) :: after) s)
    (left : Run (step aead) (new c recv send)
      (before ++ [(call, .read (.ready (.error (.invalidData message))))]) m) :
    s.delivered = m.delivered ∧ ∀ remaining script reply, (.read remaining script, reply) ∈ after →
      ∃ message, reply = .read (.ready (.error (.invalidData message))) := by
  obtain ⟨m₁, m₂, left₁, stepped, right⟩ := run.at_step
  obtain ⟨-, rfl⟩ := left.functional (left₁.snoc stepped) rfl
  have poisoned := refused_poisons (run_sound left₁) stepped
  obtain ⟨-, -, same, refused⟩ := poisoned_run (run_sound left) poisoned right
  exact ⟨same, refused⟩

/-- Runs in which no write of the peer fails on its own frame are intact. -/
theorem intact_while_frames_kept (aead : Aead) (c recv send : CipherState)
    (tr : List (Call × Reply)) (s : Session) (run : Run (step aead) (new c recv send) tr s)
    (ideal : Always (step aead) (new c recv send) (Unforged aead c) tr)
    (kept : Always (step aead) (new c recv send) (fun m call => ¬ LosesFrame m call) tr) :
    Intact aead (new c recv send) tr s := by
  constructor
  · have authentic : Sound aead c s ∧ Authentic aead c s := by
      refine Run.invariant_always (P := fun m => Sound aead c m ∧ Authentic aead c m) run ideal
        ⟨sound_new aead c recv send, [], receiving_new aead send c, List.nil_prefix⟩ ?_
      exact fun h ok stepped => ⟨(sound_step h.1 stepped).1, authentic_step h.1 h.2 ok stepped⟩
    have keeping : Sound aead c s ∧ s.sealed = s.accepted := by
      refine Run.invariant_always (P := fun m => Sound aead c m ∧ m.sealed = m.accepted) run kept
        ⟨sound_new aead c recv send, rfl⟩ ?_
      intro m call reply m' h ok stepped
      obtain ⟨sound, steps⟩ := sound_step h.1 stepped
      exact ⟨sound, sealed_eq_accepted_step h.2 steps ok⟩
    obtain ⟨opened, receiving, first⟩ := authentic.2
    exact delivered_prefix receiving (keeping.2 ▸ first)
  · rintro before call message after m rfl left
    exact refusal_is_final run left

/-! A peer whose write fails on the wire, and one whose writes go through. -/

instance (aead : Aead) (c : CipherState) (s : Session) : DecidablePred (Unforged aead c s)
  | .write _ _ | .flush _ _ | .shutdown _ _ => .isTrue trivial
  | .read _ script => decidable_of_iff
      (∀ i ∈ List.range (s.sealed.length + 1), ∀ tail ∈ (s.received ++ scriptBytes script).tails,
        ∀ ciphertext ∈ tail.inits, ((c.advance i).decryptVec aead ciphertext).isSome = true →
          s.sealed[i]?.map (fun msg => ((c.advance i).encryptVec aead msg).1) = some ciphertext)
      (by
        simp only [Unforged, List.mem_range, List.mem_tails, List.mem_inits, Nat.lt_succ_iff,
          Option.map_eq_some_iff]
        constructor
        · intro checked i counted ciphertext inside opens
          obtain ⟨tail, first, last⟩ := List.infix_iff_prefix_suffix.mp inside
          obtain ⟨msg, found, same⟩ := checked i counted tail last ciphertext first opens
          exact ⟨msg, found, same.symm⟩
        · intro ideal i counted tail last ciphertext first opens
          have inside := List.infix_iff_prefix_suffix.mpr ⟨tail, first, last⟩
          obtain ⟨msg, found, same⟩ := ideal i counted ciphertext inside opens
          exact ⟨msg, found, same.symm⟩)

instance (s : Session) : DecidablePred (LosesFrame s)
  | .flush _ _ | .shutdown _ _ | .read _ _ => .isFalse id
  | .write buf script =>
    match h : drain s.sender.unsent.length script with
    | .done middle => decidable_of_iff
        (buf ≠ [] ∧ drain (lenPrefix + min buf.length maxPlaintext + tagLen) middle = .failed)
        ⟨fun ⟨nonempty, failed⟩ => ⟨nonempty, middle, h, failed⟩, fun ⟨nonempty, middle', out, failed⟩ => by
          cases h.symm.trans out
          exact ⟨nonempty, failed⟩⟩
    | .pending | .failed => .isFalse fun ⟨_, _, out, _⟩ => by
        rw [h] at out
        contradiction

/-- The frame of the one-byte message `7`. -/
def sampleWire : List UInt8 := [0, 17, 7] ++ List.replicate 16 103

/-- The inner stream fails once, right after the write has sealed its frame. -/
def sampleFailure : List Call :=
  [.write [7] [.error ⟨.other, "transient"⟩], .flush [.accept 100] .ok,
   .read 5 [.filled sampleWire]]

/-- The write goes through, and the network adds a frame that is too short. -/
def sampleInjection : List Call :=
  [.write [7] [.accept 100], .read 5 [.filled sampleWire], .read 5 [.filled [0, 3]],
   .read 5 []]

theorem failed_write_delivered :
    ¬ ∀ (aead : Aead) (c recv send : CipherState) (tr : List (Call × Reply)) (s : Session),
      Run (step aead) (new c recv send) tr s →
      Always (step aead) (new c recv send) (Unforged aead c) tr →
      Intact aead (new c recv send) tr s := by
  intro claim
  have executed : (exec (step .transparent) (new sampleCipher sampleCipher sampleCipher)
      sampleFailure).map (fun r => (r.2.delivered, r.2.accepted)) = some ([7], []) := by
    decide +kernel
  obtain ⟨⟨tr, s⟩, executed, result⟩ := Option.map_eq_some_iff.mp executed
  obtain ⟨run, inputs⟩ := exec_run executed
  have checked : checkAll (step .transparent) (Unforged .transparent sampleCipher)
      (new sampleCipher sampleCipher sampleCipher) sampleFailure = true := by decide +kernel
  have intact := claim _ _ _ _ tr s run (Always.of_checkAll checked run inputs)
  have first := intact.1
  simp only [Prod.mk.injEq] at result
  rw [result.1, result.2] at first
  simp at first

theorem intact_while_frames_kept_sample : ∃ tr s,
    Run (step .transparent) (new sampleCipher sampleCipher sampleCipher) tr s ∧
    tr.map Prod.fst = sampleInjection ∧
    Intact .transparent (new sampleCipher sampleCipher sampleCipher) tr s := by
  have executed : (exec (step .transparent) (new sampleCipher sampleCipher sampleCipher)
      sampleInjection).isSome = true := by decide +kernel
  obtain ⟨⟨tr, s⟩, executed⟩ := Option.isSome_iff_exists.mp executed
  obtain ⟨run, inputs⟩ := exec_run executed
  have ideal : checkAll (step .transparent) (Unforged .transparent sampleCipher)
      (new sampleCipher sampleCipher sampleCipher) sampleInjection = true := by decide +kernel
  have kept : checkAll (step .transparent) (fun m call => ¬ LosesFrame m call)
      (new sampleCipher sampleCipher sampleCipher) sampleInjection = true := by decide +kernel
  exact ⟨tr, s, run, inputs, intact_while_frames_kept _ _ _ _ tr s run
    (Always.of_checkAll ideal run inputs) (Always.of_checkAll kept run inputs)⟩

end HyperionVpn.Session
