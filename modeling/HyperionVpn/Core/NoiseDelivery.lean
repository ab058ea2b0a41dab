import HyperionVpn.Core.NoiseSession

/-! Delivery over a reliable network: every inner write accepts something or is
pending, and the receiver is handed the wire, piece by piece. -/
namespace HyperionVpn.Session
open Bytes Machine Framing NoiseStream

variable {aead : Aead} {c : CipherState}

/-- The inner stream accepts something or is pending. -/
def Advances : InnerWrite → Prop
  | .pending => True
  | .error _ => False
  | .accept k => 0 < k

instance : DecidablePred Advances
  | .pending => .isTrue trivial
  | .error _ => .isFalse id
  | .accept k => inferInstanceAs (Decidable (0 < k))

/-- A reliable byte pipe: inner writes never fail, and inner reads are pending,
fail in passing, or hand out some of the wire's next bytes. -/
def Reliable (s : Session) : Call → Prop
  | .write _ script | .flush script _ | .shutdown script _ => ∀ answer ∈ script, Advances answer
  | .read _ script => s.received ++ scriptBytes script <+: s.wire ∧ ¬ AtEnd script

instance (s : Session) : DecidablePred (Reliable s)
  | .write _ script | .flush script _ | .shutdown script _ =>
    inferInstanceAs (Decidable (∀ answer ∈ script, Advances answer))
  | .read _ script => inferInstanceAs (Decidable
      (s.received ++ scriptBytes script <+: s.wire ∧ InnerRead.filled [] ∉ script))

theorem drain_reliable {script : List InnerWrite} (reliable : ∀ answer ∈ script, Advances answer)
    (len : Nat) :
    drain len script ≠ .failed ∧ ∀ rest, drain len script = .done rest → rest <:+ script := by
  induction script generalizing len with
  | nil =>
    unfold drain
    split <;> simp
  | cons answer rest ih =>
    unfold drain
    split <;> rename_i left
    · simp
    have advances := reliable answer (by simp)
    cases answer with
    | pending => simp
    | error e => exact advances.elim
    | accept k =>
      dsimp only [Advances] at advances ⊢
      rw [if_neg (by omega)]
      obtain ⟨safe, suffix⟩ := ih (fun e he => reliable e (by simp [he])) (len - min k len)
      exact ⟨safe, fun later out => (suffix later out).trans (List.suffix_cons _ _)⟩

theorem reliable_keeps {s : Session} {call : Call} (h : Reliable s call) : ¬ LosesFrame s call := by
  cases call with
  | write buf script =>
    rintro ⟨-, middle, out, failed⟩
    have suffix := (drain_reliable h _).2 middle out
    exact (drain_reliable (fun e he => h e (suffix.subset he)) _).1 failed
  | flush _ _ => exact id
  | shutdown _ _ => exact id
  | read _ _ => exact id

/-- A sound session over a reliable network. -/
structure Delivering (aead : Aead) (c : CipherState) (s : Session) : Prop where
  sound : Sound aead c s
  sealed_eq : s.sealed = s.accepted
  piped : s.received <+: s.wire

theorem delivering_step {s s' : Session} {call : Call} {reply : Reply} (h : Delivering aead c s)
    (reliable : Reliable s call) (stepped : step aead s call = some (reply, s')) :
    Delivering aead c s' := by
  obtain ⟨sound, steps⟩ := sound_step h.sound stepped
  refine ⟨sound, sealed_eq_accepted_step h.sealed_eq steps (reliable_keeps reliable), ?_⟩
  cases steps with
  | idle _ _ _ => exact h.piped.trans (List.prefix_append _ _)
  | sealed _ _ _ _ => exact h.piped.trans (List.prefix_append _ _)
  | drained _ _ _ => exact h.piped.trans (List.prefix_append _ _)
  | @read remaining script r same reads =>
    subst same
    obtain ⟨opened, receiving⟩ := h.sound.receiving
    have bytes := (reads opened receiving).accounts.bytes
    refine List.IsPrefix.trans ?_ reliable.1
    rw [bytes, ← List.append_assoc]
    exact List.prefix_append _ _

theorem run_delivering {recv send : CipherState} {tr : List (Call × Reply)} {s : Session}
    (run : Run (step aead) (new c recv send) tr s)
    (reliable : Always (step aead) (new c recv send) Reliable tr) : Delivering aead c s := by
  refine run.invariant_always reliable ⟨sound_new aead c recv send, rfl, List.nil_prefix⟩ ?_
  exact fun h ok stepped => delivering_step h ok stepped

/-! What the receiver holds is the beginning of genuine frames. -/

theorem sealed_fits {aead : Aead} {c : CipherState} {msgs : List (List UInt8)}
    (small : ∀ msg ∈ msgs, msg.length ≤ maxPlaintext) :
    ∀ body ∈ c.sealAll aead msgs, body.length < 2 ^ 16 := by
  intro body member
  obtain ⟨msg, member', size⟩ := CipherState.mem_sealAll_length member
  have := small msg member'
  simp only [maxPlaintext] at this
  omega

/-- A receiver on a beginning of genuine frames has opened the first of them,
and its raw buffer begins the others. -/
theorem genuine {s : NoiseStream} {received delivered more : List UInt8}
    {opened sealed : List (List UInt8)} (h : Receiving aead c s received delivered opened)
    (small : ∀ msg ∈ sealed, msg.length ≤ maxPlaintext)
    (same : received ++ more = stream (c.sealAll aead sealed)) :
    ∃ rest, sealed = opened ++ rest ∧
      s.readRaw ++ more = stream ((c.advance opened.length).sealAll aead rest) := by
  rw [h.consumed, List.append_assoc] at same
  obtain ⟨bodies, split, tail⟩ := stream_split (sealed_fits h.small) (sealed_fits small) same
  obtain ⟨rest, whole, rfl⟩ := CipherState.sealAll_split split
  exact ⟨rest, whole, tail⟩

theorem delivered_prefix {s : NoiseStream} {received delivered : List UInt8}
    {opened sealed : List (List UInt8)} (h : Receiving aead c s received delivered opened)
    (first : opened <+: sealed) : delivered <+: sealed.flatten := by
  obtain ⟨rest, rfl⟩ := first
  rw [List.flatten_append, ← h.handed, List.append_assoc]
  exact List.prefix_append _ _

/-- The announced length of a genuine frame is its own. -/
theorem announced_length {a b : UInt8} {held more : List UInt8} {msg : List UInt8} {d : CipherState}
    {rest : List UInt8} (small : msg.length ≤ maxPlaintext)
    (same : (a :: b :: held) ++ more = frame (d.encryptVec aead msg).1 ++ rest) :
    (u16FromBE a b).toNat = msg.length + 16 := by
  have size : (d.encryptVec aead msg).1.length = msg.length + 16 := CipherState.encryptVec_length msg
  rw [← size]
  refine length_prefix ?_ same
  simp only [maxPlaintext] at small
  omega

/-- No genuine frame is refused. -/
theorem genuine_not_poisoned {s : NoiseStream} {received delivered more : List UInt8}
    {opened sealed : List (List UInt8)} (h : Receiving aead c s received delivered opened)
    (small : ∀ msg ∈ sealed, msg.length ≤ maxPlaintext)
    (same : received ++ more = stream (c.sealAll aead sealed)) : ¬ Poisoned aead s := by
  rintro ⟨-, refused⟩
  obtain ⟨rest, rfl, ahead⟩ := genuine h small same
  cases rest with
  | nil =>
    have empty : s.readRaw = [] := (List.append_eq_nil_iff.mp ahead).1
    rcases refused with ⟨-, a, b, held, raw, -⟩ | ⟨set, -⟩
    · rw [empty] at raw
      contradiction
    · obtain ⟨a, b, held, raw, -⟩ := h.announced set
      rw [empty] at raw
      contradiction
  | cons msg rest =>
    have fits := small msg (by simp)
    rcases refused with ⟨-, a, b, held, raw, invalid⟩ | ⟨set, enough, ciphertext, sliced, failed⟩
    · rw [raw] at ahead
      have length := announced_length fits ahead
      refine invalid ⟨?_, ?_⟩ <;> rw [length] <;> simp only [tagLen, maxCiphertext, maxPlaintext] at *
        <;> omega
    · obtain ⟨a, b, held, raw, target, -⟩ := h.announced set
      rw [raw] at ahead
      have length := announced_length fits ahead
      have size : ((c.advance opened.length).encryptVec aead msg).1.length = msg.length + 16 :=
        CipherState.encryptVec_length msg
      rw [← raw] at ahead
      have whole : s.readTarget =
          2 + ((c.advance opened.length).encryptVec aead msg).1.length := by
        rw [target, length, size]
        rfl
      obtain ⟨body, -⟩ := split_frame ahead (whole ▸ enough)
      obtain ⟨-, -, middle⟩ := slice_eq_some.mp sliced
      have genuine : ciphertext = ((c.advance opened.length).encryptVec aead msg).1 := by
        rw [middle, ← body, whole, List.drop_take]
        rfl
      rw [h.counter, genuine, CipherState.decryptVec_encryptVec] at failed
      contradiction

/-- A receiver that is waiting for more at the end of the wire has opened every
frame and handed out all of it. -/
theorem starved_delivered {s : NoiseStream} {received delivered : List UInt8}
    {opened sealed : List (List UInt8)} (h : Receiving aead c s received delivered opened)
    (small : ∀ msg ∈ sealed, msg.length ≤ maxPlaintext)
    (same : received = stream (c.sealAll aead sealed)) (starved : Starved s) :
    delivered = sealed.flatten := by
  obtain ⟨rest, rfl, ahead⟩ := genuine h small (by rwa [List.append_nil])
  rw [List.append_nil] at ahead
  have handed := h.handed
  rw [List.drop_of_length_le starved.1, List.append_nil] at handed
  cases rest with
  | nil => rw [List.append_nil, handed]
  | cons msg rest =>
    exfalso
    have short := starved.2
    have size := congrArg List.length ahead
    simp only [CipherState.sealAll, stream_cons, List.length_append, frame_length,
      CipherState.encryptVec_length] at size
    cases set : s.haveLen with
    | false =>
      simp only [set, Bool.false_eq_true, if_false, lenPrefix] at short
      omega
    | true =>
      obtain ⟨a, b, held, raw, target, -⟩ := h.announced set
      rw [raw, ← List.append_nil (a :: b :: held)] at ahead
      have length := announced_length (small msg (by simp)) ahead
      simp only [set, if_true, target, length, lenPrefix] at short
      omega

variable {s : Session}

theorem Delivering.small (h : Delivering aead c s) :
    ∀ msg ∈ s.accepted, msg.length ≤ maxPlaintext := by
  intro msg member
  exact (h.sound.sending.small msg (h.sealed_eq ▸ member)).2

/-- What the receiver has taken, and what is still to come, are the frames of
the accepted buffers. -/
theorem Delivering.frames (h : Delivering aead c s) :
    ∃ more, s.received ++ more = stream (c.sealAll aead s.accepted) := by
  obtain ⟨rest, piped⟩ := h.piped
  refine ⟨rest ++ s.sender.unsent, ?_⟩
  rw [← List.append_assoc, piped, h.sound.sending.conserved, h.sealed_eq]

theorem Delivering.prefix (h : Delivering aead c s) : s.delivered <+: s.accepted.flatten := by
  obtain ⟨opened, receiving⟩ := h.sound.receiving
  obtain ⟨more, same⟩ := h.frames
  obtain ⟨rest, whole, -⟩ := genuine receiving h.small same
  exact delivered_prefix receiving ⟨rest, whole.symm⟩

/-- All accepted bytes are on the wire. -/
def Flushed (aead : Aead) (c : CipherState) (s : Session) : Prop :=
  s.wire = stream (c.sealAll aead s.accepted)

theorem flushed_of_drained {s' : Session} {call : Call} (h : Delivering aead c s)
    (reliable : Reliable s call)
    (stepped : step aead s call = some (.drained (.ready (.ok ())), s')) : Flushed aead c s' := by
  have after := delivering_step h reliable stepped
  obtain ⟨-, steps⟩ := sound_step h.sound stepped
  cases steps with
  | drained _ _ out =>
    have conserved := after.sound.sending.conserved
    rw [out rfl, List.append_nil] at conserved
    rw [Flushed, conserved, after.sealed_eq]

/-- A read that is left waiting at the end of the flushed wire. -/
theorem delivered_of_pending {s' : Session} {remaining : Nat} {script : List InnerRead}
    (h : Delivering aead c s) (reliable : Reliable s (.read remaining script))
    (stepped : step aead s (.read remaining script) = some (.read .pending, s'))
    (out : Flushed aead c s') (exhausted : s'.received = s'.wire) :
    s'.delivered = s'.accepted.flatten := by
  have after := delivering_step h reliable stepped
  obtain ⟨-, steps⟩ := sound_step h.sound stepped
  generalize pending : Reply.read .pending = reply at steps
  cases steps with
  | idle _ _ _ => contradiction
  | sealed _ _ _ _ => contradiction
  | drained _ _ _ => contradiction
  | @read remaining script r same reads =>
    obtain ⟨opened, receiving⟩ := h.sound.receiving
    obtain ⟨-, ⟨more, receiving'⟩, stops⟩ := reads opened receiving
    simp only [Reply.read.injEq] at pending
    rw [← pending] at stops
    have waiting : Starved r.stream ∧ _ := stops
    exact starved_delivered receiving' after.small (exhausted.trans out) waiting.1

/-- A read into a nonempty buffer while the network hands out what there is. -/
def Eager (s : Session) : Call → Prop
  | .read remaining script => 0 < remaining ∧
      ((s.received = s.wire ∧ script = []) ∨ ∃ piece, piece ≠ [] ∧ script = [.filled piece])
  | _ => False

/-- The bytes still to be taken from the wire and to be handed out. -/
def remainder (s : Session) : Nat :=
  (s.wire.length - s.received.length) + (s.accepted.flatten.length - s.delivered.length)

theorem eager_step {s' : Session} {call : Call} {reply : Reply} (h : Delivering aead c s)
    (out : Flushed aead c s) (reliable : Reliable s call) (eager : Eager s call)
    (stepped : step aead s call = some (reply, s')) :
    s'.wire = s.wire ∧ s'.accepted = s.accepted ∧
      (s'.delivered = s.accepted.flatten ∨ s'.remainder < s.remainder) := by
  have after := delivering_step h reliable stepped
  obtain ⟨-, steps⟩ := sound_step h.sound stepped
  cases steps with
  | idle same _ _ => subst same; exact eager.elim
  | sealed same _ _ _ => subst same; exact eager.elim
  | drained other _ _ =>
    cases call with
    | read remaining script => exact absurd rfl (other remaining script)
    | write _ _ => exact eager.elim
    | flush _ _ => exact eager.elim
    | shutdown _ _ => exact eager.elim
  | @read remaining script r same reads =>
    subst same
    refine ⟨rfl, rfl, ?_⟩
    obtain ⟨room, offer⟩ := eager
    obtain ⟨opened, receiving⟩ := h.sound.receiving
    obtain ⟨accounts, ⟨more, receiving'⟩, stops⟩ := reads opened receiving
    obtain ⟨frames, same⟩ := after.frames
    have handed := after.prefix.length_le
    have taken := after.piped.length_le
    simp only [List.length_append] at handed taken
    -- The answers that a poll could have ended with are not in the script.
    have answers : ∀ answer ∈ script, ∃ piece, piece ≠ [] ∧ answer = .filled piece := by
      rcases offer with ⟨-, rfl⟩ | ⟨piece, nonempty, rfl⟩
      · simp
      · simp [nonempty]
    have noEnd : ¬ AtEnd script := reliable.2
    unfold Stops at stops
    split at stops
    · have ended : r.rest = [] := by
        refine stops.2.resolve_right fun member => ?_
        obtain ⟨piece, -, same⟩ := answers _ member
        contradiction
      have bytes := accounts.bytes
      rw [ended] at bytes
      rcases offer with ⟨exhausted, rfl⟩ | ⟨piece, nonempty, rfl⟩
      · have nothing : r.taken = [] := (List.append_eq_nil_iff.mp bytes.symm).1
        have whole : s.received ++ r.taken = stream (c.sealAll aead s.accepted) := by
          rw [nothing, List.append_nil, exhausted, out]
        exact .inl (starved_delivered receiving' h.small whole stops.1)
      · have size := congrArg List.length bytes
        have positive := List.length_pos_iff.mpr nonempty
        simp only [scriptBytes, List.flatMap_cons, List.flatMap_nil, List.append_nil,
          List.length_take, fillCapacity] at size
        right
        simp only [remainder, List.length_append]
        omega
    · rename_i out result
      rw [result] at handed ⊢
      have nonempty : out ≠ [] := by
        rcases stops with ⟨-, -, -, ended⟩ | grown
        · exact absurd ended noEnd
        · exact grown room
      have positive := List.length_pos_iff.mpr nonempty
      right
      simp only [outOf] at handed
      simp only [remainder, List.length_append, outOf]
      omega
    · obtain ⟨piece, -, same⟩ := answers _ stops
      contradiction
    · exact absurd stops.2.2 noEnd
    · exact absurd stops (genuine_not_poisoned receiving' after.small same)
    · exact stops.elim

theorem delivered_grows {s' : Session} {call : Call} {reply : Reply}
    (steps : Steps aead c s call reply s') : s.delivered <+: s'.delivered := by
  cases steps with
  | idle _ _ _ => exact List.prefix_rfl
  | sealed _ _ _ _ => exact List.prefix_rfl
  | drained _ _ _ => exact List.prefix_rfl
  | read _ _ => exact List.prefix_append _ _

/-- Eager reads work off the remainder, however the wire is cut into pieces. -/
theorem eager_run {s' : Session} {reads : List (Call × Reply)} (h : Delivering aead c s)
    (out : Flushed aead c s) (run : Run (step aead) s reads s')
    (eager : Always (step aead) s (fun m call => Reliable m call ∧ Eager m call) reads) :
    Delivering aead c s' ∧ s'.wire = s.wire ∧ s'.accepted = s.accepted ∧
      (s'.delivered = s.accepted.flatten ∨ s'.remainder + reads.length ≤ s.remainder) := by
  induction run with
  | nil => exact ⟨h, rfl, rfl, .inr le_rfl⟩
  | @snoc reads m call reply m' left stepped ih =>
    obtain ⟨delivering, wire, accepted, progress⟩ := ih eager.prefix
    obtain ⟨reliable, wants⟩ := eager.last left
    have flushed : Flushed aead c m := by rw [Flushed, wire, accepted, out]
    obtain ⟨wire', accepted', progress'⟩ := eager_step delivering flushed reliable wants stepped
    have after := delivering_step delivering reliable stepped
    refine ⟨after, wire'.trans wire, accepted'.trans accepted, ?_⟩
    rw [accepted] at progress'
    rcases progress with full | shrunk
    · have grows := delivered_grows (sound_step delivering.sound stepped).2
      have bounded := after.prefix
      rw [accepted', accepted] at bounded
      rw [full] at grows
      exact .inl (bounded.eq_of_length_le grows.length_le)
    · refine progress'.imp_right fun less => ?_
      rw [List.length_append, List.length_singleton]
      omega

/-- Over a reliable network no poll panics, the delivered bytes are the
beginning of the accepted ones, each accepted buffer is sealed once and in
order, a successful flush leaves nothing behind, and reading on delivers all. -/
theorem exact_delivery (aead : Aead) (c recv send : CipherState) (tr : List (Call × Reply))
    (s : Session) (run : Run (step aead) (new c recv send) tr s)
    (reliable : Always (step aead) (new c recv send) Reliable tr) :
    (∀ call, ∃ reply s', step aead s call = some (reply, s')) ∧
    s.delivered <+: s.accepted.flatten ∧
    s.wire ++ s.sender.unsent = stream (c.sealAll aead s.accepted) ∧
    s.sender.send = c.advance s.accepted.length ∧
    (∀ before call, tr = before ++ [(call, .drained (.ready (.ok ())))] → Flushed aead c s) ∧
    (Flushed aead c s →
      (∀ before remaining script, tr = before ++ [(.read remaining script, .read .pending)] →
        s.received = s.wire → s.delivered = s.accepted.flatten) ∧
      ∀ reads s', Run (step aead) s reads s' →
        Always (step aead) s (fun m call => Reliable m call ∧ Eager m call) reads →
        s.remainder < reads.length → s'.delivered = s.accepted.flatten) := by
  have h := run_delivering run reliable
  refine ⟨?_, h.prefix, ?_, ?_, ?_, ?_⟩
  · intro call
    obtain ⟨reply, s', stepped, -⟩ := step_spec h.sound call
    exact ⟨reply, s', stepped⟩
  · rw [h.sound.sending.conserved, h.sealed_eq]
  · rw [h.sound.sending.counter, h.sealed_eq]
  · rintro before call rfl
    obtain ⟨m, left, stepped⟩ := run.last_step
    exact flushed_of_drained (run_delivering left reliable.prefix) (reliable.last left) stepped
  · intro out
    constructor
    · rintro before remaining script rfl exhausted
      obtain ⟨m, left, stepped⟩ := run.last_step
      exact delivered_of_pending (run_delivering left reliable.prefix) (reliable.last left) stepped
        out exhausted
    · intro reads s' run' eager enough
      obtain ⟨-, -, -, full | shrunk⟩ := eager_run h out run' eager
      · exact full
      · omega

/-! One frame, written and read in pieces. -/

def sampleCipher : CipherState := ⟨.replicate 32 3, 0⟩

def sampleDelivery : List Call :=
  [.write [1, 2, 3] [.accept 5, .pending], .flush [.accept 100] .ok,
   .read 2 [.filled [0], .pending], .read 2 [.error ⟨.other, "transient"⟩],
   .read 2 [.filled ([19, 1, 2, 3] ++ List.replicate 16 102)]]

theorem exact_delivery_sample : ∃ tr s,
    Run (step .transparent) (new sampleCipher sampleCipher sampleCipher) tr s ∧
    tr.map Prod.fst = sampleDelivery ∧ s.delivered <+: s.accepted.flatten := by
  have executed : (exec (step .transparent) (new sampleCipher sampleCipher sampleCipher)
      sampleDelivery).isSome = true := by decide +kernel
  obtain ⟨⟨tr, s⟩, executed⟩ := Option.isSome_iff_exists.mp executed
  obtain ⟨run, inputs⟩ := exec_run executed
  have checked : checkAll (step .transparent) Reliable
      (new sampleCipher sampleCipher sampleCipher) sampleDelivery = true := by decide +kernel
  have reliable := Always.of_checkAll checked run inputs
  exact ⟨tr, s, run, inputs, (exact_delivery _ _ _ _ tr s run reliable).2.1⟩

example : (exec (step .transparent) (new sampleCipher sampleCipher sampleCipher)
    sampleDelivery).map (fun r => r.2.delivered) = some [1, 2] := by decide +kernel

end HyperionVpn.Session
