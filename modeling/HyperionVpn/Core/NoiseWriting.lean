import HyperionVpn.Core.Noise

/-! The writing half of the stream: what one poll puts on the wire and leaves
in the pending frame, for every behaviour of the inner stream. -/
namespace HyperionVpn.NoiseStream
open Bytes Framing

variable {aead : Aead}

/-- What the inner stream has still to accept of the pending frame. -/
def unsent (s : NoiseStream) : List UInt8 := s.writePending.drop s.writeOff

/-- The stream with another pending frame; all that a flush can change. -/
def pend (s : NoiseStream) (writePending : List UInt8) (writeOff : Nat) : NoiseStream :=
  { s with writePending, writeOff }

inductive Drained where
  | pending
  | failed
  | done (rest : List InnerWrite)
  deriving DecidableEq, Repr

/-- How far the inner stream gets with this many bytes to accept. -/
def drain (len : Nat) (script : List InnerWrite) : Drained :=
  if len = 0 then .done script
  else
    match script with
    | [] | .pending :: _ => .pending
    | .error _ :: _ => .failed
    | .accept k :: rest => if min k len = 0 then .failed else drain (len - min k len) rest

@[simp] theorem drain_zero (script : List InnerWrite) : drain 0 script = .done script := by
  unfold drain
  rfl

@[simp] theorem unsent_length (s : NoiseStream) :
    s.unsent.length = s.writePending.length - s.writeOff :=
  List.length_drop

@[simp] theorem unsent_pend (s : NoiseStream) (pending : List UInt8) (off : Nat) :
    (s.pend pending off).unsent = pending.drop off := rfl

/-- A flush moves bytes from the pending frame to the wire, in order, and
stops as the inner stream's answers say. -/
structure Flushed (s : NoiseStream) (script : List InnerWrite) (w : Writing Unit) : Prop where
  conserved : w.wire ++ w.stream.unsent = s.unsent
  frame_only : ∃ pending off, off ≤ pending.length ∧ w.stream = s.pend pending off
  result : match w.result with
    | .pending => drain s.unsent.length script = .pending
    | .ready (.ok ()) => drain s.unsent.length script = .done w.rest ∧ w.stream.unsent = []
    | .ready (.error _) => drain s.unsent.length script = .failed

theorem pollFlushPending_idle {s : NoiseStream} {script : List InnerWrite}
    (idle : s.writePending.length ≤ s.writeOff) :
    s.pollFlushPending script = some ⟨.ready (.ok ()), s.pend [] 0, [], script⟩ := by
  unfold pollFlushPending
  rw [if_neg (by omega)]
  rfl

theorem pollFlushPending_accept {s : NoiseStream} {k : Nat} {rest : List InnerWrite}
    (busy : s.writeOff < s.writePending.length) :
    s.pollFlushPending (.accept k :: rest) =
      if min k s.unsent.length = 0 then some ⟨.ready (.error .writeZero), s, [], rest⟩
      else ((s.pend s.writePending (s.writeOff + min k s.unsent.length)).pollFlushPending rest).map
        fun later => { later with wire := s.unsent.take (min k s.unsent.length) ++ later.wire } := by
  have offered : slice s.writePending s.writeOff s.writePending.length = some s.unsent := by
    rw [slice_of_le busy.le le_rfl, List.take_of_length_le (by simp)]
    rfl
  rw [pollFlushPending, if_pos busy]
  simp only [offered, Option.bind_eq_bind, Option.bind_some]
  split
  · rfl
  · rw [Option.map_eq_bind]
    rfl

theorem pollFlushPending_spec (s : NoiseStream) (script : List InnerWrite)
    (bounded : s.writeOff ≤ s.writePending.length) :
    ∃ w, s.pollFlushPending script = some w ∧ Flushed s script w := by
  have same (s : NoiseStream) : s = s.pend s.writePending s.writeOff := rfl
  induction script generalizing s with
  | nil =>
    by_cases busy : s.writeOff < s.writePending.length
    · refine ⟨⟨.pending, s, [], []⟩, by rw [pollFlushPending, if_pos busy], rfl,
        ⟨_, _, bounded, same s⟩, ?_⟩
      rw [drain, if_neg (by simp; omega)]
    · have idle : s.unsent = [] := List.drop_of_length_le (by omega)
      exact ⟨_, pollFlushPending_idle (by omega), by simp [idle], ⟨[], 0, le_rfl, rfl⟩,
        by simp [idle, -unsent_length]⟩
  | cons answer rest ih =>
    by_cases busy : s.writeOff < s.writePending.length
    swap
    · have idle : s.unsent = [] := List.drop_of_length_le (by omega)
      exact ⟨_, pollFlushPending_idle (by omega), by simp [idle], ⟨[], 0, le_rfl, rfl⟩,
        by simp [idle, -unsent_length]⟩
    have some_left : ¬ s.unsent.length = 0 := by rw [unsent_length]; omega
    cases answer with
    | pending =>
      refine ⟨⟨.pending, s, [], rest⟩, by rw [pollFlushPending, if_pos busy], rfl,
        ⟨_, _, bounded, same s⟩, ?_⟩
      rw [drain, if_neg some_left]
    | error e =>
      refine ⟨⟨.ready (.error (.inner e)), s, [], rest⟩, by rw [pollFlushPending, if_pos busy], rfl,
        ⟨_, _, bounded, same s⟩, ?_⟩
      rw [drain, if_neg some_left]
    | accept k =>
      rw [pollFlushPending_accept busy]
      by_cases nothing : min k s.unsent.length = 0
      · rw [if_pos nothing]
        refine ⟨_, rfl, rfl, ⟨_, _, bounded, same s⟩, ?_⟩
        rw [drain, if_neg some_left, if_pos nothing]
      rw [if_neg nothing]
      obtain ⟨later, flushed, spec⟩ := ih (s.pend s.writePending (s.writeOff + min k s.unsent.length))
        (by rw [unsent_length]; simp only [pend]; omega)
      rw [flushed]
      have left : (s.pend s.writePending (s.writeOff + min k s.unsent.length)).unsent =
          s.unsent.drop (min k s.unsent.length) := by
        rw [unsent_pend, unsent, List.drop_drop]
      have further : drain s.unsent.length (.accept k :: rest) =
          drain (s.unsent.drop (min k s.unsent.length)).length rest := by
        rw [drain, if_neg some_left, if_neg nothing, List.length_drop]
      refine ⟨_, rfl, ?_, spec.frame_only, ?_⟩
      · rw [List.append_assoc, spec.conserved, left, List.take_append_drop]
      · have result := spec.result
        rw [left] at result
        rw [further]
        exact result

/-- The part of a buffer that one frame takes. -/
def chunk (buf : List UInt8) : List UInt8 := buf.take (min buf.length maxPlaintext)

theorem chunk_length (buf : List UInt8) : (chunk buf).length = min buf.length maxPlaintext := by
  rw [chunk, List.length_take]
  omega

/-- The frame that a write of the buffer puts after the pending one. -/
def nextFrame (aead : Aead) (s : NoiseStream) (buf : List UInt8) : List UInt8 :=
  frame (s.send.encryptVec aead (chunk buf)).1

theorem nextFrame_length (s : NoiseStream) (buf : List UInt8) :
    (s.nextFrame aead buf).length = 18 + min buf.length maxPlaintext := by
  rw [nextFrame, frame_length, CipherState.encryptVec_length, chunk_length]
  omega

/-- The ways a write can end. The buffer is sealed once the pending frame is
out, whatever then happens to the new frame. -/
inductive Writes (aead : Aead) (s : NoiseStream) (buf : List UInt8) (script : List InnerWrite)
    (w : Writing Nat) : Prop where
  | empty : buf = [] → w = ⟨.ready (.ok 0), s, [], script⟩ → Writes aead s buf script w
  | blocked {pending : List UInt8} {off : Nat} : buf ≠ [] →
      (drain s.unsent.length script = .pending ∧ w.result = .pending ∨
        drain s.unsent.length script = .failed ∧ ∃ e, w.result = .ready (.error e)) →
      off ≤ pending.length → w.stream = s.pend pending off →
      w.wire ++ w.stream.unsent = s.unsent → Writes aead s buf script w
  | sealed {pending : List UInt8} {off : Nat} {middle : List InnerWrite} : buf ≠ [] →
      drain s.unsent.length script = .done middle →
      (drain (s.nextFrame aead buf).length middle = .failed ∧ (∃ e, w.result = .ready (.error e)) ∨
        drain (s.nextFrame aead buf).length middle ≠ .failed ∧
          w.result = .ready (.ok (min buf.length maxPlaintext))) →
      off ≤ pending.length →
      w.stream = ({ s with send := s.send.advance 1 } : NoiseStream).pend pending off →
      w.wire ++ w.stream.unsent = s.unsent ++ s.nextFrame aead buf → Writes aead s buf script w

theorem pollWrite_spec (aead : Aead) (s : NoiseStream) (buf : List UInt8) (script : List InnerWrite)
    (bounded : s.writeOff ≤ s.writePending.length) :
    ∃ w, s.pollWrite aead buf script = some w ∧ Writes aead s buf script w := by
  by_cases empty : buf = []
  · exact ⟨_, by rw [pollWrite, empty]; rfl, .empty empty rfl⟩
  have nonempty : buf.isEmpty = false := by simpa using empty
  obtain ⟨before, flushed, spec⟩ := pollFlushPending_spec s script bounded
  obtain ⟨pending, off, inside, shape⟩ := spec.frame_only
  have conserved := spec.conserved
  have result := spec.result
  cases outcome : before.result with
  | pending =>
    rw [outcome] at result
    refine ⟨{ before with result := .pending }, by simp [pollWrite, nonempty, flushed, outcome], ?_⟩
    exact .blocked empty (.inl ⟨result, rfl⟩) inside shape conserved
  | ready value =>
    rw [outcome] at result
    cases value with
    | error e =>
      refine ⟨{ before with result := .ready (.error e) },
        by simp [pollWrite, nonempty, flushed, outcome], ?_⟩
      exact .blocked empty (.inr ⟨result, e, rfl⟩) inside shape conserved
    | ok _ =>
      obtain ⟨out, sent⟩ := result
      rw [sent, List.append_nil] at conserved
      have fresh : (before.stream.sealFrame aead buf).unsent = s.nextFrame aead buf := by
        rw [shape]
        rfl
      obtain ⟨after, flushed', spec'⟩ := pollFlushPending_spec (before.stream.sealFrame aead buf)
        before.rest (Nat.zero_le _)
      obtain ⟨pending', off', inside', shape'⟩ := spec'.frame_only
      have conserved' := spec'.conserved
      have result' := spec'.result
      rw [fresh] at conserved' result'
      have shape'' : after.stream =
          ({ s with send := s.send.advance 1 } : NoiseStream).pend pending' off' := by
        rw [shape', shape]
        rfl
      have whole : (before.wire ++ after.wire) ++ after.stream.unsent =
          s.unsent ++ s.nextFrame aead buf := by
        rw [List.append_assoc, conserved', conserved]
      cases outcome' : after.result with
      | pending =>
        rw [outcome'] at result'
        refine ⟨⟨.ready (.ok (min buf.length maxPlaintext)), after.stream, before.wire ++ after.wire,
          after.rest⟩, by simp [pollWrite, nonempty, flushed, flushed', outcome, outcome'], ?_⟩
        exact .sealed empty out (.inr ⟨by rw [result']; simp, rfl⟩) inside' shape'' whole
      | ready value =>
        rw [outcome'] at result'
        cases value with
        | error e =>
          refine ⟨⟨.ready (.error e), after.stream, before.wire ++ after.wire, after.rest⟩,
            by simp [pollWrite, nonempty, flushed, flushed', outcome, outcome'], ?_⟩
          exact .sealed empty out (.inl ⟨result', e, rfl⟩) inside' shape'' whole
        | ok _ =>
          refine ⟨⟨.ready (.ok (min buf.length maxPlaintext)), after.stream,
            before.wire ++ after.wire, after.rest⟩,
            by simp [pollWrite, nonempty, flushed, flushed', outcome, outcome'], ?_⟩
          exact .sealed empty out (.inr ⟨by rw [result'.1]; simp, rfl⟩) inside' shape'' whole

/-- A flush or shutdown seals nothing, and succeeds only with nothing pending. -/
theorem pollDrain_spec (s : NoiseStream) (script : List InnerWrite) (last : InnerDone)
    (bounded : s.writeOff ≤ s.writePending.length) :
    ∃ w, s.pollDrain script last = some w ∧ w.wire ++ w.stream.unsent = s.unsent ∧
      (∃ pending off, off ≤ pending.length ∧ w.stream = s.pend pending off) ∧
      (w.result = .ready (.ok ()) → w.stream.unsent = []) := by
  obtain ⟨before, flushed, spec⟩ := pollFlushPending_spec s script bounded
  have result := spec.result
  cases outcome : before.result with
  | pending =>
    refine ⟨before, by simp [pollDrain, flushed, outcome], spec.conserved, spec.frame_only, ?_⟩
    simp [outcome]
  | ready value =>
    rw [outcome] at result
    cases value with
    | error e =>
      refine ⟨before, by simp [pollDrain, flushed, outcome], spec.conserved, spec.frame_only, ?_⟩
      simp [outcome]
    | ok _ =>
      exact ⟨{ before with result := last.poll }, by simp [pollDrain, flushed, outcome],
        spec.conserved, spec.frame_only, fun _ => result.2⟩

/-- The writer's invariant: the wire and the pending rest of a frame are the
frames of the messages sealed so far, each sealed once, under consecutive counters. -/
structure Sending (aead : Aead) (c : CipherState) (s : NoiseStream) (wire : List UInt8)
    (sealed : List (List UInt8)) : Prop where
  counter : s.send = c.advance sealed.length
  conserved : wire ++ s.unsent = stream (c.sealAll aead sealed)
  bounded : s.writeOff ≤ s.writePending.length
  small : ∀ msg ∈ sealed, msg ≠ [] ∧ msg.length ≤ maxPlaintext

theorem sending_new (aead : Aead) (c recv : CipherState) : Sending aead c (new c recv) [] [] where
  counter := rfl
  conserved := rfl
  bounded := le_rfl
  small := by simp

variable {c : CipherState} {s : NoiseStream} {wire : List UInt8} {sealed : List (List UInt8)}

theorem Sending.flush (h : Sending aead c s wire sealed) {pending more : List UInt8} {off : Nat}
    (inside : off ≤ pending.length) (conserved : more ++ (s.pend pending off).unsent = s.unsent) :
    Sending aead c (s.pend pending off) (wire ++ more) sealed where
  counter := h.counter
  conserved := by rw [List.append_assoc, conserved, h.conserved]
  bounded := inside
  small := h.small

theorem chunk_ne_nil {buf : List UInt8} (nonempty : buf ≠ []) : chunk buf ≠ [] := by
  intro none
  have size := chunk_length buf
  have := List.length_pos_iff.mpr nonempty
  rw [none, List.length_nil, maxPlaintext] at size
  omega

theorem Sending.seal (h : Sending aead c s wire sealed) {buf pending more : List UInt8} {off : Nat}
    (nonempty : buf ≠ []) (inside : off ≤ pending.length)
    (conserved : more ++ (s.pend pending off).unsent = s.unsent ++ s.nextFrame aead buf) :
    Sending aead c (({ s with send := s.send.advance 1 } : NoiseStream).pend pending off)
      (wire ++ more) (sealed ++ [chunk buf]) where
  counter := by
    simp [pend, h.counter]
  conserved := by
    have next : stream (c.sealAll aead (sealed ++ [chunk buf])) =
        stream (c.sealAll aead sealed) ++ s.nextFrame aead buf := by
      rw [CipherState.sealAll_append, stream_append, nextFrame, h.counter]
      simp [CipherState.sealAll]
    rw [next, ← h.conserved, List.append_assoc wire s.unsent, ← conserved, List.append_assoc]
    rfl
  bounded := inside
  small := by
    intro msg member
    rcases List.mem_append.mp member with old | new
    · exact h.small msg old
    · rw [List.mem_singleton.mp new]
      exact ⟨chunk_ne_nil nonempty, by rw [chunk_length]; omega⟩

end HyperionVpn.NoiseStream
