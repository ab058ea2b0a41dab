import HyperionVpn.Core.NoiseSession

/-! What the fields of a stream are between any two of its polls, and while a
read runs: each return of a poll leaves a state that the next can resume from,
and the buffers have a bound. -/
namespace HyperionVpn.NoiseStream
open Bytes Framing Machine

/-- The pending frame is whole, and its prefix is the length of its ciphertext. -/
structure Outgoing (aead : Aead) (s : NoiseStream) : Prop where
  write_off : s.writeOff ≤ s.writePending.length
  size : s.writePending.length ≤ 16402
  whole : s.writePending = [] ∨ ∃ (c : CipherState) (head msg : List UInt8),
    s.writePending = head ++ (c.encryptVec aead msg).1 ∧ head.length = 2 ∧
      ofBE head = (c.encryptVec aead msg).1.length

structure Incoming (s : NoiseStream) : Prop where
  read_off : s.readOff ≤ s.readPlain.length
  plain : s.readPlain.length ≤ 16384
  set : s.haveLen = true → (∃ hi lo held, s.readRaw = hi :: lo :: held ∧
    s.readTarget = 2 + ofBE [hi, lo]) ∧ 18 ≤ s.readTarget ∧ s.readTarget ≤ 16402
  unset : s.haveLen = false → s.readTarget = 0
  raw : s.readRaw.length ≤ 16401 + 8192

structure Represented (aead : Aead) (s : NoiseStream) : Prop where
  outgoing : Outgoing aead s
  incoming : Incoming s

theorem represented_new (aead : Aead) (send recv : CipherState) :
    Represented aead (new send recv) where
  outgoing := ⟨le_rfl, Nat.zero_le _, .inl rfl⟩
  incoming := ⟨le_rfl, Nat.zero_le _, by simp [new], fun _ => rfl, Nat.zero_le _⟩

variable {aead : Aead} {s : NoiseStream}

/-! The writing half. -/

/-- A flush leaves the pending frame where it is, or is done with it. -/
theorem pollFlushPending_kept {script : List InnerWrite} {w : Writing Unit}
    (flushed : s.pollFlushPending script = some w) :
    w.stream = s.pend [] 0 ∨ ∃ off, (s.writeOff ≤ s.writePending.length →
      off ≤ s.writePending.length) ∧ w.stream = s.pend s.writePending off := by
  induction script generalizing s w with
  | nil =>
    by_cases busy : s.writeOff < s.writePending.length
    · rw [pollFlushPending, if_pos busy] at flushed
      cases flushed
      exact .inr ⟨s.writeOff, id, rfl⟩
    · cases flushed.symm.trans (pollFlushPending_idle (Nat.not_lt.mp busy))
      exact .inl rfl
  | cons answer rest ih =>
    by_cases busy : s.writeOff < s.writePending.length
    swap
    · cases flushed.symm.trans (pollFlushPending_idle (Nat.not_lt.mp busy))
      exact .inl rfl
    cases answer with
    | pending =>
      rw [pollFlushPending, if_pos busy] at flushed
      cases flushed
      exact .inr ⟨s.writeOff, id, rfl⟩
    | error e =>
      rw [pollFlushPending, if_pos busy] at flushed
      cases flushed
      exact .inr ⟨s.writeOff, id, rfl⟩
    | accept k =>
      rw [pollFlushPending_accept busy] at flushed
      split at flushed
      · cases flushed
        exact .inr ⟨s.writeOff, id, rfl⟩
      obtain ⟨later, more, rfl⟩ := Option.map_eq_some_iff.mp flushed
      rcases ih more with done | ⟨off, inside, kept⟩
      · exact .inl done
      · refine .inr ⟨off, fun _ => inside ?_, kept⟩
        simp only [pend, unsent_length]
        omega

/-- A poll of the writing half keeps the frame whole and touches nothing else. -/
structure WritesOnly (aead : Aead) (s t : NoiseStream) : Prop where
  shape : ∃ send pending off, t = ({ s with send } : NoiseStream).pend pending off
  outgoing : Outgoing aead s → Outgoing aead t

theorem WritesOnly.refl (s : NoiseStream) : WritesOnly aead s s :=
  ⟨⟨s.send, s.writePending, s.writeOff, rfl⟩, id⟩

theorem WritesOnly.trans {t u : NoiseStream} (first : WritesOnly aead s t)
    (second : WritesOnly aead t u) : WritesOnly aead s u where
  shape := by
    obtain ⟨_, _, _, rfl⟩ := first.shape
    obtain ⟨send, pending, off, rfl⟩ := second.shape
    exact ⟨send, pending, off, rfl⟩
  outgoing := second.outgoing ∘ first.outgoing

theorem WritesOnly.flush {script : List InnerWrite} {w : Writing Unit}
    (flushed : s.pollFlushPending script = some w) : WritesOnly aead s w.stream := by
  rcases pollFlushPending_kept flushed with done | ⟨off, inside, kept⟩
  · rw [done]
    exact ⟨⟨s.send, [], 0, rfl⟩, fun _ => ⟨le_rfl, Nat.zero_le _, .inl rfl⟩⟩
  · rw [kept]
    exact ⟨⟨s.send, _, off, rfl⟩, fun h => ⟨inside h.write_off, h.size, h.whole⟩⟩

/-- No length of a sealed chunk is truncated. -/
theorem outgoing_sealFrame (s : NoiseStream) (buf : List UInt8) :
    Outgoing aead (s.sealFrame aead buf) := by
  have small := chunk_length buf
  have size : (s.send.encryptVec aead (chunk buf)).1.length = (chunk buf).length + 16 :=
    CipherState.encryptVec_length _
  have sealed : (s.sealFrame aead buf).writePending =
      frame (s.send.encryptVec aead (chunk buf)).1 := rfl
  constructor
  · exact Nat.zero_le _
  · rw [sealed, frame_length, size, small, maxPlaintext]
    omega
  · refine .inr ⟨s.send, _, chunk buf, sealed, u16ToBE_length _, ?_⟩
    have fits : (s.send.encryptVec aead (chunk buf)).1.length < 2 ^ 16 := by
      rw [size, small, maxPlaintext]
      omega
    have exact_ : (UInt16.ofNat (s.send.encryptVec aead (chunk buf)).1.length).toNat =
        (s.send.encryptVec aead (chunk buf)).1.length := UInt16.toNat_ofNat_of_lt fits
    rw [u16ToBE, exact_, ofBE_toBE_of_lt fits]

theorem WritesOnly.seal (s : NoiseStream) (buf : List UInt8) :
    WritesOnly aead s (s.sealFrame aead buf) :=
  ⟨⟨_, _, _, rfl⟩, fun _ => outgoing_sealFrame s buf⟩

theorem pollWrite_writesOnly {buf : List UInt8} {script : List InnerWrite} {w : Writing Nat}
    (wrote : s.pollWrite aead buf script = some w) : WritesOnly aead s w.stream := by
  unfold pollWrite at wrote
  split at wrote
  · cases wrote
    exact .refl s
  simp only [Option.bind_eq_bind, Option.bind_eq_some_iff] at wrote
  obtain ⟨before, flushed, wrote⟩ := wrote
  have first : WritesOnly aead s before.stream := .flush flushed
  split at wrote
  · cases wrote
    exact first
  · cases wrote
    exact first
  · simp only [Option.bind_eq_some_iff] at wrote
    obtain ⟨after, flushed', wrote⟩ := wrote
    have second := (first.trans (.seal before.stream buf)).trans (.flush flushed')
    split at wrote <;> cases wrote <;> exact second

theorem pollDrain_writesOnly {script : List InnerWrite} {last : InnerDone} {w : Writing Unit}
    (wrote : s.pollDrain script last = some w) : WritesOnly aead s w.stream := by
  simp only [pollDrain, Option.bind_eq_bind, Option.bind_eq_some_iff] at wrote
  obtain ⟨before, flushed, wrote⟩ := wrote
  have only : WritesOnly aead s before.stream := .flush flushed
  split at wrote <;> cases wrote <;> exact only

/-- Writing does not touch the reading half. -/
theorem Receiving.writesOnly {c : CipherState} {t : NoiseStream} {received delivered : List UInt8}
    {opened : List (List UInt8)} (h : Receiving aead c s received delivered opened)
    (only : WritesOnly aead s t) : Receiving aead c t received delivered opened := by
  obtain ⟨send, pending, off, rfl⟩ := only.shape
  exact ⟨h.counter, h.consumed, h.handed, h.bounded, h.small, h.announced⟩

theorem Represented.writesOnly {t : NoiseStream} (h : Represented aead s)
    (only : WritesOnly aead s t) : Represented aead t := by
  refine ⟨only.outgoing h.outgoing, ?_⟩
  obtain ⟨send, pending, off, rfl⟩ := only.shape
  have incoming := h.incoming
  exact ⟨incoming.read_off, incoming.plain, incoming.set, incoming.unset, incoming.raw⟩

/-! The reading half. -/

theorem Incoming.target_le (h : Incoming s) : s.readTarget ≤ 16402 := by
  cases known : s.haveLen with
  | true => exact (h.set known).2.2
  | false =>
    rw [h.unset known]
    exact Nat.zero_le _

/-- The last fill begins below the target. -/
theorem pollFill_raw (s : NoiseStream) (n : Nat) (script : List InnerRead) :
    (s.pollFill n script).stream.readRaw.length ≤
      max s.readRaw.length (n - 1 + fillCapacity) := by
  induction script generalizing s with
  | nil =>
    unfold pollFill
    split <;> exact Nat.le_max_left _ _
  | cons answer rest ih =>
    unfold pollFill
    split <;> rename_i short
    swap
    · exact Nat.le_max_left _ _
    cases answer with
    | pending => exact Nat.le_max_left _ _
    | error e => exact Nat.le_max_left _ _
    | filled bytes =>
      dsimp only
      split
      · exact Nat.le_max_left _ _
      · have more := ih { s with readRaw := s.readRaw ++ bytes.take fillCapacity }
        have taken : (bytes.take fillCapacity).length ≤ fillCapacity := List.length_take_le _ _
        dsimp only at more ⊢
        rw [List.length_append] at more
        omega

theorem Represented.pollFill (h : Represented aead s) {n : Nat} (limit : n ≤ 16402)
    (script : List InnerRead) : Represented aead (s.pollFill n script).stream := by
  have raw := pollFill_raw s n script
  have stream := (pollFill_spec s n script).stream
  generalize s.pollFill n script = fill at raw stream ⊢
  obtain ⟨outgoing, incoming⟩ := h
  have bound := incoming.raw
  have raw' : fill.stream.readRaw.length ≤ 16401 + 8192 := by
    rw [fillCapacity] at raw
    omega
  rw [stream] at raw' ⊢
  refine ⟨⟨outgoing.write_off, outgoing.size, outgoing.whole⟩, incoming.read_off, incoming.plain,
    fun known => ?_, incoming.unset, raw'⟩
  obtain ⟨⟨hi, lo, held, first, target⟩, bounds⟩ := incoming.set known
  exact ⟨⟨hi, lo, held ++ fill.taken, by simp [first], target⟩, bounds⟩

/-- The target is set once the length that it is made of is in the raw buffer. -/
theorem Represented.pollLength (h : Represented aead s) {script : List InnerRead} {r : Reading Exit}
    (called : s.pollLength script = some r) : Represented aead r.stream := by
  have fill := h.pollFill (n := lenPrefix) (by decide) script
  cases pollLength_cases called with
  | known _ => exact h
  | stopped _ filled _ =>
    rw [filled] at fill
    exact ⟨fill.outgoing, fill.incoming⟩
  | refused _ filled _ _ _ =>
    rw [filled] at fill
    exact ⟨fill.outgoing, fill.incoming⟩
  | @announced _ a b held _ filled _ raw valid =>
    rw [filled] at fill
    obtain ⟨outgoing, incoming⟩ := fill
    obtain ⟨tagged, limit⟩ := valid
    rw [tagLen] at tagged
    rw [maxCiphertext, maxPlaintext, tagLen] at limit
    refine ⟨⟨outgoing.write_off, outgoing.size, outgoing.whole⟩, incoming.read_off, incoming.plain,
      fun _ => ⟨⟨a, b, held, raw, ?_⟩, ?_, ?_⟩, by simp, incoming.raw⟩
    · rw [← u16FromBE_toNat]
      rfl
    · dsimp only [lenPrefix]
      omega
    · dsimp only [lenPrefix]
      omega

/-- The raw buffer is drained, and the target forgotten, with the frame opened. -/
theorem Represented.pollFrame (h : Represented aead s) {script : List InnerRead} {r : Reading Exit}
    (called : s.pollFrame aead script = some r) : Represented aead r.stream := by
  have fill := h.pollFill h.incoming.target_le script
  cases pollFrame_cases called with
  | stopped filled _ =>
    rw [filled] at fill
    exact ⟨fill.outgoing, fill.incoming⟩
  | failed filled _ _ _ =>
    rw [filled] at fill
    exact ⟨fill.outgoing, fill.incoming⟩
  | opened filled _ sliced decrypted =>
    rw [filled] at fill
    obtain ⟨outgoing, incoming⟩ := fill
    obtain ⟨sealed, rfl⟩ := CipherState.decryptVec_eq_some.mp decrypted
    have opened := slice_length sliced
    rw [sealed, CipherState.encryptVec_length, lenPrefix] at opened
    have limit := incoming.target_le
    have bound := incoming.raw
    refine ⟨⟨outgoing.write_off, outgoing.size, outgoing.whole⟩, Nat.zero_le _, ?_, by simp,
      fun _ => rfl, ?_⟩
    · dsimp only
      omega
    · rw [List.length_drop]
      omega

theorem Represented.pollReadPass (h : Represented aead s) {remaining : Nat}
    {script : List InnerRead} {r : Reading Exit}
    (called : s.pollReadPass aead remaining script = some r) : Represented aead r.stream := by
  unfold NoiseStream.pollReadPass at called
  split at called
  · simp only [Option.bind_eq_bind, Option.bind_eq_some_iff] at called
    obtain ⟨out, -, called⟩ := called
    cases called
    obtain ⟨outgoing, incoming⟩ := h
    refine ⟨⟨outgoing.write_off, outgoing.size, outgoing.whole⟩, ?_, incoming.plain, incoming.set,
      incoming.unset, incoming.raw⟩
    dsimp only
    omega
  · simp only [Option.bind_eq_bind, Option.bind_eq_some_iff] at called
    obtain ⟨head, length, called⟩ := called
    have known := h.pollLength length
    split at called
    · cases called
      exact known
    · simp only [Option.bind_eq_some_iff] at called
      obtain ⟨body, frame, called⟩ := called
      have opened := known.pollFrame frame
      cases called
      exact opened

theorem Represented.pollReadLoop (h : Represented aead s) {remaining fuel : Nat}
    {script : List InnerRead} {r : Reading (PollResult (List UInt8))}
    (called : NoiseStream.pollReadLoop aead remaining fuel s script = some r) :
    Represented aead r.stream := by
  induction fuel generalizing s script r with
  | zero => cases called
  | succ fuel ih =>
    simp only [NoiseStream.pollReadLoop, Option.bind_eq_bind, Option.bind_eq_some_iff] at called
    obtain ⟨pass, passed, called⟩ := called
    have kept := h.pollReadPass passed
    split at called
    · cases called
      exact kept
    · simp only [Option.bind_eq_some_iff] at called
      obtain ⟨later, looped, called⟩ := called
      have rest := ih kept looped
      cases called
      exact rest

/-! Any polls, in any order. -/

/-- One poll of either half. -/
def poll (aead : Aead) (s : NoiseStream) : Session.Call → Option (Session.Reply × NoiseStream)
  | .write buf script => do
    let w ← s.pollWrite aead buf script
    return (.wrote w.result, w.stream)
  | .flush script last => do
    let w ← s.pollFlush script last
    return (.drained w.result, w.stream)
  | .shutdown script last => do
    let w ← s.pollShutdown script last
    return (.drained w.result, w.stream)
  | .read remaining script => do
    let r ← s.pollRead aead remaining script
    return (.read r.result, r.stream)

/-- The states that a read goes through before it returns, with the inner
answers still to come. -/
inductive Visits (aead : Aead) (s : NoiseStream) (script : List InnerRead) :
    NoiseStream → List InnerRead → Prop where
  | start : Visits aead s script s script
  | length {t : NoiseStream} {rest : List InnerRead} {r : Reading Exit} :
      Visits aead s script t rest → t.pollLength rest = some r →
      Visits aead s script r.stream r.rest
  | fill {t : NoiseStream} {rest : List InnerRead} : Visits aead s script t rest →
      Visits aead s script (t.pollFill t.readTarget rest).stream (t.pollFill t.readTarget rest).rest
  | frame {t : NoiseStream} {rest : List InnerRead} {r : Reading Exit} :
      Visits aead s script t rest → t.pollFrame aead rest = some r →
      Visits aead s script r.stream r.rest

theorem Represented.visits (h : Represented aead s) {script rest : List InnerRead} {t : NoiseStream}
    (visits : Visits aead s script t rest) : Represented aead t := by
  induction visits with
  | start => exact h
  | length _ called ih => exact ih.pollLength called
  | fill _ ih => exact ih.pollFill ih.incoming.target_le _
  | frame _ called ih => exact ih.pollFrame called

/-- A stream that has taken some bytes, from any counter on. -/
def Receives (aead : Aead) (s : NoiseStream) : Prop :=
  ∃ c received delivered opened, Receiving aead c s received delivered opened

theorem poll_spec (h : Represented aead s) (receives : Receives aead s) (call : Session.Call) :
    ∃ reply t, poll aead s call = some (reply, t) ∧ Represented aead t ∧ Receives aead t := by
  obtain ⟨c, received, delivered, opened, receiving⟩ := receives
  have bounded := h.outgoing.write_off
  have writes {t : NoiseStream} (only : WritesOnly aead s t) :
      Represented aead t ∧ Receives aead t :=
    ⟨h.writesOnly only, c, received, delivered, opened, receiving.writesOnly only⟩
  cases call with
  | write buf script =>
    obtain ⟨w, called, -⟩ := pollWrite_spec aead s buf script bounded
    exact ⟨.wrote w.result, w.stream, by simp [poll, called], writes (pollWrite_writesOnly called)⟩
  | flush script last =>
    obtain ⟨w, called, -⟩ := pollDrain_spec s script last bounded
    exact ⟨.drained w.result, w.stream, by simp [poll, pollFlush, called],
      writes (pollDrain_writesOnly called)⟩
  | shutdown script last =>
    obtain ⟨w, called, -⟩ := pollDrain_spec s script last bounded
    exact ⟨.drained w.result, w.stream, by simp [poll, pollShutdown, called],
      writes (pollDrain_writesOnly called)⟩
  | read remaining script =>
    obtain ⟨r, called, reads⟩ := pollRead_spec receiving remaining script
    obtain ⟨more, receiving'⟩ := reads.receiving
    exact ⟨.read r.result, r.stream, by simp [poll, called], h.pollReadLoop called, c, _, _, _,
      receiving'⟩

/-- Every state that the polls of a stream can reach, in any order and whatever
the inner stream answers, is consistent and bounded, the states within a read
included; and no poll panics. -/
theorem representation_invariant (aead : Aead) (send recv : CipherState) :
    (∀ tr s, Run (poll aead) (new send recv) tr s → Represented aead s ∧
      ∀ script t rest, Visits aead s script t rest → Represented aead t) ∧
    ∀ calls, ∃ tr s, Run (poll aead) (new send recv) tr s ∧ tr.map Prod.fst = calls := by
  have initial : Represented aead (new send recv) ∧ Receives aead (new send recv) :=
    ⟨represented_new aead send recv, recv, [], [], [], receiving_new aead send recv⟩
  have total (s : NoiseStream) (call : Session.Call)
      (h : Represented aead s ∧ Receives aead s) : ∃ reply t,
      poll aead s call = some (reply, t) ∧ Represented aead t ∧ Receives aead t :=
    poll_spec h.1 h.2 call
  constructor
  · intro tr s run
    have kept := run.invariant (P := fun s => Represented aead s ∧ Receives aead s) initial
      fun {s call reply t} h stepped => by
        obtain ⟨reply', t', stepped', h'⟩ := total s call h
        cases stepped.symm.trans stepped'
        exact h'
    exact ⟨kept.1, fun _ _ _ visits => kept.1.visits visits⟩
  · intro calls
    obtain ⟨tr, s, run, same, -⟩ := Run.exists_of_total (new send recv) initial total calls
    exact ⟨tr, s, run, same⟩

/-- A frame half on the wire, while the length of another arrives byte by byte. -/
def sampleCalls : List Session.Call :=
  [.write [1, 2, 3] [.accept 7], .read 64 [.filled [0], .pending], .read 64 [.filled [19], .pending],
    .flush [.accept 3, .pending] .ok, .read 64 [.filled []]]

theorem representation_invariant_sample :
    ∃ tr s, Run (poll .transparent) (new ⟨Vector.replicate 32 7, 0⟩ ⟨Vector.replicate 32 9, 0⟩) tr s ∧
      tr.map Prod.fst = sampleCalls ∧ Represented .transparent s := by
  have invariant := representation_invariant .transparent ⟨Vector.replicate 32 7, 0⟩
    ⟨Vector.replicate 32 9, 0⟩
  obtain ⟨tr, s, run, same⟩ := invariant.2 sampleCalls
  exact ⟨tr, s, run, same, (invariant.1 tr s run).1⟩

end HyperionVpn.NoiseStream
