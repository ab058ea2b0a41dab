import HyperionVpn.Core.Noise

/-! The reading half of the stream on arbitrary input. Whatever arrives, the
bytes taken so far are frames that opened, one after the other, and the raw
buffer; what was handed out is the beginning of what these frames hold. -/
namespace HyperionVpn.NoiseStream
open Bytes Framing

variable {aead : Aead} {s : NoiseStream}

theorem scriptBytes_cons (answer : InnerRead) (rest : List InnerRead) :
    scriptBytes (answer :: rest) = scriptBytes [answer] ++ scriptBytes rest := by
  simp [scriptBytes]

/-- The inner stream signals its end. -/
def AtEnd (script : List InnerRead) : Prop := InnerRead.filled [] ∈ script

/-- The bytes are accounted for, and the answers left are of the script. -/
structure Accounts (script : List InnerRead) (taken : List UInt8) (rest : List InnerRead) : Prop where
  bytes : scriptBytes script = taken ++ scriptBytes rest
  suffix : rest <:+ script

theorem Accounts.refl (script : List InnerRead) : Accounts script [] script :=
  ⟨rfl, List.suffix_rfl⟩

theorem Accounts.trans {script middle rest : List InnerRead} {taken more : List UInt8}
    (first : Accounts script taken middle) (second : Accounts middle more rest) :
    Accounts script (taken ++ more) rest where
  bytes := by rw [first.bytes, second.bytes, List.append_assoc]
  suffix := second.suffix.trans first.suffix

/-- A fill only appends to the raw buffer, and ends as the inner stream says. -/
structure Filled (s : NoiseStream) (n : Nat) (script : List InnerRead)
    (r : Reading (PollResult Bool)) : Prop where
  accounts : Accounts script r.taken r.rest
  stream : r.stream = { s with readRaw := s.readRaw ++ r.taken }
  result : match r.result with
    | .pending => r.stream.readRaw.length < n ∧ (r.rest = [] ∨ .pending ∈ script)
    | .ready (.ok true) => n ≤ r.stream.readRaw.length
    | .ready (.ok false) => r.stream.readRaw.length < n ∧ AtEnd script
    | .ready (.error e) => ∃ inner, e = .inner inner ∧ .error inner ∈ script

theorem pollFill_spec (s : NoiseStream) (n : Nat) (script : List InnerRead) :
    Filled s n script (s.pollFill n script) := by
  have still (s : NoiseStream) : s = { s with readRaw := s.readRaw ++ [] } := by simp
  induction script generalizing s with
  | nil =>
    unfold pollFill
    split <;> rename_i short
    · exact ⟨.refl _, still s, short, .inl rfl⟩
    · exact ⟨.refl _, still s, Nat.not_lt.mp short⟩
  | cons answer rest ih =>
    unfold pollFill
    split <;> rename_i short
    swap
    · exact ⟨.refl _, still s, Nat.not_lt.mp short⟩
    cases answer with
    | pending => exact ⟨⟨rfl, List.suffix_cons _ _⟩, still s, short, .inr (by simp)⟩
    | error e => exact ⟨⟨rfl, List.suffix_cons _ _⟩, still s, e, rfl, by simp⟩
    | filled bytes =>
      dsimp only
      split <;> rename_i none_filled
      · have ended : bytes = [] := by simpa [fillCapacity] using none_filled
        subst ended
        exact ⟨⟨rfl, List.suffix_cons _ _⟩, still s, short, by simp [AtEnd]⟩
      · obtain ⟨accounts, stream, result⟩ := ih { s with readRaw := s.readRaw ++ bytes.take fillCapacity }
        refine ⟨⟨?_, accounts.suffix.trans (List.suffix_cons _ _)⟩, ?_, ?_⟩
        · rw [scriptBytes_cons, accounts.bytes]
          simp [scriptBytes]
        · rw [stream]
          simp
        · revert result
          dsimp only
          split
          · rintro ⟨short', rest⟩
            exact ⟨short', rest.imp_right (.tail _)⟩
          · exact id
          · rintro ⟨short', ended⟩
            exact ⟨short', .tail _ ended⟩
          · rintro ⟨inner, same, member⟩
            exact ⟨inner, same, .tail _ member⟩

/-- A fill changes nothing but the raw buffer. -/
theorem Filled.same {n : Nat} {script : List InnerRead} {r : Reading (PollResult Bool)}
    (h : Filled s n script r) : r.stream.readPlain = s.readPlain ∧ r.stream.readOff = s.readOff ∧
      r.stream.haveLen = s.haveLen ∧ r.stream.readTarget = s.readTarget ∧
      s.readRaw.length + r.taken.length = r.stream.readRaw.length := by
  rw [h.stream]
  exact ⟨rfl, rfl, rfl, rfl, List.length_append.symm⟩

/-- What a fill that does not succeed makes the poll return; `ended` is what the
end of the inner stream means there. -/
def exitOf (ended : PollResult (List UInt8)) : PollResult Bool → Exit
  | .pending => some .pending
  | .ready (.error e) => some (.ready (.error e))
  | .ready (.ok false) => some ended
  | .ready (.ok true) => none

theorem Filled.exit {n : Nat} {script : List InnerRead} {r : Reading (PollResult Bool)}
    {ended exit : PollResult (List UInt8)} (h : Filled s n script r)
    (stopped : exitOf ended r.result = some exit) :
    (exit = .pending ∧ r.stream.readRaw.length < n ∧ (r.rest = [] ∨ .pending ∈ script)) ∨
    (exit = ended ∧ r.stream.readRaw.length < n ∧ AtEnd script) ∨
    ∃ e, exit = .ready (.error (.inner e)) ∧ .error e ∈ script := by
  have result := h.result
  cases outcome : r.result with
  | pending =>
    rw [outcome] at stopped result
    cases stopped
    exact .inl ⟨rfl, result⟩
  | ready value =>
    rw [outcome] at stopped result
    cases value with
    | error e =>
      obtain ⟨inner, rfl, member⟩ := result
      cases stopped
      exact .inr (.inr ⟨inner, rfl, member⟩)
    | ok more =>
      cases more with
      | false =>
        cases stopped
        exact .inr (.inl ⟨rfl, result⟩)
      | true => cases stopped

def ValidLength (len : Nat) : Prop := tagLen ≤ len ∧ len ≤ maxCiphertext

/-- The two bytes of a length that a fill of two has made present. -/
theorem two_bytes {raw : List UInt8} (enough : lenPrefix ≤ raw.length) :
    ∃ a b held, raw = a :: b :: held := by
  match raw, enough with
  | a :: b :: held, _ => exact ⟨a, b, held, rfl⟩

/-- The ways in which the part that reads a length ends. -/
inductive Lengths (s : NoiseStream) (script : List InnerRead) : Reading Exit → Prop where
  | known : s.haveLen = true → Lengths s script ⟨none, s, [], script⟩
  | stopped {fill : Reading (PollResult Bool)} {exit : PollResult (List UInt8)} :
      s.haveLen = false → s.pollFill lenPrefix script = fill →
      exitOf (.ready (.ok [])) fill.result = some exit →
      Lengths s script { fill with result := some exit }
  | refused {fill : Reading (PollResult Bool)} {a b : UInt8} {held : List UInt8} :
      s.haveLen = false → s.pollFill lenPrefix script = fill → fill.result = .ready (.ok true) →
      fill.stream.readRaw = a :: b :: held → ¬ ValidLength (u16FromBE a b).toNat →
      Lengths s script { fill with
        result := some (.ready (.error (.invalidData "invalid frame length"))) }
  | announced {fill : Reading (PollResult Bool)} {a b : UInt8} {held : List UInt8} :
      s.haveLen = false → s.pollFill lenPrefix script = fill → fill.result = .ready (.ok true) →
      fill.stream.readRaw = a :: b :: held → ValidLength (u16FromBE a b).toNat →
      Lengths s script { fill with
        result := none
        stream := { fill.stream with
          readTarget := lenPrefix + (u16FromBE a b).toNat, haveLen := true } }

theorem pollLength_cases {script : List InnerRead} {r : Reading Exit}
    (called : s.pollLength script = some r) : Lengths s script r := by
  unfold pollLength at called
  split at called <;> rename_i set
  · cases called
    exact .known set
  have unset : s.haveLen = false := eq_false_of_ne_true set
  dsimp only at called
  generalize filled : s.pollFill lenPrefix script = fill at called
  split at called <;> rename_i outcome
  · cases called
    exact .stopped unset filled (by rw [outcome]; rfl)
  · cases called
    exact .stopped unset filled (by rw [outcome]; rfl)
  · cases called
    exact .stopped unset filled (by rw [outcome]; rfl)
  obtain ⟨a, first, called⟩ := Option.bind_eq_some_iff.mp called
  obtain ⟨b, second, called⟩ := Option.bind_eq_some_iff.mp called
  obtain ⟨inside, -⟩ := List.getElem?_eq_some_iff.mp second
  obtain ⟨a, b, held, raw⟩ := two_bytes inside
  rw [raw] at first second
  cases first
  cases second
  split at called <;> rename_i valid
  · cases called
    exact .refused unset filled outcome raw valid
  · cases called
    exact .announced unset filled outcome raw (not_not.mp valid)

theorem pollLength_total (s : NoiseStream) (script : List InnerRead) :
    ∃ r, s.pollLength script = some r := by
  unfold pollLength
  split
  · exact ⟨_, rfl⟩
  have result := (pollFill_spec s lenPrefix script).result
  dsimp only
  generalize s.pollFill lenPrefix script = fill at result ⊢
  split
  · exact ⟨_, rfl⟩
  · exact ⟨_, rfl⟩
  · exact ⟨_, rfl⟩
  rename_i outcome
  rw [outcome] at result
  obtain ⟨a, b, held, raw⟩ := two_bytes result
  rw [raw]
  dsimp only [List.getElem?_cons_zero, List.getElem?_cons_succ, Option.bind_eq_bind, Option.bind_some]
  split <;> exact ⟨_, rfl⟩

/-- The ways in which the part that reads and opens a frame ends. -/
inductive Frames (aead : Aead) (s : NoiseStream) (script : List InnerRead) : Reading Exit → Prop where
  | stopped {fill : Reading (PollResult Bool)} {exit : PollResult (List UInt8)} :
      s.pollFill s.readTarget script = fill →
      exitOf (.ready (.error .unexpectedEof)) fill.result = some exit →
      Frames aead s script { fill with result := some exit }
  | failed {fill : Reading (PollResult Bool)} {ciphertext : List UInt8} :
      s.pollFill s.readTarget script = fill → fill.result = .ready (.ok true) →
      slice fill.stream.readRaw lenPrefix fill.stream.readTarget = some ciphertext →
      fill.stream.recv.decryptVec aead ciphertext = none →
      Frames aead s script { fill with
        result := some (.ready (.error (.invalidData "decryption failed"))) }
  | opened {fill : Reading (PollResult Bool)} {ciphertext plain : List UInt8} {recv : CipherState} :
      s.pollFill s.readTarget script = fill → fill.result = .ready (.ok true) →
      slice fill.stream.readRaw lenPrefix fill.stream.readTarget = some ciphertext →
      fill.stream.recv.decryptVec aead ciphertext = some (plain, recv) →
      Frames aead s script { fill with
        result := none
        stream := { fill.stream with
          recv, readRaw := fill.stream.readRaw.drop fill.stream.readTarget, readPlain := plain,
          readOff := 0, haveLen := false, readTarget := 0 } }

theorem pollFrame_cases {script : List InnerRead} {r : Reading Exit}
    (called : s.pollFrame aead script = some r) : Frames aead s script r := by
  unfold pollFrame at called
  dsimp only at called
  generalize filled : s.pollFill s.readTarget script = fill at called
  split at called <;> rename_i outcome
  · cases called
    exact .stopped filled (by rw [outcome]; rfl)
  · cases called
    exact .stopped filled (by rw [outcome]; rfl)
  · cases called
    exact .stopped filled (by rw [outcome]; rfl)
  obtain ⟨ciphertext, sliced, called⟩ := Option.bind_eq_some_iff.mp called
  split at called
  · cases called
    exact .failed filled outcome sliced ‹_›
  · rename_i plain recv decrypted
    obtain ⟨rest, drained, called⟩ := Option.bind_eq_some_iff.mp called
    obtain ⟨-, -, rfl⟩ := slice_eq_some.mp drained
    rw [List.take_of_length_le (by rw [List.length_drop])] at called
    cases called
    exact .opened filled outcome sliced decrypted

theorem pollFrame_total (aead : Aead) (enough : lenPrefix ≤ s.readTarget) (script : List InnerRead) :
    ∃ r, s.pollFrame aead script = some r := by
  have spec := pollFill_spec s s.readTarget script
  unfold pollFrame
  dsimp only
  generalize s.pollFill s.readTarget script = fill at spec ⊢
  obtain ⟨-, -, -, target, -⟩ := spec.same
  have result := spec.result
  split
  · exact ⟨_, rfl⟩
  · exact ⟨_, rfl⟩
  · exact ⟨_, rfl⟩
  rename_i outcome
  rw [outcome, ← target] at result
  rw [← target] at enough
  rw [slice_of_le enough result, slice_of_le result le_rfl]
  dsimp only [Option.bind_eq_bind, Option.bind_some]
  split <;> exact ⟨_, rfl⟩

/-- Nothing is left to hand out, and the raw buffer does not hold what comes next. -/
def Starved (s : NoiseStream) : Prop :=
  s.readPlain.length ≤ s.readOff ∧
    s.readRaw.length < if s.haveLen then s.readTarget else lenPrefix

/-- Nothing is left to hand out, and the raw buffer holds a frame that is refused. -/
def Poisoned (aead : Aead) (s : NoiseStream) : Prop :=
  s.readPlain.length ≤ s.readOff ∧
    ((s.haveLen = false ∧ ∃ a b held, s.readRaw = a :: b :: held ∧
        ¬ ValidLength (u16FromBE a b).toNat) ∨
      (s.haveLen = true ∧ s.readTarget ≤ s.readRaw.length ∧ ∃ ciphertext,
        slice s.readRaw lenPrefix s.readTarget = some ciphertext ∧
        s.recv.decryptVec aead ciphertext = none))

/-- What a read that ended says about the stream it leaves. -/
def Stops (aead : Aead) (remaining : Nat) (script : List InnerRead)
    (result : PollResult (List UInt8)) (s : NoiseStream) (rest : List InnerRead) : Prop :=
  match result with
  | .pending => Starved s ∧ (rest = [] ∨ .pending ∈ script)
  | .ready (.ok out) => (out = [] ∧ Starved s ∧ s.haveLen = false ∧ AtEnd script) ∨
      (0 < remaining → out ≠ [])
  | .ready (.error (.inner e)) => .error e ∈ script
  | .ready (.error .unexpectedEof) => Starved s ∧ s.haveLen = true ∧ AtEnd script
  | .ready (.error (.invalidData _)) => Poisoned aead s
  | .ready (.error .writeZero) => False

/-- What a poll with this result put into the caller's buffer. -/
def outOf : PollResult (List UInt8) → List UInt8
  | .ready (.ok out) => out
  | _ => []

theorem Stops.mono {remaining : Nat} {script later : List InnerRead}
    {result : PollResult (List UInt8)} {s : NoiseStream} {rest : List InnerRead}
    (h : Stops aead remaining later result s rest) (suffix : later <:+ script) :
    Stops aead remaining script result s rest := by
  unfold Stops at *
  revert h
  split
  · exact And.imp_right (Or.imp_right fun member => suffix.subset member)
  · exact Or.imp_left fun ⟨empty, starved, unset, ended⟩ =>
      ⟨empty, starved, unset, suffix.subset ended⟩
  · exact fun member => suffix.subset member
  · exact fun ⟨starved, set, ended⟩ => ⟨starved, set, suffix.subset ended⟩
  · exact id
  · exact id

/-- The reader's invariant: `received` are the bytes taken from the inner stream
so far, `opened` the messages of the frames that opened, and `delivered` what
was handed out. -/
structure Receiving (aead : Aead) (c : CipherState) (s : NoiseStream)
    (received delivered : List UInt8) (opened : List (List UInt8)) : Prop where
  counter : s.recv = c.advance opened.length
  consumed : received = stream (c.sealAll aead opened) ++ s.readRaw
  handed : delivered ++ s.readPlain.drop s.readOff = opened.flatten
  bounded : s.readOff ≤ s.readPlain.length
  small : ∀ msg ∈ opened, msg.length ≤ maxPlaintext
  announced : s.haveLen = true → ∃ a b held, s.readRaw = a :: b :: held ∧
    s.readTarget = lenPrefix + (u16FromBE a b).toNat ∧ ValidLength (u16FromBE a b).toNat

theorem receiving_new (aead : Aead) (send c : CipherState) :
    Receiving aead c (new send c) [] [] [] where
  counter := rfl
  consumed := rfl
  handed := rfl
  bounded := le_rfl
  small := by simp
  announced := nofun

variable {c : CipherState} {received delivered : List UInt8}
  {opened : List (List UInt8)}

theorem Receiving.fill (h : Receiving aead c s received delivered opened) (taken : List UInt8) :
    Receiving aead c { s with readRaw := s.readRaw ++ taken } (received ++ taken) delivered
      opened where
  counter := h.counter
  consumed := by rw [h.consumed, List.append_assoc]
  handed := h.handed
  bounded := h.bounded
  small := h.small
  announced set := by
    obtain ⟨a, b, held, raw, target, valid⟩ := h.announced set
    exact ⟨a, b, held ++ taken, by simp [raw], target, valid⟩

theorem Receiving.filled (h : Receiving aead c s received delivered opened) {n : Nat}
    {script : List InnerRead} {r : Reading (PollResult Bool)} (spec : Filled s n script r) :
    Receiving aead c r.stream (received ++ r.taken) delivered opened := by
  rw [spec.stream]
  exact h.fill r.taken

theorem pollLength_spec (h : Receiving aead c s received delivered opened)
    (drained : s.readPlain.length ≤ s.readOff) (remaining : Nat) (script : List InnerRead) :
    ∃ r, s.pollLength script = some r ∧ Accounts script r.taken r.rest ∧
      Receiving aead c r.stream (received ++ r.taken) delivered opened ∧
      r.stream.readPlain.length ≤ r.stream.readOff ∧
      s.readRaw.length + r.taken.length = r.stream.readRaw.length ∧
      match r.result with
      | some result => outOf result = [] ∧ Stops aead remaining script result r.stream r.rest
      | none => r.stream.haveLen = true := by
  obtain ⟨r, called⟩ := pollLength_total s script
  refine ⟨r, called, ?_⟩
  have filling {fill : Reading (PollResult Bool)} (filled : s.pollFill lenPrefix script = fill) :
      Filled s lenPrefix script fill ∧
        Receiving aead c fill.stream (received ++ fill.taken) delivered opened ∧
        fill.stream.readPlain.length ≤ fill.stream.readOff := by
    have spec := pollFill_spec s lenPrefix script
    rw [filled] at spec
    refine ⟨spec, h.filled spec, ?_⟩
    rw [spec.stream]
    exact drained
  cases pollLength_cases called with
  | known set => exact ⟨.refl _, by simpa using h, drained, rfl, set⟩
  | stopped unset filled stopped =>
    obtain ⟨spec, receiving, plain⟩ := filling filled
    obtain ⟨-, -, set, -, size⟩ := spec.same
    rw [unset] at set
    refine ⟨spec.accounts, receiving, plain, size, ?_⟩
    rcases spec.exit stopped with ⟨rfl, short, rest⟩ | ⟨rfl, short, ended⟩ | ⟨e, rfl, member⟩
    · exact ⟨rfl, ⟨plain, by simpa [set] using short⟩, rest⟩
    · exact ⟨rfl, .inl ⟨rfl, ⟨plain, by simpa [set] using short⟩, set, ended⟩⟩
    · exact ⟨rfl, member⟩
  | @refused _ a b held unset filled _ raw invalid =>
    obtain ⟨spec, receiving, plain⟩ := filling filled
    obtain ⟨-, -, set, -, size⟩ := spec.same
    rw [unset] at set
    exact ⟨spec.accounts, receiving, plain, size, rfl, plain, .inl ⟨set, a, b, held, raw, invalid⟩⟩
  | @announced _ a b held _ filled _ raw valid =>
    obtain ⟨spec, receiving, plain⟩ := filling filled
    obtain ⟨-, -, -, -, size⟩ := spec.same
    refine ⟨spec.accounts, ?_, plain, size, rfl⟩
    exact ⟨receiving.counter, receiving.consumed, receiving.handed, receiving.bounded,
      receiving.small, fun _ => ⟨a, b, held, raw, rfl, valid⟩⟩

/-- An announced frame that opens moves from the raw buffer to the messages. -/
theorem Receiving.open (h : Receiving aead c s received delivered opened) (set : s.haveLen = true)
    (drained : s.readPlain.length ≤ s.readOff) {ciphertext plain : List UInt8} {recv : CipherState}
    (sliced : slice s.readRaw lenPrefix s.readTarget = some ciphertext)
    (decrypted : s.recv.decryptVec aead ciphertext = some (plain, recv)) :
    Receiving aead c
      { s with
        recv, readRaw := s.readRaw.drop s.readTarget, readPlain := plain, readOff := 0,
        haveLen := false, readTarget := 0 }
      received delivered (opened ++ [plain]) := by
  obtain ⟨a, b, held, raw, target, tagged, limit⟩ := h.announced set
  obtain ⟨sealed, rfl⟩ := CipherState.decryptVec_eq_some.mp decrypted
  have size : ciphertext.length = (u16FromBE a b).toNat := by
    rw [slice_length sliced, target]
    omega
  -- The announced length is the ciphertext's, so its frame is what was consumed.
  have framed : s.readRaw.take s.readTarget = frame ciphertext := by
    obtain ⟨-, -, body⟩ := slice_eq_some.mp sliced
    have head : s.readRaw.take s.readTarget = a :: b :: held.take (u16FromBE a b).toNat := by
      rw [raw, target, lenPrefix, Nat.add_comm]
      rfl
    have tail : ciphertext = held.take (u16FromBE a b).toNat := by
      rw [body, raw, target, lenPrefix, Nat.add_sub_cancel_left]
      rfl
    rw [head, ← tail, frame, size, UInt16.ofNat_toNat, u16ToBE_fromBE]
    rfl
  refine ⟨?_, ?_, ?_, Nat.zero_le _, ?_, by simp⟩
  · rw [h.counter]
    simp
  · have sealedAll : c.sealAll aead (opened ++ [plain]) = c.sealAll aead opened ++ [ciphertext] := by
      rw [CipherState.sealAll_append, sealed, h.counter]
      rfl
    rw [h.consumed, sealedAll, stream_append, stream_cons, stream_nil, List.append_nil, ← framed,
      List.append_assoc, List.take_append_drop]
  · have handed := h.handed
    rw [List.drop_of_length_le drained, List.append_nil] at handed
    simp [handed]
  · intro msg member
    rcases List.mem_append.mp member with old | new
    · exact h.small msg old
    · obtain rfl := List.mem_singleton.mp new
      rw [sealed, CipherState.encryptVec_length] at size
      rw [← size] at limit
      simp only [maxCiphertext, tagLen] at limit
      omega

theorem pollFrame_spec (h : Receiving aead c s received delivered opened)
    (drained : s.readPlain.length ≤ s.readOff) (set : s.haveLen = true) (remaining : Nat)
    (script : List InnerRead) :
    ∃ r, s.pollFrame aead script = some r ∧ Accounts script r.taken r.rest ∧
      match r.result with
      | some result => outOf result = [] ∧
          Receiving aead c r.stream (received ++ r.taken) delivered opened ∧
          Stops aead remaining script result r.stream r.rest
      | none => r.stream.readRaw.length < s.readRaw.length + r.taken.length ∧
          ∃ msg, Receiving aead c r.stream (received ++ r.taken) delivered (opened ++ [msg]) := by
  obtain ⟨a, b, held, raw, announced, valid⟩ := h.announced set
  obtain ⟨r, called⟩ := pollFrame_total aead (show lenPrefix ≤ s.readTarget by omega) script
  refine ⟨r, called, ?_⟩
  have filling {fill : Reading (PollResult Bool)} (filled : s.pollFill s.readTarget script = fill) :
      Filled s s.readTarget script fill ∧
        Receiving aead c fill.stream (received ++ fill.taken) delivered opened ∧
        fill.stream.readPlain.length ≤ fill.stream.readOff ∧ fill.stream.haveLen = true := by
    have spec := pollFill_spec s s.readTarget script
    rw [filled] at spec
    refine ⟨spec, h.filled spec, ?_⟩
    rw [spec.stream]
    exact ⟨drained, set⟩
  cases pollFrame_cases called with
  | stopped filled stopped =>
    obtain ⟨spec, receiving, plain, set⟩ := filling filled
    obtain ⟨-, -, -, target, -⟩ := spec.same
    refine ⟨spec.accounts, ?_⟩
    rcases spec.exit stopped with ⟨rfl, short, rest⟩ | ⟨rfl, short, ended⟩ | ⟨e, rfl, member⟩
    · exact ⟨rfl, receiving, ⟨plain, by simpa [set, target] using short⟩, rest⟩
    · exact ⟨rfl, receiving, ⟨plain, by simpa [set, target] using short⟩, set, ended⟩
    · exact ⟨rfl, receiving, member⟩
  | failed filled outcome sliced failed =>
    obtain ⟨spec, receiving, plain, set⟩ := filling filled
    obtain ⟨-, -, -, target, -⟩ := spec.same
    have enough := spec.result
    rw [outcome, ← target] at enough
    exact ⟨spec.accounts, rfl, receiving, plain, .inr ⟨set, enough, _, sliced, failed⟩⟩
  | @opened _ _ msg _ filled outcome sliced decrypted =>
    obtain ⟨spec, receiving, plain, set⟩ := filling filled
    obtain ⟨-, -, -, target, size⟩ := spec.same
    have enough := spec.result
    rw [outcome] at enough
    refine ⟨spec.accounts, ?_, msg, receiving.open set plain sliced decrypted⟩
    simp only [List.length_drop, lenPrefix] at announced enough ⊢
    omega

theorem Receiving.hand (h : Receiving aead c s received delivered opened) (k : Nat)
    (bound : s.readOff + k ≤ s.readPlain.length) :
    Receiving aead c { s with readOff := s.readOff + k } received
      (delivered ++ (s.readPlain.drop s.readOff).take k) opened where
  counter := h.counter
  consumed := h.consumed
  handed := by
    rw [← h.handed, List.append_assoc, ← List.drop_drop, List.take_append_drop]
  bounded := bound
  small := h.small
  announced := h.announced

/-- One pass of the loop. One that goes on has opened a frame and consumed it. -/
theorem pollReadPass_spec (h : Receiving aead c s received delivered opened) (remaining : Nat)
    (script : List InnerRead) :
    ∃ r, s.pollReadPass aead remaining script = some r ∧ Accounts script r.taken r.rest ∧
      match r.result with
      | some result =>
          Receiving aead c r.stream (received ++ r.taken) (delivered ++ outOf result) opened ∧
          Stops aead remaining script result r.stream r.rest
      | none => r.stream.readRaw.length < s.readRaw.length + r.taken.length ∧
          ∃ msg, Receiving aead c r.stream (received ++ r.taken) delivered (opened ++ [msg]) := by
  by_cases left : s.readOff < s.readPlain.length
  · have bound : s.readOff + min (s.readPlain.length - s.readOff) remaining ≤ s.readPlain.length := by
      omega
    have out := slice_of_le (Nat.le_add_right s.readOff _) bound
    rw [Nat.add_sub_cancel_left] at out
    refine ⟨⟨some (.ready (.ok ((s.readPlain.drop s.readOff).take
        (min (s.readPlain.length - s.readOff) remaining)))),
        { s with readOff := s.readOff + min (s.readPlain.length - s.readOff) remaining }, [], script⟩,
      by simp [pollReadPass, left, out], .refl _, ?_, .inr fun room empty => ?_⟩
    · simpa [outOf] using h.hand _ bound
    · have size := congrArg List.length empty
      simp only [List.length_take, List.length_drop, List.length_nil] at size
      omega
  have drained : s.readPlain.length ≤ s.readOff := Nat.not_lt.mp left
  obtain ⟨head, called, accounts, receiving, drained', size, outcome⟩ :=
    pollLength_spec h drained remaining script
  cases stop : head.result with
  | some result =>
    rw [stop] at outcome
    refine ⟨head, by simp [pollReadPass, left, called, stop], accounts, ?_⟩
    rw [stop]
    exact ⟨by simpa [outcome.1] using receiving, outcome.2⟩
  | none =>
    rw [stop] at outcome
    obtain ⟨body, called', accounts', outcome'⟩ :=
      pollFrame_spec receiving drained' outcome remaining head.rest
    refine ⟨{ body with taken := head.taken ++ body.taken },
      by simp [pollReadPass, left, called, stop, called'], accounts.trans accounts', ?_⟩
    dsimp only
    cases stop' : body.result with
    | some result =>
      rw [stop'] at outcome'
      obtain ⟨nothing, receiving', stops⟩ := outcome'
      refine ⟨?_, stops.mono accounts.suffix⟩
      rwa [nothing, List.append_nil, ← List.append_assoc]
    | none =>
      rw [stop'] at outcome'
      obtain ⟨shorter, msg, receiving'⟩ := outcome'
      refine ⟨?_, msg, by rwa [← List.append_assoc]⟩
      rw [List.length_append]
      omega

/-- What a whole poll does. -/
structure Reads (aead : Aead) (c : CipherState) (received delivered : List UInt8)
    (opened : List (List UInt8)) (remaining : Nat) (script : List InnerRead)
    (r : Reading (PollResult (List UInt8))) : Prop where
  accounts : Accounts script r.taken r.rest
  receiving : ∃ more, Receiving aead c r.stream (received ++ r.taken) (delivered ++ outOf r.result)
    (opened ++ more)
  stops : Stops aead remaining script r.result r.stream r.rest

theorem pollReadLoop_spec (h : Receiving aead c s received delivered opened) (remaining fuel : Nat)
    (script : List InnerRead) (enough : s.readRaw.length + (scriptBytes script).length < fuel) :
    ∃ r, pollReadLoop aead remaining fuel s script = some r ∧
      Reads aead c received delivered opened remaining script r := by
  induction fuel generalizing s received opened script with
  | zero => omega
  | succ fuel ih =>
    obtain ⟨pass, called, accounts, outcome⟩ := pollReadPass_spec h remaining script
    cases stop : pass.result with
    | some result =>
      rw [stop] at outcome
      exact ⟨{ pass with result }, by simp [pollReadLoop, called, stop], accounts,
        ⟨[], by simpa using outcome.1⟩, outcome.2⟩
    | none =>
      rw [stop] at outcome
      obtain ⟨shorter, msg, receiving⟩ := outcome
      have bytes := congrArg List.length accounts.bytes
      rw [List.length_append] at bytes
      obtain ⟨later, called', accounts', ⟨more, receiving'⟩, stops⟩ :=
        ih receiving pass.rest (by omega)
      refine ⟨{ later with taken := pass.taken ++ later.taken },
        by simp [pollReadLoop, called, stop, called'], accounts.trans accounts',
        ⟨msg :: more, ?_⟩, stops.mono accounts.suffix⟩
      simpa using receiving'

/-- A poll never panics and never runs out of passes, whatever arrives. -/
theorem pollRead_spec (h : Receiving aead c s received delivered opened) (remaining : Nat)
    (script : List InnerRead) :
    ∃ r, s.pollRead aead remaining script = some r ∧
      Reads aead c received delivered opened remaining script r :=
  pollReadLoop_spec h remaining _ script (Nat.lt_succ_self _)

theorem pollFill_enough {n : Nat} (enough : n ≤ s.readRaw.length) (script : List InnerRead) :
    s.pollFill n script = ⟨.ready (.ok true), s, [], script⟩ := by
  unfold pollFill
  rw [if_neg (by omega)]

/-- A refused frame is refused again, without a look at the inner stream. -/
theorem pollRead_poisoned (h : Poisoned aead s) (remaining : Nat) (script : List InnerRead) :
    ∃ message, s.pollRead aead remaining script =
      some ⟨.ready (.error (.invalidData message)), s, [], script⟩ := by
  obtain ⟨drained, refused⟩ := h
  have left : ¬ s.readOff < s.readPlain.length := Nat.not_lt.mpr drained
  suffices pass : ∃ message, s.pollReadPass aead remaining script =
      some ⟨some (.ready (.error (.invalidData message))), s, [], script⟩ by
    obtain ⟨message, pass⟩ := pass
    exact ⟨message, by simp [pollRead, pollReadLoop, pass]⟩
  rcases refused with ⟨unset, a, b, held, raw, invalid⟩ | ⟨set, enough, ciphertext, sliced, failed⟩
  · have fill := pollFill_enough (s := s) (n := lenPrefix) (by rw [raw]; exact Nat.le_add_left 2 _) script
    refine ⟨"invalid frame length", ?_⟩
    have refused : tagLen ≤ (u16FromBE a b).toNat → maxCiphertext < (u16FromBE a b).toNat :=
      fun tagged => Nat.not_le.mp fun limit => invalid ⟨tagged, limit⟩
    simp [pollReadPass, left, pollLength, unset, fill, raw]
    rw [if_pos refused]
    rfl
  · have fill := pollFill_enough (s := s) enough script
    refine ⟨"decryption failed", ?_⟩
    simp [pollReadPass, left, pollLength, set, pollFrame, fill, sliced, failed]

end HyperionVpn.NoiseStream
