import Mathlib

/-! Numbers read off the front of a text, and texts that read back what was
printed. A reader returns its value with the rest of the text. -/
namespace Text

abbrev Reader (α : Type) := List Char → Option (α × List Char)

def readGivenChar (c : Char) : List Char → Option (List Char)
  | [] => none
  | d :: rest => if d = c then some rest else none

/-- Every element of a sequence but the first comes after a separator. -/
def readSeparator (sep : Char) (first : Bool) (inner : Reader α) : Reader α := fun s =>
  if first then inner s else (readGivenChar sep s).bind inner

@[simp] theorem readSeparator_first (sep : Char) (inner : Reader α) (s : List Char) :
    readSeparator sep true inner s = inner s := rfl

@[simp] theorem readSeparator_next (sep : Char) (inner : Reader α) (s : List Char) :
    readSeparator sep false inner (sep :: s) = inner s := by
  simp [readSeparator, readGivenChar]

/-- A reader that has to take the whole text. -/
def parseWith (read : Reader α) (s : String) : Option α :=
  match read s.toList with
  | some (a, []) => some a
  | _ => none

/-- The value of a digit; letters count in both cases. -/
def toDigit (radix : Nat) (c : Char) : Option Nat :=
  let value := if '0' ≤ c ∧ c ≤ '9' then c.toNat - '0'.toNat
    else if 'a' ≤ c ∧ c ≤ 'z' then c.toNat - 'a'.toNat + 10
    else if 'A' ≤ c ∧ c ≤ 'Z' then c.toNat - 'A'.toNat + 10
    else radix
  if value < radix then some value else none

def IsDigit (radix : Nat) (c : Char) : Bool := (toDigit radix c).isSome

def ofDigits (radix : Nat) (digits : List Char) : Nat :=
  digits.foldl (fun n c => n * radix + (toDigit radix c).getD 0) 0

/-- All digits at the front, at most so many and with no superfluous zero
before them if so demanded, as a number up to `max`. -/
def readNumber (radix : Nat) (maxDigits : Option Nat) (allowZeroPrefix : Bool) (max : Nat) :
    Reader Nat := fun s =>
  let digits := s.takeWhile (IsDigit radix)
  if maxDigits.any (· < digits.length) then none
  else if digits = [] then none
  else if !allowZeroPrefix ∧ digits.head? = some '0' ∧ 1 < digits.length then none
  else if max < ofDigits radix digits then none
  else some (ofDigits radix digits, s.dropWhile (IsDigit radix))

/-! Printed numbers. -/

theorem toDigit_digitChar {radix d : Nat} (small : d < radix) (known : radix ≤ 16) :
    toDigit radix d.digitChar = some d := by
  have all : ∀ radix ≤ 16, ∀ d < radix, toDigit radix d.digitChar = some d := by decide
  exact all radix known d small

theorem digitChar_eq_zero {d : Nat} (zero : d.digitChar = '0') : d = 0 :=
  Nat.digitChar_eq_zero.mp zero

theorem isDigit_toDigits {radix n : Nat} (two : 1 < radix) (known : radix ≤ 16) :
    ∀ c ∈ Nat.toDigits radix n, IsDigit radix c = true := by
  induction n using Nat.base_induction radix two with
  | single d small =>
    rw [Nat.toDigits_of_lt_base small]
    simp [IsDigit, toDigit_digitChar small known]
  | digit m d small pos ih =>
    rw [← Nat.toDigits_append_toDigits two pos small, Nat.toDigits_of_lt_base small]
    intro c member
    rcases List.mem_append.mp member with front | last
    · exact ih c front
    · rw [List.mem_singleton.mp last]
      simp [IsDigit, toDigit_digitChar small known]

theorem ofDigits_toDigits {radix n : Nat} (two : 1 < radix) (known : radix ≤ 16) :
    ofDigits radix (Nat.toDigits radix n) = n := by
  induction n using Nat.base_induction radix two with
  | single d small =>
    rw [Nat.toDigits_of_lt_base small]
    simp [ofDigits, toDigit_digitChar small known]
  | digit m d small pos ih =>
    rw [← Nat.toDigits_append_toDigits two pos small, Nat.toDigits_of_lt_base small]
    simp only [ofDigits] at ih
    simp only [ofDigits, List.foldl_append, List.foldl_cons, List.foldl_nil, ih,
      toDigit_digitChar small known, Option.getD_some]
    rw [Nat.mul_comm]

theorem ofDigits_append (radix : Nat) (a b : List Char) :
    ofDigits radix (a ++ b) = ofDigits radix a * radix ^ b.length + ofDigits radix b := by
  induction b using List.reverseRecOn with
  | nil => simp [ofDigits]
  | append_singleton b c ih =>
    simp only [ofDigits] at ih
    rw [← List.append_assoc]
    simp only [ofDigits, List.foldl_append, List.foldl_cons, List.foldl_nil, ih,
      List.length_append, List.length_singleton]
    ring

theorem isDigit_range {radix : Nat} {c : Char} (digit : IsDigit radix c = true) :
    ('0' ≤ c ∧ c ≤ '9') ∨ ('a' ≤ c ∧ c ≤ 'z') ∨ 'A' ≤ c ∧ c ≤ 'Z' := by
  by_contra other
  simp only [not_or] at other
  simp [IsDigit, toDigit, other] at digit

theorem isDigit_decimal {c : Char} (digit : IsDigit 10 c = true) :
    '0'.toNat ≤ c.toNat ∧ c.toNat ≤ '9'.toNat := by
  have decimal : '0' ≤ c ∧ c ≤ '9' := by
    by_contra other
    have none : toDigit 10 c = none := by
      unfold toDigit
      rw [if_neg other]
      split_ifs <;> simp
    simp [IsDigit, none] at digit
  exact ⟨UInt32.le_iff_toNat_le.mp decimal.1, UInt32.le_iff_toNat_le.mp decimal.2⟩

/-- Only zero is printed with a zero in front. -/
theorem toDigits_head_zero {radix n : Nat} (two : 1 < radix)
    (zero : (Nat.toDigits radix n).head? = some '0') : n = 0 := by
  induction n using Nat.base_induction radix two with
  | single d small =>
    rw [Nat.toDigits_of_lt_base small] at zero
    exact digitChar_eq_zero (Option.some.inj zero)
  | digit m d small pos ih =>
    rw [← Nat.toDigits_append_toDigits two pos small,
      List.head?_append_of_ne_nil _ Nat.toDigits_ne_nil] at zero
    exact absurd (ih zero) (Nat.ne_of_gt pos)

/-- The text does not go on with a digit. -/
def NoDigit (radix : Nat) (s : List Char) : Prop := ∀ c ∈ s.head?, IsDigit radix c = false

theorem noDigit_nil : NoDigit radix [] := by
  rintro c ⟨⟩

/-- The punctuation of addresses is no digit in any radix. -/
theorem noDigit_mark {c : Char} (mark : c ∈ ['.', ':', '%', '[', ']']) (s : List Char) :
    NoDigit radix (c :: s) := by
  rintro _ ⟨⟩
  have none : toDigit radix c = none := by
    simp only [List.mem_cons, List.not_mem_nil, or_false] at mark
    rcases mark with rfl | rfl | rfl | rfl | rfl <;> simp [toDigit]
  rw [IsDigit, none, Option.isSome_none]

theorem takeWhile_noDigit {radix : Nat} {s : List Char} (stop : NoDigit radix s) :
    s.takeWhile (IsDigit radix) = [] := by
  cases s with
  | nil => rfl
  | cons c s => exact List.takeWhile_cons_of_neg (by simp [stop c (by simp)])

theorem dropWhile_noDigit {radix : Nat} {s : List Char} (stop : NoDigit radix s) :
    s.dropWhile (IsDigit radix) = s := by
  cases s with
  | nil => rfl
  | cons c s => exact List.dropWhile_cons_of_neg (by simp [stop c (by simp)])

theorem takeWhile_append_noDigit {radix : Nat} {digits rest : List Char}
    (all : ∀ c ∈ digits, IsDigit radix c = true) (stop : NoDigit radix rest) :
    (digits ++ rest).takeWhile (IsDigit radix) = digits ∧
      (digits ++ rest).dropWhile (IsDigit radix) = rest := by
  rw [List.takeWhile_append_of_pos all, List.dropWhile_append_of_pos all, takeWhile_noDigit stop,
    dropWhile_noDigit stop]
  simp

/-- A printed number reads back, whatever follows that is not a digit. -/
theorem readNumber_toDigits {radix max n : Nat} {maxDigits : Option Nat} {rest : List Char}
    (two : 1 < radix) (known : radix ≤ 16) (allowZeroPrefix : Bool) (bound : n ≤ max)
    (short : ∀ k ∈ maxDigits, 0 < k ∧ n < radix ^ k) (stop : NoDigit radix rest) :
    readNumber radix maxDigits allowZeroPrefix max (Nat.toDigits radix n ++ rest) =
      some (n, rest) := by
  obtain ⟨taken, dropped⟩ := takeWhile_append_noDigit (isDigit_toDigits (n := n) two known) stop
  have fits : maxDigits.any (· < (Nat.toDigits radix n).length) = false := by
    cases maxDigits with
    | none => rfl
    | some k =>
      obtain ⟨pos, small⟩ := short k rfl
      have le := (Nat.length_toDigits_le_iff two pos).mpr small
      simpa using le
  have plain : ¬ (!allowZeroPrefix ∧ (Nat.toDigits radix n).head? = some '0' ∧
      1 < (Nat.toDigits radix n).length) := by
    rintro ⟨-, zero, long⟩
    obtain rfl := toDigits_head_zero two zero
    simp at long
  simp only [readNumber, taken, dropped, ofDigits_toDigits two known, fits, Nat.toDigits_ne_nil,
    plain, Nat.not_lt.mpr bound, if_false, Bool.false_eq_true]

theorem readNumber_noDigit {radix max : Nat} {maxDigits : Option Nat} {allowZeroPrefix : Bool}
    {s : List Char} (stop : NoDigit radix s) :
    readNumber radix maxDigits allowZeroPrefix max s = none := by
  simp only [readNumber, takeWhile_noDigit stop]
  split <;> simp

/-- What is left when a number has been read. -/
theorem readNumber_rest {radix max n : Nat} {maxDigits : Option Nat} {allowZeroPrefix : Bool}
    {s rest : List Char} (read : readNumber radix maxDigits allowZeroPrefix max s = some (n, rest)) :
    rest = s.dropWhile (IsDigit radix) ∧ n ≤ max := by
  simp only [readNumber] at read
  split at read
  · cases read
  split at read
  · cases read
  split at read
  · cases read
  split at read
  · cases read
  · cases read
    exact ⟨rfl, Nat.not_lt.mp ‹_›⟩

/-! Whole texts. -/

theorem parseWith_toDigits (radix : Nat) {n max : Nat} (two : 1 < radix) (known : radix ≤ 16)
    (allowZeroPrefix : Bool) (bound : n ≤ max) :
    parseWith (readNumber radix none allowZeroPrefix max)
      (String.ofList (Nat.toDigits radix n)) = some n := by
  have number := readNumber_toDigits two known allowZeroPrefix bound
    (by simp : ∀ k ∈ (none : Option Nat), 0 < k ∧ n < radix ^ k) noDigit_nil
  rw [List.append_nil] at number
  simp only [parseWith, String.toList_ofList, number]

/-- A text of digits alone is read as their number. -/
theorem parseWith_digits {radix max : Nat} {digits : List Char} (nonempty : digits ≠ [])
    (all : ∀ c ∈ digits, IsDigit radix c = true) :
    parseWith (readNumber radix none true max) (String.ofList digits) =
      if max < ofDigits radix digits then none else some (ofDigits radix digits) := by
  have whole := takeWhile_append_noDigit all (@noDigit_nil radix)
  rw [List.append_nil] at whole
  obtain ⟨taken, dropped⟩ := whole
  by_cases large : max < ofDigits radix digits
  · simp [parseWith, readNumber, taken, nonempty, large]
  · simp [parseWith, readNumber, taken, dropped, nonempty, large]

end Text
