import Mathlib

/-! Byte strings: bounds-checked slices and big-endian integers of any width.
A slice outside its sequence is `none`, the crash of the language modelled. -/
namespace Bytes

/-- `xs[from..to]`. -/
def slice (xs : List α) (lo hi : Nat) : Option (List α) :=
  if lo ≤ hi ∧ hi ≤ xs.length then some ((xs.drop lo).take (hi - lo)) else none

theorem slice_eq_some {xs ys : List α} {lo hi : Nat} :
    slice xs lo hi = some ys ↔
      lo ≤ hi ∧ hi ≤ xs.length ∧ ys = (xs.drop lo).take (hi - lo) := by
  unfold slice
  split <;> rename_i h
  · simp [h.1, h.2, eq_comm]
  · simp only [reduceCtorEq, false_iff]
    exact fun hr => h ⟨hr.1, hr.2.1⟩

theorem slice_of_le {xs : List α} {lo hi : Nat} (ordered : lo ≤ hi) (bound : hi ≤ xs.length) :
    slice xs lo hi = some ((xs.drop lo).take (hi - lo)) :=
  slice_eq_some.mpr ⟨ordered, bound, rfl⟩

theorem slice_length {xs ys : List α} {lo hi : Nat} (h : slice xs lo hi = some ys) :
    ys.length = hi - lo := by
  obtain ⟨ordered, bound, rfl⟩ := slice_eq_some.mp h
  simp only [List.length_take, List.length_drop]
  omega

/-- The middle of three concatenated pieces. -/
theorem slice_append (a b c : List α) :
    slice (a ++ b ++ c) a.length (a.length + b.length) = some b := by
  rw [slice_of_le (by omega) (by simp)]
  simp [List.append_assoc]

/-- `[u8; n]::try_from`: a fixed-size array of exactly the slice's bytes. -/
def tryInto (n : Nat) (xs : List α) : Option (Vector α n) :=
  if h : xs.length = n then some ⟨xs.toArray, by simpa using h⟩ else none

theorem tryInto_eq_some {xs : List α} {v : Vector α n} :
    tryInto n xs = some v ↔ v.toList = xs := by
  unfold tryInto
  split <;> rename_i h
  · constructor
    · intro e
      cases e
      simp [Vector.toList]
    · rintro rfl
      simp [Vector.toList]
  · simp only [reduceCtorEq, false_iff]
    rintro rfl
    exact h (by simp)

theorem tryInto_toList (v : Vector α n) : tryInto n v.toList = some v :=
  tryInto_eq_some.mpr rfl

/-- The `width` low bytes of a number, most significant first. -/
def toBE : Nat → Nat → List UInt8
  | 0, _ => []
  | width + 1, value => UInt8.ofNat (value / 256 ^ width) :: toBE width value

def ofBE (bytes : List UInt8) : Nat :=
  bytes.foldl (fun acc byte => acc * 256 + byte.toNat) 0

@[simp] theorem toBE_length (width value : Nat) : (toBE width value).length = width := by
  induction width with
  | zero => rfl
  | succ width ih => simp [toBE, ih]

theorem foldl_shift (bytes : List UInt8) (acc : Nat) :
    bytes.foldl (fun acc byte => acc * 256 + byte.toNat) acc =
      acc * 256 ^ bytes.length + ofBE bytes := by
  induction bytes generalizing acc with
  | nil => simp [ofBE]
  | cons b bs ih =>
    have step := ih (acc * 256 + b.toNat)
    have zero := ih (0 * 256 + b.toNat)
    simp only [ofBE, List.foldl_cons, List.length_cons, pow_succ] at *
    rw [step, zero]
    ring

theorem ofBE_cons (b : UInt8) (bs : List UInt8) :
    ofBE (b :: bs) = b.toNat * 256 ^ bs.length + ofBE bs := by
  have h := foldl_shift bs (0 * 256 + b.toNat)
  simpa [ofBE] using h

theorem ofBE_lt (bytes : List UInt8) : ofBE bytes < 256 ^ bytes.length := by
  induction bytes with
  | nil => simp [ofBE]
  | cons b bs ih =>
    rw [ofBE_cons, List.length_cons, pow_succ]
    have hb : b.toNat ≤ 255 := by have := b.toNat_lt; omega
    calc b.toNat * 256 ^ bs.length + ofBE bs
        < b.toNat * 256 ^ bs.length + 256 ^ bs.length := by omega
      _ = (b.toNat + 1) * 256 ^ bs.length := by ring
      _ ≤ 256 * 256 ^ bs.length := Nat.mul_le_mul_right _ (by omega)
      _ = 256 ^ bs.length * 256 := by ring

theorem toBE_mod (width value : Nat) : toBE width value = toBE width (value % 256 ^ width) := by
  suffices general : ∀ k, width ≤ k → toBE width value = toBE width (value % 256 ^ k) from
    general width le_rfl
  induction width with
  | zero => intros; rfl
  | succ width ih =>
    intro k hk
    have split : 256 ^ k = 256 ^ width * 256 ^ (k - width) := by rw [← pow_add]; congr 1; omega
    have digit : value % 256 ^ k / 256 ^ width % 256 = value / 256 ^ width % 256 := by
      rw [split, Nat.mod_mul_right_div_self, Nat.mod_mod_of_dvd]
      exact dvd_pow_self _ (by omega)
    simp only [toBE, List.cons.injEq]
    refine ⟨?_, ih k (by omega)⟩
    apply UInt8.toNat_inj.mp
    simpa using digit.symm

theorem ofBE_toBE (width value : Nat) : ofBE (toBE width value) = value % 256 ^ width := by
  induction width with
  | zero => simp [toBE, ofBE, Nat.mod_one]
  | succ width ih =>
    rw [toBE, ofBE_cons, ih, toBE_length, pow_succ, Nat.mod_mul]
    simp only [UInt8.toNat_ofNat']
    ring

theorem ofBE_toBE_of_lt {width value : Nat} (fits : value < 256 ^ width) :
    ofBE (toBE width value) = value := by
  rw [ofBE_toBE, Nat.mod_eq_of_lt fits]

theorem toBE_ofBE (bytes : List UInt8) : toBE bytes.length (ofBE bytes) = bytes := by
  induction bytes with
  | nil => rfl
  | cons b bs ih =>
    have low := ofBE_lt bs
    have whole : ofBE (b :: bs) = ofBE bs + 256 ^ bs.length * b.toNat := by
      rw [ofBE_cons]; ring
    rw [List.length_cons, toBE, toBE_mod bs.length, whole, Nat.add_mul_mod_self_left,
      Nat.mod_eq_of_lt low, ih, Nat.add_mul_div_left _ _ (by positivity), Nat.div_eq_of_lt low]
    simp

/-! The fixed widths of wire formats. -/

def u16ToBE (x : UInt16) : List UInt8 := toBE 2 x.toNat

def u16FromBE (hi lo : UInt8) : UInt16 := UInt16.ofNat (ofBE [hi, lo])

def u64ToBE (x : UInt64) : List UInt8 := toBE 8 x.toNat

def u64FromBE (bytes : Vector UInt8 8) : UInt64 := UInt64.ofNat (ofBE bytes.toList)

@[simp] theorem u16ToBE_length (x : UInt16) : (u16ToBE x).length = 2 := toBE_length 2 _

@[simp] theorem u64ToBE_length (x : UInt64) : (u64ToBE x).length = 8 := toBE_length 8 _

theorem u16FromBE_toBE {x : UInt16} {hi lo : UInt8} (h : u16ToBE x = [hi, lo]) :
    u16FromBE hi lo = x := by
  rw [u16FromBE, ← h, u16ToBE, ofBE_toBE_of_lt (by simpa using x.toNat_lt)]
  exact UInt16.ofNat_toNat

theorem u16FromBE_toNat (hi lo : UInt8) : (u16FromBE hi lo).toNat = ofBE [hi, lo] := by
  have bound := ofBE_lt [hi, lo]
  exact UInt16.toNat_ofNat_of_lt (by simpa using bound)

theorem u16ToBE_fromBE (hi lo : UInt8) : u16ToBE (u16FromBE hi lo) = [hi, lo] := by
  rw [u16ToBE, u16FromBE_toNat]
  exact toBE_ofBE [hi, lo]

theorem u64ToBE_fromBE (bytes : Vector UInt8 8) : u64ToBE (u64FromBE bytes) = bytes.toList := by
  have bound := ofBE_lt bytes.toList
  have value : (u64FromBE bytes).toNat = ofBE bytes.toList :=
    UInt64.toNat_ofNat_of_lt (by simpa using bound)
  have whole := toBE_ofBE bytes.toList
  rw [u64ToBE, value]
  simpa using whole

/-- The big-endian word at an offset. -/
def be16At (xs : List UInt8) (i : Nat) : Option UInt16 := do
  return u16FromBE (← xs[i]?) (← xs[i + 1]?)

theorem be16At_eq_some {xs : List UInt8} {i : Nat} {w : UInt16} : be16At xs i = some w ↔
    ∃ hi lo, xs[i]? = some hi ∧ xs[i + 1]? = some lo ∧ w = u16FromBE hi lo := by
  unfold be16At
  cases xs[i]? <;> cases xs[i + 1]? <;> simp [eq_comm]

theorem be16At_drop (xs : List UInt8) (n i : Nat) : be16At (xs.drop n) i = be16At xs (n + i) := by
  simp only [be16At, List.getElem?_drop, Nat.add_assoc]

theorem getElem?_of_take {xs : List α} {n i : Nat} {x : α} (h : (xs.take n)[i]? = some x) :
    xs[i]? = some x := by
  rw [List.getElem?_take] at h
  split at h
  · exact h
  · cases h

/-- What a part of the bytes says holds of the whole. -/
theorem be16At_of_take {xs : List UInt8} {n i : Nat} {w : UInt16}
    (h : be16At (xs.take n) i = some w) : be16At xs i = some w := by
  obtain ⟨hi, lo, first, second, same⟩ := be16At_eq_some.mp h
  exact be16At_eq_some.mpr ⟨hi, lo, getElem?_of_take first, getElem?_of_take second, same⟩

theorem getElem?_take {xs : List α} {n i : Nat} {x : α} (inside : i < n)
    (found : xs[i]? = some x) : (xs.take n)[i]? = some x := by
  rwa [List.getElem?_take_of_lt inside]

theorem be16At_take {xs : List UInt8} {n i : Nat} {w : UInt16} (inside : i + 1 < n)
    (found : be16At xs i = some w) : be16At (xs.take n) i = some w := by
  obtain ⟨hi, lo, first, second, same⟩ := be16At_eq_some.mp found
  exact be16At_eq_some.mpr
    ⟨hi, lo, getElem?_take (by omega) first, getElem?_take inside second, same⟩

/-- A byte of the front is that byte of the whole. -/
theorem getElem?_front {xs ys : List α} {i : Nat} {x : α} (found : xs[i]? = some x) :
    (xs ++ ys)[i]? = some x := by
  obtain ⟨inside, rfl⟩ := List.getElem?_eq_some_iff.mp found
  rw [List.getElem?_append_left inside, List.getElem?_eq_getElem inside]

theorem be16At_front {xs ys : List UInt8} {i : Nat} {w : UInt16} (found : be16At xs i = some w) :
    be16At (xs ++ ys) i = some w := by
  obtain ⟨hi, lo, first, second, same⟩ := be16At_eq_some.mp found
  exact be16At_eq_some.mpr ⟨hi, lo, getElem?_front first, getElem?_front second, same⟩

theorem slice_one (xs : List α) (i : Nat) : slice xs i (i + 1) = xs[i]?.map ([·]) := by
  by_cases inside : i < xs.length
  · have size : i + 1 - i = 1 := by omega
    rw [slice_of_le (by omega) (by omega), size, List.getElem?_eq_getElem inside,
      List.drop_eq_getElem_cons inside]
    rfl
  · rw [List.getElem?_eq_none (by omega)]
    exact if_neg (by omega)

theorem slice_two (xs : List α) (i : Nat) :
    slice xs i (i + 2) = xs[i]?.bind fun a => xs[i + 1]?.map fun b => [a, b] := by
  by_cases inside : i + 1 < xs.length
  · have first : i < xs.length := by omega
    have size : i + 2 - i = 2 := by omega
    rw [slice_of_le (by omega) (by omega), size, List.getElem?_eq_getElem first,
      List.getElem?_eq_getElem inside, List.drop_eq_getElem_cons first,
      List.drop_eq_getElem_cons inside]
    rfl
  · have short : xs[i + 1]? = none := List.getElem?_eq_none (by omega)
    rw [slice, if_neg (by omega), short]
    simp

/-- The number in two bytes of a sequence. -/
theorem slice_two_ofBE {xs : List UInt8} {i n : Nat} :
    (slice xs i (i + 2)).map ofBE = some n ↔ ∃ w, be16At xs i = some w ∧ w.toNat = n := by
  rw [slice_two, be16At]
  cases xs[i]? <;> cases xs[i + 1]? <;> simp [u16FromBE_toNat]

theorem slice_four {xs : List α} {i : Nat} {a b c d : α} :
    slice xs i (i + 4) = some [a, b, c, d] ↔ xs[i]? = some a ∧ xs[i + 1]? = some b ∧
      xs[i + 2]? = some c ∧ xs[i + 3]? = some d := by
  by_cases inside : i + 3 < xs.length
  · have size : i + 4 - i = 4 := by omega
    have h₀ : i < xs.length := by omega
    have h₁ : i + 1 < xs.length := by omega
    have h₂ : i + 2 < xs.length := by omega
    rw [slice_of_le (by omega) (by omega), size, List.drop_eq_getElem_cons h₀,
      List.drop_eq_getElem_cons h₁, List.drop_eq_getElem_cons h₂,
      List.drop_eq_getElem_cons inside]
    simp only [List.take_succ_cons, List.take_zero, Option.some.injEq, List.cons.injEq, and_true,
      List.getElem?_eq_getElem h₀, List.getElem?_eq_getElem h₁, List.getElem?_eq_getElem h₂,
      List.getElem?_eq_getElem inside]
  · have short : xs[i + 3]? = none := List.getElem?_eq_none (by omega)
    rw [slice, if_neg (by omega), short]
    simp

end Bytes
