import Mathlib

/-! The saturating and absolute differences of unsigned 64-bit words, and their
values as natural numbers. -/
namespace Word

def saturatingSub (a b : UInt64) : UInt64 := if b ≤ a then a - b else 0

def absDiff (a b : UInt64) : UInt64 := if b ≤ a then a - b else b - a

@[simp] theorem saturatingSub_toNat (a b : UInt64) :
    (saturatingSub a b).toNat = a.toNat - b.toNat := by
  unfold saturatingSub
  split <;> rename_i h <;> rw [UInt64.le_iff_toNat_le] at h
  · exact UInt64.toNat_sub_of_le _ _ (UInt64.le_iff_toNat_le.mpr h)
  · have : a.toNat - b.toNat = 0 := by omega
    simp [this]

@[simp] theorem absDiff_toNat (a b : UInt64) :
    (absDiff a b).toNat = (a.toNat - b.toNat) + (b.toNat - a.toNat) := by
  unfold absDiff
  split <;> rename_i h <;> rw [UInt64.le_iff_toNat_le] at h
  · rw [UInt64.toNat_sub_of_le _ _ (UInt64.le_iff_toNat_le.mpr h)]
    omega
  · rw [UInt64.toNat_sub_of_le _ _ (UInt64.le_iff_toNat_le.mpr (by omega))]
    omega

theorem max_toNat (a b : UInt64) : (max a b).toNat = max a.toNat b.toNat := by
  have unfolded : max a b = if a ≤ b then b else a := rfl
  rw [unfolded]
  split <;> rename_i h <;> rw [UInt64.le_iff_toNat_le] at h <;> omega

end Word
