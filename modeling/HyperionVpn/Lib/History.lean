import Mathlib

/-! Histories as lists, oldest entry first: which entries may follow which, and
what has come since the last entry of a kind. -/
namespace History

variable {α : Type}

/-- Every entry is one that the entries before it allow. -/
def Conforms (allowed : List α → α → Prop) (l : List α) : Prop :=
  ∀ before a after, l = before ++ a :: after → allowed before a

variable {allowed : List α → α → Prop} {l : List α} {a : α}

theorem conforms_nil : Conforms allowed [] := by
  intro before a after split
  simp at split

theorem Conforms.snoc (h : Conforms allowed l) (last : allowed l a) :
    Conforms allowed (l ++ [a]) := by
  intro before b after split
  rcases List.eq_nil_or_concat after with rfl | ⟨after, c, rfl⟩
  · obtain ⟨rfl, same⟩ := List.append_inj' split rfl
    cases same
    exact last
  · rw [List.concat_eq_append, ← List.cons_append, ← List.append_assoc] at split
    obtain ⟨rfl, -⟩ := List.append_inj' split rfl
    exact h before b after rfl

/-- The entries after the last marked one. -/
def since (marks : α → Bool) (l : List α) : List α :=
  l.foldl (fun tail a => if marks a then [] else tail ++ [a]) []

variable {marks : α → Bool}

@[simp] theorem since_nil : since marks [] = [] := rfl

theorem since_mark (marked : marks a = true) : since marks (l ++ [a]) = [] := by
  simp [since, List.foldl_append, marked]

theorem since_other (unmarked : marks a = false) :
    since marks (l ++ [a]) = since marks l ++ [a] := by
  simp [since, List.foldl_append, unmarked]

end History
