import HyperionVpn.Lib.Machine

/-! Copies of a machine side by side, one for each index. They share nothing, so
what each of them has done, in whatever order they ran, is a run of its own. -/
namespace Machine

variable {ι S I O : Type} [DecidableEq ι] {step : S → I → Option (O × S)}

/-- An input goes to the machine that it names. -/
def each (step : S → I → Option (O × S)) (s : ι → S) (input : ι × I) : Option (O × (ι → S)) :=
  (step (s input.1) input.2).map fun result => (result.1, Function.update s input.1 result.2)

/-- What one of the machines has done. -/
def own (k : ι) (tr : List ((ι × I) × O)) : List (I × O) :=
  tr.filterMap fun entry => if entry.1.1 = k then some (entry.1.2, entry.2) else none

theorem mem_own {k : ι} {tr : List ((ι × I) × O)} {i : I} {o : O} :
    (i, o) ∈ own k tr ↔ ((k, i), o) ∈ tr := by
  simp only [own, List.mem_filterMap, Option.ite_none_right_eq_some, Option.some.injEq,
    Prod.mk.injEq]
  constructor
  · rintro ⟨entry, member, rfl, rfl, rfl⟩
    exact member
  · intro member
    exact ⟨_, member, rfl, rfl, rfl⟩

theorem own_snoc (k : ι) (tr : List ((ι × I) × O)) (input : ι × I) (o : O) :
    own k (tr ++ [(input, o)]) = own k tr ++ if input.1 = k then [(input.2, o)] else [] := by
  by_cases mine : input.1 = k <;> simp [own, mine]

theorem each_eq_some {s t : ι → S} {input : ι × I} {o : O} :
    each step s input = some (o, t) ↔
      ∃ m, step (s input.1) input.2 = some (o, m) ∧ t = Function.update s input.1 m := by
  simp only [each, Option.map_eq_some_iff, Prod.mk.injEq]
  constructor
  · rintro ⟨⟨_, m⟩, stepped, rfl, rfl⟩
    exact ⟨m, stepped, rfl⟩
  · rintro ⟨m, stepped, rfl⟩
    exact ⟨_, stepped, rfl, rfl⟩

theorem Run.own {init s : ι → S} {tr : List ((ι × I) × O)} (run : Run (each step) init tr s)
    (k : ι) : Run step (init k) (own k tr) (s k) := by
  induction run with
  | nil => exact .nil
  | @snoc tr s input o t left stepped ih =>
    obtain ⟨m, stepped', rfl⟩ := each_eq_some.mp stepped
    rw [own_snoc]
    split <;> rename_i mine
    · subst mine
      rw [Function.update_self]
      exact ih.snoc stepped'
    · rw [Function.update_of_ne (Ne.symm mine), List.append_nil]
      exact ih

theorem Always.own {A : ι → S → I → Prop} {init s : ι → S} {tr : List ((ι × I) × O)}
    (run : Run (each step) init tr s)
    (all : Always (each step) init (fun s input => A input.1 (s input.1) input.2) tr) (k : ι) :
    Always step (init k) (A k) (own k tr) := by
  induction run with
  | nil =>
    intro before i o after m split
    simp [Machine.own] at split
  | @snoc tr s input o t left stepped ih =>
    obtain ⟨earlier, last⟩ := (Always.snoc_iff left).mp all
    rw [own_snoc]
    split <;> rename_i mine
    · subst mine
      exact (Always.snoc_iff (left.own _)).mpr ⟨ih earlier, last⟩
    · rw [List.append_nil]
      exact ih earlier

end Machine
