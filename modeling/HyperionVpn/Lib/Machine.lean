import Mathlib

/-! Sequential components as partial step functions. A run records every input
with its output, oldest first. A step that yields `none` is a crash, so a run
of a list of inputs exists exactly as long as none of its steps crashes. -/
namespace Machine

variable {S T I O : Type} {step : S → I → Option (O × S)}

inductive Run (step : S → I → Option (O × S)) (init : S) : List (I × O) → S → Prop where
  | nil : Run step init [] init
  | snoc {tr s i o t} : Run step init tr s → step s i = some (o, t) →
      Run step init (tr ++ [(i, o)]) t

/-- Evaluates a list of inputs, for checking single runs. -/
def exec (step : S → I → Option (O × S)) (s : S) : List I → Option (List (I × O) × S)
  | [] => some ([], s)
  | i :: is =>
    match step s i with
    | none => none
    | some (o, t) =>
      match exec step t is with
      | none => none
      | some (tr, u) => some ((i, o) :: tr, u)

namespace Run

theorem single {s t : S} (h : step s i = some (o, t)) : Run step s [(i, o)] t :=
  .snoc .nil h

theorem trans {s t u : S} {a b : List (I × O)} (first : Run step s a t)
    (second : Run step t b u) : Run step s (a ++ b) u := by
  induction second with
  | nil => simpa using first
  | snoc _ h ih => simpa only [List.append_assoc] using ih.snoc h

theorem cons {s t u : S} (h : step s i = some (o, t)) (rest : Run step t tr u) :
    Run step s ((i, o) :: tr) u :=
  (single h).trans rest

theorem last_step {s t : S} (run : Run step s (tr ++ [(i, o)]) t) :
    ∃ m, Run step s tr m ∧ step m i = some (o, t) := by
  generalize full : tr ++ [(i, o)] = all at run
  cases run with
  | nil => simp at full
  | @snoc tr' m i' o' _ first h =>
    obtain ⟨rfl, last⟩ := List.append_inj' full rfl
    cases last
    exact ⟨m, first, h⟩

theorem nil_inv {s t : S} (run : Run step s [] t) : t = s := by
  generalize empty : ([] : List (I × O)) = tr at run
  cases run with
  | nil => rfl
  | snoc _ _ => simp at empty

theorem split {s u : S} {a b : List (I × O)} (run : Run step s (a ++ b) u) :
    ∃ t, Run step s a t ∧ Run step t b u := by
  induction b using List.reverseRecOn generalizing u with
  | nil => exact ⟨u, by simpa using run, .nil⟩
  | append_singleton b e ih =>
    obtain ⟨i, o⟩ := e
    rw [← List.append_assoc] at run
    obtain ⟨m, first, h⟩ := run.last_step
    obtain ⟨t, left, right⟩ := ih first
    exact ⟨t, left, right.snoc h⟩

theorem head_step {s u : S} (run : Run step s ((i, o) :: tr) u) :
    ∃ t, step s i = some (o, t) ∧ Run step t tr u := by
  obtain ⟨t, first, rest⟩ := split (a := [(i, o)]) run
  have alone : Run step s ([] ++ [(i, o)]) t := first
  obtain ⟨m, start, h⟩ := alone.last_step
  obtain rfl := start.nil_inv
  exact ⟨t, h, rest⟩

/-- The step at any position of a run, with the runs before and after it. -/
theorem at_step {s u : S} {a b : List (I × O)} (run : Run step s (a ++ (i, o) :: b) u) :
    ∃ t t', Run step s a t ∧ step t i = some (o, t') ∧ Run step t' b u := by
  obtain ⟨t, left, right⟩ := run.split
  obtain ⟨t', h, rest⟩ := right.head_step
  exact ⟨t, t', left, h, rest⟩

theorem functional {s t u : S} {a b : List (I × O)} (first : Run step s a t)
    (second : Run step s b u) (same : a.map Prod.fst = b.map Prod.fst) : a = b ∧ t = u := by
  induction first generalizing b u with
  | nil =>
    cases second with
    | nil => exact ⟨rfl, rfl⟩
    | snoc _ _ => simp at same
  | snoc _ h ih =>
    cases second with
    | nil => simp at same
    | snoc second' h' =>
      simp only [List.map_append, List.map_cons, List.map_nil] at same
      obtain ⟨init, last⟩ := List.append_inj' same rfl
      obtain ⟨rfl, rfl⟩ := ih second' init
      cases last
      cases h.symm.trans h'
      exact ⟨rfl, rfl⟩

theorem invariant {P : S → Prop} {s t : S} (run : Run step s tr t) (initial : P s)
    (preserves : ∀ {m i o m'}, P m → step m i = some (o, m') → P m') : P t := by
  induction run with
  | nil => exact initial
  | snoc _ h ih => exact preserves ih h

/-- Inputs that can never crash a state satisfying an invariant have a run. -/
theorem exists_of_total {P : S → Prop} (s : S) (initial : P s)
    (total : ∀ m i, P m → ∃ o m', step m i = some (o, m') ∧ P m') (inputs : List I) :
    ∃ tr t, Run step s tr t ∧ tr.map Prod.fst = inputs ∧ P t := by
  induction inputs using List.reverseRecOn with
  | nil => exact ⟨[], s, .nil, rfl, initial⟩
  | append_singleton is i ih =>
    obtain ⟨tr, t, run, same, holds⟩ := ih
    obtain ⟨o, t', h, holds'⟩ := total t i holds
    exact ⟨tr ++ [(i, o)], t', run.snoc h, by simp [same], holds'⟩

/-- Two states that answer every admissible input alike, and stay related,
answer a whole run of admissible inputs alike. -/
theorem transfer {R : S → S → Prop} {A : I → Prop}
    (matched : ∀ m n i o m', R m n → A i → step m i = some (o, m') →
      ∃ n', step n i = some (o, n') ∧ R m' n')
    {s t u : S} (run : Run step s tr t) (related : R s u)
    (admissible : ∀ e ∈ tr, A e.1) : ∃ v, Run step u tr v ∧ R t v := by
  induction run with
  | nil => exact ⟨u, .nil, related⟩
  | @snoc tr m i o m' _ h ih =>
    obtain ⟨n, left, rel⟩ := ih (fun e he => admissible e (by simp [he]))
    obtain ⟨n', h', rel'⟩ := matched m n i o m' rel (admissible (i, o) (by simp)) h
    exact ⟨n', left.snoc h', rel'⟩

end Run

/-- Evaluates whether every input is admissible in the state it meets. -/
def checkAll (step : S → I → Option (O × S)) (A : S → I → Prop) [∀ s i, Decidable (A s i)] (s : S) :
    List I → Bool
  | [] => true
  | i :: is =>
    decide (A s i) && match step s i with
      | none => true
      | some (_, t) => checkAll step A t is

/-- Every input of a trace is admissible in the state it meets. -/
def Always (step : S → I → Option (O × S)) (init : S) (A : S → I → Prop) (tr : List (I × O)) : Prop :=
  ∀ before i o after m, tr = before ++ (i, o) :: after → Run step init before m → A m i

theorem Always.prefix {A : S → I → Prop} {s : S} {a b : List (I × O)}
    (h : Always step s A (a ++ b)) : Always step s A a := by
  rintro before i o after m rfl
  exact h before i o (after ++ b) m (by simp)

theorem Always.last {A : S → I → Prop} {s m : S} {tr : List (I × O)}
    (h : Always step s A (tr ++ [(i, o)])) (run : Run step s tr m) : A m i :=
  h tr i o [] m rfl run

theorem Always.of_checkAll {A : S → I → Prop} [∀ s i, Decidable (A s i)] {s t : S} {is : List I}
    (checked : checkAll step A s is = true) (run : Run step s tr t) (inputs : tr.map Prod.fst = is) :
    Always step s A tr := by
  induction is generalizing s tr with
  | nil =>
    obtain rfl := List.map_eq_nil_iff.mp inputs
    intro before i o after m split
    simp at split
  | cons i is ih =>
    match tr, inputs with
    | (_, o) :: tr, rfl =>
      obtain ⟨s', first, rest⟩ := run.head_step
      simp only [checkAll, first, Bool.and_eq_true, decide_eq_true_eq] at checked
      intro before j p after m split left
      cases before with
      | nil =>
        obtain ⟨same, -⟩ := List.cons.inj split
        cases same
        obtain rfl := left.nil_inv
        exact checked.1
      | cons e before =>
        obtain ⟨rfl, tail⟩ := List.cons.inj split
        obtain ⟨s'', first', left'⟩ := left.head_step
        cases first.symm.trans first'
        exact ih checked.2 rest rfl before j p after m tail left'

/-- What admissible inputs preserve holds after every run of them. -/
theorem Run.invariant_always {P : S → Prop} {A : S → I → Prop} {s t : S} (run : Run step s tr t)
    (admissible : Always step s A tr) (initial : P s)
    (preserves : ∀ {m i o m'}, P m → A m i → step m i = some (o, m') → P m') : P t := by
  induction run with
  | nil => exact initial
  | snoc left h ih => exact preserves (ih admissible.prefix) (admissible.last left) h

theorem Always.snoc_iff {A : S → I → Prop} {s m : S} {tr : List (I × O)} (left : Run step s tr m) :
    Always step s A (tr ++ [(i, o)]) ↔ Always step s A tr ∧ A m i := by
  constructor
  · intro all
    refine ⟨?_, all.last left⟩
    exact all.prefix
  · rintro ⟨earlier, last⟩ before j p after m' split run
    rcases List.eq_nil_or_concat after with rfl | ⟨after, e, rfl⟩
    · obtain ⟨rfl, same⟩ := List.append_inj' split rfl
      cases same
      obtain ⟨-, rfl⟩ := left.functional run rfl
      exact last
    · rw [List.concat_eq_append, ← List.cons_append, ← List.append_assoc] at split
      obtain ⟨rfl, -⟩ := List.append_inj' split rfl
      exact earlier before j p after m' rfl run

/-- Two properties of steps that agree wherever an invariant holds, and of
which the first preserves it, hold along the same runs. -/
theorem Run.always_congr {P : S → Prop} {A B : S → I → Prop} {s t : S} (run : Run step s tr t)
    (initial : P s) (same : ∀ m i, P m → (A m i ↔ B m i))
    (preserves : ∀ {m i o m'}, P m → A m i → step m i = some (o, m') → P m') :
    Always step s A tr ↔ Always step s B tr := by
  induction run with
  | nil =>
    constructor <;>
    · intro _ before i o after m split
      simp at split
  | snoc left _ ih =>
    rw [Always.snoc_iff left, Always.snoc_iff left, ← ih]
    apply and_congr_right
    intro earlier
    exact same _ _ (left.invariant_always earlier initial preserves)

theorem exec_run {s t : S} {is : List I} (h : exec step s is = some (tr, t)) :
    Run step s tr t ∧ tr.map Prod.fst = is := by
  induction is generalizing s tr with
  | nil =>
    cases h
    exact ⟨.nil, rfl⟩
  | cons i is ih =>
    simp only [exec] at h
    split at h
    · contradiction
    · rename_i o m hstep
      split at h
      · contradiction
      · rename_i tr' u hrest
        cases h
        obtain ⟨rest, same⟩ := ih hrest
        exact ⟨.cons hstep rest, by simp [same]⟩

/-- Every state that a trace goes through has the property, the last included. -/
def Everywhere (step : S → I → Option (O × S)) (init : S) (P : S → Prop) (tr : List (I × O)) : Prop :=
  ∀ before after m, tr = before ++ after → Run step init before m → P m

theorem Everywhere.nil_iff {P : S → Prop} {s : S} : Everywhere step s P [] ↔ P s := by
  constructor
  · intro all
    exact all [] [] s rfl .nil
  · intro holds before after m split run
    obtain ⟨rfl, rfl⟩ := List.append_eq_nil_iff.mp split.symm
    obtain rfl := run.nil_inv
    exact holds

theorem Everywhere.last {P : S → Prop} {s t : S} (all : Everywhere step s P tr)
    (run : Run step s tr t) : P t :=
  all tr [] t (List.append_nil tr).symm run

theorem Everywhere.snoc_iff {P : S → Prop} {s m t : S} {tr : List (I × O)}
    (left : Run step s tr m) (h : step m i = some (o, t)) :
    Everywhere step s P (tr ++ [(i, o)]) ↔ Everywhere step s P tr ∧ P t := by
  constructor
  · intro all
    refine ⟨?_, all.last (left.snoc h)⟩
    rintro before after m' rfl run
    exact all before (after ++ [(i, o)]) m' (by simp) run
  · rintro ⟨earlier, last⟩ before after m' split run
    rcases List.eq_nil_or_concat after with rfl | ⟨after, e, rfl⟩
    · rw [List.append_nil] at split
      subst split
      obtain ⟨-, rfl⟩ := (left.snoc h).functional run rfl
      exact last
    · rw [List.concat_eq_append, ← List.append_assoc] at split
      obtain ⟨rfl, -⟩ := List.append_inj' split rfl
      exact earlier before after m' rfl run

/-- A property of states that a step keeps exactly if it is admissible holds
everywhere along the runs of admissible steps, and along no others. -/
theorem Run.everywhere_iff {P Q : S → Prop} {A : S → I → Prop} {s t : S} (run : Run step s tr t)
    (initial : P s) (initially : Q s)
    (preserves : ∀ {m i o m'}, Q m → step m i = some (o, m') → Q m')
    (exactly : ∀ {m i o m'}, Q m → P m → step m i = some (o, m') → (P m' ↔ A m i)) :
    Everywhere step s P tr ↔ Always step s A tr := by
  induction run with
  | nil =>
    rw [Everywhere.nil_iff]
    refine ⟨fun _ before i o after m split => ?_, fun _ => initial⟩
    simp at split
  | snoc left h ih =>
    rw [Everywhere.snoc_iff left h, Always.snoc_iff left, ← ih]
    apply and_congr_right
    intro earlier
    exact exactly (left.invariant initially preserves) (earlier.last left) h

/-- A measure that every counted step lowers bounds how many a run takes. -/
theorem Run.count_le {P : S → Prop} {counts : I → Bool} {μ : S → Nat} {s t : S}
    (run : Run step s tr t) (initial : P s)
    (preserves : ∀ {m i o m'}, P m → step m i = some (o, m') → P m')
    (falls : ∀ {m i o m'}, P m → step m i = some (o, m') → μ m' + (counts i).toNat ≤ μ m) :
    tr.countP (fun e => counts e.1) + μ t ≤ μ s := by
  induction run with
  | nil => simp
  | @snoc tr m i o m' left h ih =>
    have fell := falls (left.invariant initial preserves) h
    rw [List.countP_append]
    cases counted : counts i <;> simp [counted] at fell ⊢ <;> omega

end Machine
