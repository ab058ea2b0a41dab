import Mathlib

/-! First-fit allocation from an ordered pool. Items that wish for a value get
it; the others get, one after the other, the first value of the pool that is
not in use, so that together they hold the lowest free values. -/
namespace FirstFit

variable {ι α : Type} {wish : ι → Option α} {pool : List α} {used : Finset α}

def wishes (wish : ι → Option α) (items : List ι) : List α := items.filterMap wish

/-- What the items without a wish got, in order. -/
def granted (wish : ι → Option α) (zs : List (ι × α)) : List α :=
  (zs.filter fun z => (wish z.1).isNone).map Prod.snd

theorem mem_granted {zs : List (ι × α)} {a : α} :
    a ∈ granted wish zs ↔ ∃ z ∈ zs, wish z.1 = none ∧ z.2 = a := by
  simp [granted, and_assoc]

theorem mem_wishes {items : List ι} {a : α} :
    a ∈ wishes wish items ↔ ∃ i ∈ items, wish i = some a := by
  simp [wishes]

theorem wished_eq {zs : List (ι × α)}
    (honored : ∀ z ∈ zs, ∀ a, wish z.1 = some a → z.2 = a) :
    (zs.filter fun z => !(wish z.1).isNone).map Prod.snd = wishes wish (zs.map Prod.fst) := by
  induction zs with
  | nil => rfl
  | cons z zs ih =>
    have tail := ih fun y member => honored y (List.mem_cons_of_mem _ member)
    cases h : wish z.1 with
    | none => simpa [wishes, h] using tail
    | some a =>
      have same := honored z List.mem_cons_self a h
      simpa [wishes, h, same] using tail

/-- The item at a position got the value that the number of such items before
it says. -/
theorem granted_getElem {zs : List (ι × α)} {i : Nat} {z : ι × α} (here : zs[i]? = some z)
    (plain : wish z.1 = none) :
    (granted wish zs)[(zs.take i).countP fun z => (wish z.1).isNone]? = some z.2 := by
  induction zs generalizing i with
  | nil => simp at here
  | cons y zs ih =>
    cases i with
    | zero =>
      cases here
      simp [granted, plain]
    | succ i =>
      have later := ih here
      cases h : wish y.1 with
      | none => simpa [granted, h] using later
      | some a => simpa [granted, h] using later

section Serving
variable [DecidableEq α]

/-- The values of the pool that are not in use. -/
def free (pool : List α) (used : Finset α) : List α := pool.filter (· ∉ used)

def firstFree (pool : List α) (used : Finset α) : Option α := pool.find? (· ∉ used)

/-- Serves the items in order. What has been given out counts as in use. -/
def serve (wish : ι → Option α) (pool : List α) (used : Finset α) : List ι → Option (List α)
  | [] => some []
  | item :: rest =>
    match wish item with
    | some a => (serve wish pool used rest).map (a :: ·)
    | none => (firstFree pool used).bind fun a =>
      (serve wish pool (insert a used) rest).map (a :: ·)

/-- Each item with what it got. -/
structure Served (wish : ι → Option α) (pool : List α) (used : Finset α) (zs : List (ι × α)) :
    Prop where
  honored : ∀ z ∈ zs, ∀ a, wish z.1 = some a → z.2 = a
  lowest : granted wish zs <+: free pool used

theorem mem_free {a : α} : a ∈ free pool used ↔ a ∈ pool ∧ a ∉ used := by
  simp [free]

theorem free_sublist {less : Finset α} (fewer : less ⊆ used) :
    (free pool used).Sublist (free pool less) := by
  apply List.monotone_filter_right
  intro a unused
  simp only [decide_eq_true_eq] at unused ⊢
  exact fun member => unused (fewer member)

theorem free_length (nodup : pool.Nodup) (inside : ∀ a ∈ used, a ∈ pool) :
    (free pool used).length + used.card = pool.length := by
  have members : (free pool used).toFinset = pool.toFinset \ used := by
    ext a
    simp [mem_free]
  have sub : used ⊆ pool.toFinset := by
    intro a member
    exact List.mem_toFinset.mpr (inside a member)
  have freeNodup : (free pool used).Nodup := nodup.filter _
  rw [← List.toFinset_card_of_nodup freeNodup, ← List.toFinset_card_of_nodup nodup, members]
  exact Finset.card_sdiff_add_card_eq_card sub

theorem firstFree_eq_head : firstFree pool used = (free pool used).head? := by
  simp [firstFree, free, List.head?_filter]

theorem firstFree_eq_some {a : α} :
    firstFree pool used = some a ↔ ∃ others, free pool used = a :: others := by
  rw [firstFree_eq_head, List.head?_eq_some_iff]

/-- Taking the first free value leaves the others free. -/
theorem free_insert_head {a : α} {rest : List α} (nodup : pool.Nodup)
    (head : free pool used = a :: rest) : free pool (insert a used) = rest := by
  have fresh : a ∉ rest := by
    have all : (free pool used).Nodup := nodup.filter _
    rw [head] at all
    exact (List.nodup_cons.mp all).1
  calc free pool (insert a used) = (free pool used).filter (· ≠ a) := by
        simp [free, List.filter_filter, Bool.decide_and]
    _ = rest := by
        rw [head, List.filter_cons_of_neg (by simp), List.filter_eq_self]
        intro b member
        have other : b ≠ a := by
          rintro rfl
          exact fresh member
        simpa using other

theorem serve_eq_some_iff (nodup : pool.Nodup) {items : List ι} {out : List α} :
    serve wish pool used items = some out ↔
      out.length = items.length ∧ Served wish pool used (items.zip out) := by
  induction items generalizing used out with
  | nil =>
    constructor
    · rintro ⟨⟩
      exact ⟨rfl, ⟨by simp, by simp [granted]⟩⟩
    · rintro ⟨size, -⟩
      rw [List.length_eq_zero_iff.mp size]
      rfl
  | cons item rest ih =>
    cases out with
    | nil => cases h : wish item <;> simp [serve, h, Option.bind_eq_some_iff]
    | cons a out =>
      cases h : wish item with
      | some b =>
        simp only [serve, h, Option.map_eq_some_iff, List.cons.injEq, List.zip_cons_cons,
          List.length_cons, Nat.add_right_cancel_iff]
        constructor
        · rintro ⟨tail, served, rfl, rfl⟩
          obtain ⟨size, honored, lowest⟩ := ih.mp served
          refine ⟨size, ?_, ?_⟩
          · rintro z (_ | ⟨_, member⟩) c same
            · exact Option.some.inj (h.symm.trans same)
            · exact honored z member c same
          · simpa [granted, h] using lowest
        · rintro ⟨size, honored, lowest⟩
          refine ⟨out, ih.mpr ⟨size, ?_, ?_⟩, ?_, rfl⟩
          · intro z member c same
            exact honored z (List.mem_cons_of_mem _ member) c same
          · simpa [granted, h] using lowest
          · exact (honored _ List.mem_cons_self b h).symm
      | none =>
        have got : granted wish ((item, a) :: rest.zip out) = a :: granted wish (rest.zip out) := by
          simp [granted, h]
        simp only [serve, h, Option.bind_eq_some_iff, Option.map_eq_some_iff, List.cons.injEq,
          List.zip_cons_cons, List.length_cons, Nat.add_right_cancel_iff]
        constructor
        · rintro ⟨b, first, tail, served, rfl, rfl⟩
          obtain ⟨others, head⟩ := firstFree_eq_some.mp first
          obtain ⟨size, honored, lowest⟩ := ih.mp served
          refine ⟨size, ?_, ?_⟩
          · rintro z (_ | ⟨_, member⟩) c same
            · rw [h] at same
              cases same
            · exact honored z member c same
          · rw [free_insert_head nodup head] at lowest
            rw [got, head]
            exact List.cons_prefix_cons.mpr ⟨rfl, lowest⟩
        · rintro ⟨size, honored, lowest⟩
          rw [got] at lowest
          obtain ⟨later, head⟩ := lowest
          have others := free_insert_head nodup head.symm
          refine ⟨a, firstFree_eq_some.mpr ⟨_, head.symm⟩, out, ih.mpr ⟨size, ?_, ?_⟩, rfl, rfl⟩
          · intro z member c same
            exact honored z (List.mem_cons_of_mem _ member) c same
          · rw [others]
            exact List.prefix_append _ _

/-- Serving fails only where the free values run out. -/
theorem serve_isSome_iff (nodup : pool.Nodup) {items : List ι} :
    (∃ out, serve wish pool used items = some out) ↔
      items.countP (fun i => (wish i).isNone) ≤ (free pool used).length := by
  induction items generalizing used with
  | nil => simp [serve]
  | cons item rest ih =>
    cases h : wish item with
    | some b =>
      simp only [serve, h, Option.map_eq_some_iff, List.countP_cons, Option.isNone_some,
        Bool.false_eq_true, if_false, Nat.add_zero, ← ih]
      constructor
      · rintro ⟨out, tail, served, -⟩
        exact ⟨tail, served⟩
      · rintro ⟨tail, served⟩
        exact ⟨_, tail, served, rfl⟩
    | none =>
      simp only [serve, h, Option.bind_eq_some_iff, Option.map_eq_some_iff, List.countP_cons,
        Option.isNone_none, if_true]
      constructor
      · rintro ⟨out, a, first, tail, served, -⟩
        obtain ⟨others, head⟩ := firstFree_eq_some.mp first
        have enough := ih.mp ⟨tail, served⟩
        rw [free_insert_head nodup head] at enough
        rw [head, List.length_cons]
        omega
      · intro enough
        cases head : free pool used with
        | nil =>
          rw [head] at enough
          simp at enough
        | cons a others =>
          rw [head, List.length_cons] at enough
          obtain ⟨tail, served⟩ : ∃ out, serve wish pool (insert a used) rest = some out := by
            rw [ih, free_insert_head nodup head]
            omega
          exact ⟨_, a, firstFree_eq_some.mpr ⟨others, head⟩, tail, served, rfl⟩

end Serving

section Ordered
variable [LinearOrder α] {zs : List (ι × α)}

theorem firstFree_eq_some_iff_isLeast (sorted : pool.Pairwise (· < ·)) {a : α} :
    firstFree pool used = some a ↔ IsLeast {b | b ∈ pool ∧ b ∉ used} a := by
  have freeSorted : (free pool used).Pairwise (· < ·) := sorted.filter _
  rw [firstFree_eq_some]
  constructor
  · rintro ⟨others, head⟩
    rw [head, List.pairwise_cons] at freeSorted
    have members {b : α} : (b ∈ pool ∧ b ∉ used) ↔ b = a ∨ b ∈ others := by
      rw [← mem_free, head, List.mem_cons]
    refine ⟨members.mpr (.inl rfl), ?_⟩
    intro b open_
    rcases members.mp open_ with rfl | later
    · exact le_rfl
    · exact (freeSorted.1 b later).le
  · rintro ⟨open_, least⟩
    cases head : free pool used with
    | nil =>
      have member := mem_free.mpr open_
      rw [head] at member
      cases member
    | cons b others =>
      rw [head, List.pairwise_cons] at freeSorted
      have member : a ∈ b :: others := head ▸ mem_free.mpr open_
      have first : b ∈ free pool used := head ▸ List.mem_cons_self
      rcases List.mem_cons.mp member with rfl | later
      · exact ⟨others, rfl⟩
      · have low := least (mem_free.mp first)
        exact absurd (freeSorted.1 a later) low.not_gt

/-- In a sorted list, the sorted sublists that form a prefix are the ones that
leave nothing smaller out. -/
theorem prefix_iff_lower {q f : List α} (sortedQ : q.Pairwise (· < ·))
    (sortedF : f.Pairwise (· < ·)) (inside : ∀ a ∈ q, a ∈ f) : q <+: f ↔ ∀ a ∈ q, ∀ b ∈ f, b < a → b ∈ q := by
  constructor
  · rintro ⟨rest, rfl⟩ a low b member less
    rcases List.mem_append.mp member with front | back
    · exact front
    · exact absurd less ((List.pairwise_append.mp sortedF).2.2 a low b back).not_gt
  · intro closed
    induction q generalizing f with
    | nil => exact List.nil_prefix
    | cons a q ih =>
      cases f with
      | nil => exact absurd (inside a List.mem_cons_self) List.not_mem_nil
      | cons b f =>
        obtain ⟨belowQ, tailQ⟩ := List.pairwise_cons.mp sortedQ
        obtain ⟨belowF, tailF⟩ := List.pairwise_cons.mp sortedF
        have first : b = a := by
          rcases List.mem_cons.mp (inside a List.mem_cons_self) with same | later
          · exact same.symm
          · have least := closed a List.mem_cons_self b List.mem_cons_self (belowF a later)
            rcases List.mem_cons.mp least with same | inner
            · exact same
            · exact absurd (belowF a later) (belowQ b inner).not_gt
        subst first
        rw [List.cons_prefix_cons]
        refine ⟨rfl, ih tailQ tailF ?_ ?_⟩
        · intro c member
          rcases List.mem_cons.mp (inside c (List.mem_cons_of_mem _ member)) with rfl | later
          · exact absurd (belowQ c member) (lt_irrefl c)
          · exact later
        · intro c member d later less
          rcases List.mem_cons.mp (closed c (List.mem_cons_of_mem _ member) d
            (List.mem_cons_of_mem _ later) less) with rfl | inner
          · exact absurd (belowF d later) (lt_irrefl d)
          · exact inner

theorem free_sorted (sorted : pool.Pairwise (· < ·)) : (free pool used).Pairwise (· < ·) :=
  sorted.filter _

theorem Served.granted_sorted (served : Served wish pool used zs) (sorted : pool.Pairwise (· < ·)) :
    (granted wish zs).Pairwise (· < ·) :=
  (free_sorted sorted).sublist served.lowest.sublist

/-- No value is given out twice. -/
theorem Served.nodup (sorted : pool.Pairwise (· < ·))
    (distinct : (wishes wish (zs.map Prod.fst)).Nodup)
    (served : Served wish pool (wishes wish (zs.map Prod.fst)).toFinset zs) :
    (zs.map Prod.snd).Nodup := by
  have parts := (List.filter_append_perm (fun z => (wish z.1).isNone) zs).map Prod.snd
  rw [List.map_append, wished_eq served.honored] at parts
  rw [← parts.nodup_iff, List.nodup_append]
  refine ⟨(served.granted_sorted sorted).imp ne_of_lt, distinct, ?_⟩
  rintro a low _ wished rfl
  have unused := (mem_free.mp (served.lowest.subset low)).2
  exact unused (List.mem_toFinset.mpr wished)

/-- Where some items leave, the others keep what they got exactly if none that
leaves holds a value of the pool below one of a remaining item without a wish. -/
theorem Served.filter_iff (sorted : pool.Pairwise (· < ·))
    (distinct : (wishes wish (zs.map Prod.fst)).Nodup)
    (served : Served wish pool (wishes wish (zs.map Prod.fst)).toFinset zs) (keep : ι → Bool) :
    Served wish pool (wishes wish ((zs.filter fun z => keep z.1).map Prod.fst)).toFinset
        (zs.filter fun z => keep z.1) ↔
      ∀ z ∈ zs, keep z.1 = true → wish z.1 = none →
        ∀ y ∈ zs, keep y.1 = false → y.2 ∈ pool → ¬ y.2 < z.2 := by
  have nodup := served.nodup sorted distinct
  have kept {z : ι × α} : (z ∈ zs.filter fun z => keep z.1) ↔ z ∈ zs ∧ keep z.1 = true := by
    simp
  generalize rest_eq : (zs.filter fun z => keep z.1) = rest at kept ⊢
  -- A value in use by the rest is one that a remaining item wished for.
  have in_use {a : α} : a ∈ (wishes wish (rest.map Prod.fst)).toFinset ↔
      ∃ z ∈ zs, keep z.1 = true ∧ wish z.1 = some a ∧ z.2 = a := by
    simp only [List.mem_toFinset, mem_wishes, List.mem_map]
    constructor
    · rintro ⟨_, ⟨z, member, rfl⟩, wished⟩
      obtain ⟨inside, stays⟩ := kept.mp member
      exact ⟨z, inside, stays, wished, served.honored z inside a wished⟩
    · rintro ⟨z, inside, stays, wished, -⟩
      exact ⟨_, ⟨z, kept.mpr ⟨inside, stays⟩, rfl⟩, wished⟩
  have honored : ∀ z ∈ rest, ∀ a, wish z.1 = some a → z.2 = a :=
    fun z member => served.honored z (kept.mp member).1
  have sub : (granted wish rest).Sublist (granted wish zs) := by
    rw [← rest_eq]
    exact (List.filter_sublist.filter _).map _
  have unused : ∀ a ∈ granted wish rest,
      a ∈ free pool (wishes wish (rest.map Prod.fst)).toFinset := by
    intro a low
    obtain ⟨inside, fresh⟩ := mem_free.mp (served.lowest.subset (sub.subset low))
    refine mem_free.mpr ⟨inside, fun used => fresh ?_⟩
    obtain ⟨z, member, -, wished, -⟩ := in_use.mp used
    exact List.mem_toFinset.mpr (mem_wishes.mpr ⟨_, List.mem_map_of_mem member, wished⟩)
  have lower := prefix_iff_lower ((served.granted_sorted sorted).sublist sub)
    (free_sorted sorted) unused
  constructor
  · rintro ⟨-, lowest⟩ z member stays plain y gone leaves inside less
    have other : ∀ x ∈ zs, keep x.1 = true → x.2 ≠ y.2 := by
      intro x held keeps same
      obtain rfl := List.inj_on_of_nodup_map nodup held gone same
      rw [leaves] at keeps
      cases keeps
    have open_ : y.2 ∈ free pool (wishes wish (rest.map Prod.fst)).toFinset := by
      refine mem_free.mpr ⟨inside, fun used => ?_⟩
      obtain ⟨x, held, keeps, -, same⟩ := in_use.mp used
      exact other x held keeps same
    have low : z.2 ∈ granted wish rest :=
      mem_granted.mpr ⟨z, kept.mpr ⟨member, stays⟩, plain, rfl⟩
    obtain ⟨x, held, -, same⟩ := mem_granted.mp (lower.mp lowest z.2 low y.2 open_ less)
    obtain ⟨held, keeps⟩ := kept.mp held
    exact other x held keeps same
  · intro above
    refine ⟨honored, lower.mpr ?_⟩
    intro a low b open_ less
    obtain ⟨z, member, plain, rfl⟩ := mem_granted.mp low
    obtain ⟨member, stays⟩ := kept.mp member
    obtain ⟨inside, fresh⟩ := mem_free.mp open_
    have remains : ∀ y ∈ zs, y.2 = b → keep y.1 = true := by
      rintro y held rfl
      by_contra leaves
      exact above z member stays plain y held (by simpa using leaves) inside less
    by_cases used : b ∈ (wishes wish (zs.map Prod.fst)).toFinset
    · obtain ⟨_, listed, wanted⟩ := mem_wishes.mp (List.mem_toFinset.mp used)
      obtain ⟨y, held, rfl⟩ := List.mem_map.mp listed
      have same := served.honored y held b wanted
      exact absurd (in_use.mpr ⟨y, held, remains y held same, wanted, same⟩) fresh
    · have closed := (prefix_iff_lower (served.granted_sorted sorted) (free_sorted sorted)
        fun _ member => served.lowest.subset member).mp served.lowest
      have before := closed z.2 (sub.subset low) b (mem_free.mpr ⟨inside, used⟩) less
      obtain ⟨y, held, wishless, same⟩ := mem_granted.mp before
      exact mem_granted.mpr ⟨y, kept.mpr ⟨held, remains y held same⟩, wishless, same⟩

/-- A new item that wishes for the first free value takes it away from the
items without a wish, if there are any. -/
theorem Served.snoc_iff (nodup : pool.Nodup) {item : ι} {a : α}
    (served : Served wish pool used zs) (first : firstFree pool used = some a)
    (wished : wish item = some a) :
    Served wish pool (insert a used) (zs ++ [(item, a)]) ↔ ∀ z ∈ zs, wish z.1 ≠ none := by
  obtain ⟨others, head⟩ := firstFree_eq_some.mp first
  have same : granted wish (zs ++ [(item, a)]) = granted wish zs := by
    simp [granted, wished]
  have honored : ∀ z ∈ zs ++ [(item, a)], ∀ b, wish z.1 = some b → z.2 = b := by
    intro z member b wants
    rcases List.mem_append.mp member with old | new
    · exact served.honored z old b wants
    · rw [List.mem_singleton.mp new] at wants ⊢
      exact Option.some.inj (wished.symm.trans wants)
  constructor
  · rintro ⟨-, lowest⟩ z member plain
    have low : z.2 ∈ granted wish zs := mem_granted.mpr ⟨z, member, plain, rfl⟩
    have before := served.lowest
    rw [same, free_insert_head nodup head] at lowest
    rw [head] at before
    have all : (a :: others).Nodup := head ▸ nodup.filter _
    cases got : granted wish zs with
    | nil =>
      rw [got] at low
      cases low
    | cons b rest =>
      rw [got] at lowest before
      obtain ⟨rfl, -⟩ := List.cons_prefix_cons.mp before
      exact (List.nodup_cons.mp all).1 (lowest.subset List.mem_cons_self)
  · intro all
    have none_low : granted wish zs = [] := by
      rw [List.eq_nil_iff_forall_not_mem]
      intro b low
      obtain ⟨z, member, plain, -⟩ := mem_granted.mp low
      exact all z member plain
    refine ⟨honored, ?_⟩
    rw [same, none_low]
    exact List.nil_prefix

end Ordered
end FirstFit
