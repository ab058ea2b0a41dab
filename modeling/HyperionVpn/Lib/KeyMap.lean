import Mathlib

/-! Finite maps with the operations of a hash map whose iteration order is
never observed: lookup, insertion that overwrites, and `retain`. The map is
mathlib's association list, so distinct keys hold by construction. -/

/-- A map from keys to values with at most one entry for each key. -/
abbrev KeyMap (K V : Type) := AList (fun _ : K => V)

namespace KeyMap

variable {K V : Type}

def size (m : KeyMap K V) : Nat := m.entries.length

/-- Key and value of every entry, in some order. -/
def pairs (m : KeyMap K V) : List (K × V) := m.entries.map (fun e => (e.1, e.2))

/-- Keeps the entries whose value passes the test. -/
def retain (p : V → Bool) (m : KeyMap K V) : KeyMap K V :=
  ⟨m.entries.filter (fun e => p e.2), m.nodupKeys.sublist List.filter_sublist⟩

@[simp] theorem pairs_length (m : KeyMap K V) : m.pairs.length = m.size := by
  simp [pairs, size]

@[simp] theorem size_empty : size (∅ : KeyMap K V) = 0 := rfl

@[simp] theorem pairs_empty : pairs (∅ : KeyMap K V) = [] := rfl

@[simp] theorem pairs_retain (p : V → Bool) (m : KeyMap K V) :
    (m.retain p).pairs = m.pairs.filter (fun e => p e.2) := by
  simp [pairs, retain, List.filter_map, Function.comp_def]

theorem retain_retain {p q : V → Bool} (narrower : ∀ v, q v = true → p v = true)
    (m : KeyMap K V) : (m.retain p).retain q = m.retain q := by
  apply AList.ext
  simp only [retain, List.filter_filter]
  apply List.filter_congr
  intro e _
  cases h : q e.2 with
  | false => rfl
  | true => simp [narrower _ h]

theorem size_retain_le (p : V → Bool) (m : KeyMap K V) : (m.retain p).size ≤ m.size :=
  List.length_filter_le _ _

theorem retain_eq_self {p : V → Bool} {m : KeyMap K V} (all : ∀ e ∈ m.pairs, p e.2 = true) :
    m.retain p = m := by
  apply AList.ext
  simp only [retain, List.filter_eq_self]
  intro e he
  exact all (e.1, e.2) (List.mem_map.mpr ⟨e, he, rfl⟩)

theorem keys_nodup (m : KeyMap K V) : (m.pairs.map Prod.fst).Nodup := by
  rw [pairs, List.map_map]
  exact m.nodupKeys

theorem pairs_nodup (m : KeyMap K V) : m.pairs.Nodup := m.keys_nodup.of_map

variable [DecidableEq K]

theorem mem_pairs {m : KeyMap K V} {k : K} {v : V} : (k, v) ∈ m.pairs ↔ m.lookup k = some v := by
  rw [← Option.mem_def, AList.mem_lookup_iff]
  simp only [pairs, List.mem_map, Prod.mk.injEq]
  constructor
  · rintro ⟨⟨k', v'⟩, member, rfl, rfl⟩
    exact member
  · intro member
    exact ⟨⟨k, v⟩, member, rfl, rfl⟩

theorem mem_iff_pairs {m : KeyMap K V} {k : K} : k ∈ m ↔ ∃ v, (k, v) ∈ m.pairs := by
  rw [← AList.lookup_isSome, Option.isSome_iff_exists]
  simp only [mem_pairs]

theorem pairs_insert_of_notMem {m : KeyMap K V} {k : K} (fresh : k ∉ m) (v : V) :
    pairs (m.insert k v) = (k, v) :: m.pairs := by
  rw [pairs, AList.entries_insert_of_notMem fresh]
  rfl

theorem size_insert_of_notMem {m : KeyMap K V} {k : K} (fresh : k ∉ m) (v : V) :
    size (m.insert k v) = m.size + 1 := by
  rw [size, AList.entries_insert_of_notMem fresh]
  rfl

theorem size_insert_le (m : KeyMap K V) (k : K) (v : V) : size (m.insert k v) ≤ m.size + 1 := by
  rw [size, AList.entries_insert, List.length_cons]
  exact Nat.succ_le_succ (List.kerase_sublist k m.entries).length_le

theorem pairs_erase_perm (m : KeyMap K V) (k : K) :
    (pairs (m.erase k)).Perm (m.pairs.filter (·.1 ≠ k)) := by
  rw [List.perm_ext_iff_of_nodup (pairs_nodup _) ((pairs_nodup m).filter _)]
  rintro ⟨n, v⟩
  rw [List.mem_filter, mem_pairs, mem_pairs, decide_eq_true_eq]
  by_cases same : n = k
  · subst same
    simp
  · simp [AList.lookup_erase_ne same, same]

theorem lookup_retain (p : V → Bool) (m : KeyMap K V) (k : K) :
    (m.retain p).lookup k = (m.lookup k).filter p := by
  ext v
  simp only [← mem_pairs, pairs_retain, List.mem_filter, Option.filter_eq_some_iff]

/-! Orders of iteration, and maps collected from lists. -/

/-- An order in which the entries can come out of the map. -/
structure Iteration (m : KeyMap K V) where
  entries : List (K × V)
  perm : entries.Perm m.pairs

namespace Iteration

variable {m : KeyMap K V}

theorem mem_iff (order : Iteration m) {k : K} {v : V} :
    (k, v) ∈ order.entries ↔ m.lookup k = some v := by
  rw [order.perm.mem_iff, mem_pairs]

omit [DecidableEq K] in
theorem length (order : Iteration m) : order.entries.length = m.size := by
  rw [order.perm.length_eq, pairs_length]

omit [DecidableEq K] in
theorem keys_nodup (order : Iteration m) : (order.entries.map Prod.fst).Nodup :=
  (order.perm.map Prod.fst).nodup_iff.mpr m.keys_nodup

/-- A function is injective on the values under different keys exactly if it
takes every order of them to distinct results. -/
theorem map_nodup_iff {L : Type} (order : Iteration m) (f : V → L) :
    (order.entries.map (fun e => f e.2)).Nodup ↔
      ∀ k k' v v', m.lookup k = some v → m.lookup k' = some v' → f v = f v' → k = k' := by
  have nodup : order.entries.Nodup := order.keys_nodup.of_map
  rw [List.nodup_map_iff_inj_on nodup]
  constructor
  · intro injective k k' v v' found found' same
    exact congrArg Prod.fst (injective (k, v) (order.mem_iff.mpr found) (k', v')
      (order.mem_iff.mpr found') same)
  · rintro injective ⟨k, v⟩ member ⟨k', v'⟩ member' same
    have found := order.mem_iff.mp member
    have found' := order.mem_iff.mp member'
    obtain rfl := injective k k' v v' found found' same
    cases found.symm.trans found'
    rfl

end Iteration

/-- Inserts the pairs in order, the later over the earlier. -/
def collect (pairs : List (K × V)) : KeyMap K V :=
  pairs.foldl (fun m e => m.insert e.1 e.2) ∅

theorem collect_snoc (pairs : List (K × V)) (k : K) (v : V) :
    collect (pairs ++ [(k, v)]) = (collect pairs).insert k v := by
  rw [collect, List.foldl_append]
  rfl

theorem mem_collect {pairs : List (K × V)} {k : K} :
    k ∈ collect pairs ↔ k ∈ pairs.map Prod.fst := by
  induction pairs using List.reverseRecOn with
  | nil => simp [collect]
  | append_singleton pairs e ih =>
    rw [collect_snoc, AList.mem_insert, ih]
    simp [or_comm]

theorem lookup_collect {pairs : List (K × V)} (distinct : (pairs.map Prod.fst).Nodup) {k : K} {v : V}
    (member : (k, v) ∈ pairs) : (collect pairs).lookup k = some v := by
  induction pairs using List.reverseRecOn with
  | nil => simp at member
  | append_singleton pairs e ih =>
    obtain ⟨k', v'⟩ := e
    rw [List.map_append, List.nodup_append] at distinct
    obtain ⟨init, -, apart⟩ := distinct
    rw [collect_snoc]
    rcases List.mem_append.mp member with old | new
    · have other : k ≠ k' := apart k (List.mem_map_of_mem old) k' (by simp)
      rw [AList.lookup_insert_ne other]
      exact ih init old
    · cases List.mem_singleton.mp new
      exact AList.lookup_insert _

/-- No pair is lost exactly if no key comes twice. -/
theorem size_collect_iff {pairs : List (K × V)} :
    (collect pairs).size = pairs.length ↔ (pairs.map Prod.fst).Nodup := by
  have keys : (collect pairs).keys.Perm (pairs.map Prod.fst).dedup := by
    rw [List.perm_ext_iff_of_nodup (AList.keys_nodup _) (List.nodup_dedup _)]
    intro k
    rw [List.mem_dedup, ← mem_collect, AList.mem_keys]
  have size : (collect pairs).size = (pairs.map Prod.fst).dedup.length := by
    rw [← keys.length_eq, AList.keys, List.keys, List.length_map]
    rfl
  have length : pairs.length = (pairs.map Prod.fst).length := (List.length_map _).symm
  rw [size, length, ← List.dedup_eq_self]
  constructor
  · exact (List.dedup_sublist _).eq_of_length
  · exact congrArg List.length

end KeyMap
