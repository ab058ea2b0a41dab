import HyperionVpn.Core.Pool

/-! Failover of the pool. A call tries the slots of the tickets it draws, and
which these are depends on how many tickets the other calls draw in between. -/
namespace HyperionVpn.SupervisedPool
open Machine

abbrev Trace := List (Event × Option UInt64)

/-- One step of the call in this phase. -/
inductive Moves (p : SupervisedPool) (answer : Except Error MuxStream) :
    Phase → Option UInt64 → Phase → Prop where
  | idle : Moves p answer .idle none .idle
  | done (r) : Moves p answer (.done r) none (.done r)
  | drew {pass turn} : turn < p.slots.length →
      Moves p answer (.drawing pass turn) (some p.next)
        (.looking pass turn (p.next.toNat % p.slots.length))
  | passed {pass turn} : p.slots.length ≤ turn →
      Moves p answer (.drawing pass turn) none (.sleeping pass)
  | vacant {pass turn slot} : p.slots[slot]? = some none →
      Moves p answer (.looking pass turn slot) none (.drawing pass (turn + 1))
  | taken {pass turn slot control} : p.slots[slot]? = some (some control) →
      Moves p answer (.looking pass turn slot) none (.opening pass turn slot control)
  | opened {pass turn slot control s} : answer = .ok s →
      Moves p answer (.opening pass turn slot control) none (.done (.ok s))
  | refused {pass turn slot control e} : answer = .error e →
      Moves p answer (.opening pass turn slot control) none (.drawing pass (turn + 1))
  | again {pass} : pass + 1 < openGraceAttempts →
      Moves p answer (.sleeping pass) none (.drawing (pass + 1) 0)
  | gaveUp {pass} : openGraceAttempts ≤ pass + 1 →
      Moves p answer (.sleeping pass) none
        (.done (.error (.protocol "no live tunnel to server")))

/-- What a poll shares with the other calls: the counter, if it draws. -/
def Shares (p p' : SupervisedPool) (drawn : Option UInt64) : Prop :=
  p'.slots.length = p.slots.length ∧
    (drawn = none ∧ p'.next = p.next ∨ drawn = some p.next ∧ p'.next = p.next + 1)

/-- A poll changes the phase of its own call, as the source says, and no other's. -/
theorem poll_spec {p p' : SupervisedPool} {call : Nat} {answer : Except Error MuxStream}
    {drawn : Option UInt64} (h : p.poll call answer = some (drawn, p')) :
    Moves p answer (p.calls call) drawn (p'.calls call) ∧ Shares p p' drawn ∧
      ∀ id, id ≠ call → p'.calls id = p.calls id := by
  have still (moves : Moves p answer (p.calls call) none (p.calls call)) :
      Moves p answer (p.calls call) none (p.calls call) ∧ Shares p p none ∧
        ∀ id, id ≠ call → p.calls id = p.calls id :=
    ⟨moves, ⟨rfl, .inl ⟨rfl, rfl⟩⟩, fun _ _ => rfl⟩
  have moved {phase : Phase} (moves : Moves p answer (p.calls call) none phase) :
      Moves p answer (p.calls call) none ((p.setCall call phase).calls call) ∧
        Shares p (p.setCall call phase) none ∧
        ∀ id, id ≠ call → (p.setCall call phase).calls id = p.calls id :=
    ⟨by dsimp only [setCall]; rwa [Function.update_self], ⟨rfl, .inl ⟨rfl, rfl⟩⟩,
      fun id other => Function.update_of_ne other ..⟩
  unfold poll at h
  cases phase : p.calls call with
  | idle =>
    rw [phase] at h still
    cases h
    simpa [phase] using still .idle
  | done r =>
    rw [phase] at h still
    cases h
    simpa [phase] using still (.done r)
  | drawing pass turn =>
    rw [phase] at h moved
    dsimp only at h
    split at h <;> rename_i more <;> cases h
    · refine ⟨?_, ⟨rfl, .inr ⟨rfl, rfl⟩⟩, fun id other => Function.update_of_ne other ..⟩
      dsimp only [setCall]
      rw [Function.update_self]
      exact .drew more
    · exact moved (.passed (Nat.not_lt.mp more))
  | looking pass turn slot =>
    rw [phase] at h moved
    obtain ⟨found, inside, rest⟩ := Option.bind_eq_some_iff.mp h
    cases found with
    | none =>
      cases rest
      exact moved (.vacant inside)
    | some control =>
      cases rest
      exact moved (.taken inside)
  | opening pass turn slot control =>
    rw [phase] at h moved
    cases answer with
    | ok s =>
      cases h
      exact moved (.opened rfl)
    | error e =>
      cases h
      exact moved (.refused rfl)
  | sleeping pass =>
    rw [phase] at h moved
    dsimp only at h
    split at h <;> rename_i more <;> cases h
    · exact moved (.again more)
    · exact moved (.gaveUp (Nat.not_lt.mp more))

/-- A step by anything else leaves a call that has started in its phase. -/
theorem step_spec {p p' : SupervisedPool} {event : Event} {drawn : Option UInt64}
    (h : step p event = some (drawn, p')) :
    Shares p p' drawn ∧ ∀ id, p.calls id ≠ .idle →
      (∀ answer, event ≠ .poll id answer) → p'.calls id = p.calls id := by
  cases event with
  | start call =>
    simp only [step] at h
    split at h <;> rename_i phase <;> cases h
    · refine ⟨⟨rfl, .inl ⟨rfl, rfl⟩⟩, fun id busy _ => Function.update_of_ne ?_ ..⟩
      rintro rfl
      exact busy phase
    · exact ⟨⟨rfl, .inl ⟨rfl, rfl⟩⟩, fun _ _ _ => rfl⟩
  | poll call answer =>
    obtain ⟨-, shares, others⟩ := poll_spec h
    refine ⟨shares, fun id _ foreign => others id ?_⟩
    rintro rfl
    exact foreign answer rfl
  | supervise slot control =>
    cases h
    exact ⟨⟨List.length_set, .inl ⟨rfl, rfl⟩⟩, fun _ _ _ => rfl⟩

/-- A step moves a call that has started or leaves it where it is. -/
theorem call_step {p p' : SupervisedPool} {event : Event} {drawn : Option UInt64} {id : Nat}
    (h : step p event = some (drawn, p')) (started : p.calls id ≠ .idle) :
    (∃ answer, event = .poll id answer ∧ Moves p answer (p.calls id) drawn (p'.calls id)) ∨
      (∀ answer, event ≠ .poll id answer) ∧ p'.calls id = p.calls id := by
  by_cases own : ∃ answer, event = .poll id answer
  · obtain ⟨answer, rfl⟩ := own
    exact .inl ⟨answer, rfl, (poll_spec h).1⟩
  · have foreign : ∀ answer, event ≠ .poll id answer := fun answer same => own ⟨answer, same⟩
    exact .inr ⟨foreign, (step_spec h).2 id started foreign⟩

theorem moves_busy {p : SupervisedPool} {answer : Except Error MuxStream} {phase phase' : Phase}
    {drawn : Option UInt64} (h : Moves p answer phase drawn phase') (busy : phase ≠ .idle) :
    phase' ≠ .idle := by
  cases h <;> simp_all

theorem run_started {init p : SupervisedPool} {tr : Trace} {id : Nat} (run : Run step init tr p)
    (started : init.calls id ≠ .idle) : p.calls id ≠ .idle := by
  refine run.invariant (P := fun p => p.calls id ≠ .idle) started ?_
  intro m event drawn m' busy stepped
  rcases call_step stepped busy with ⟨answer, -, moves⟩ | ⟨-, same⟩
  · exact moves_busy moves busy
  · rwa [same]

/-! Tickets. -/

/-- The number of tickets drawn, by any call. -/
def draws (tr : Trace) : Nat := (tr.filterMap Prod.snd).length

/-- One of the tickets that the call draws is for the slot. The tickets are
those of the counter, so which ones the call gets is up to the schedule. -/
def HitsSlot (init : SupervisedPool) (id slot : Nat) (tr : Trace) : Prop :=
  ∃ before answer ticket after, tr = before ++ (.poll id answer, some ticket) :: after ∧
    (init.next + UInt64.ofNat (draws before)).toNat % init.slots.length = slot

theorem draws_append (a b : Trace) : draws (a ++ b) = draws a + draws b := by
  simp [draws]

theorem run_shared {init p : SupervisedPool} {tr : Trace} (run : Run step init tr p) :
    p.slots.length = init.slots.length ∧ p.next = init.next + UInt64.ofNat (draws tr) := by
  induction run with
  | nil => simp [draws]
  | @snoc tr m event drawn p left stepped ih =>
    obtain ⟨⟨size, counter⟩, -⟩ := step_spec stepped
    refine ⟨size.trans ih.1, ?_⟩
    rw [draws_append]
    rcases counter with ⟨rfl, same⟩ | ⟨rfl, grown⟩
    · rw [same, ih.2]
      simp [draws]
    · rw [grown, ih.2, UInt64.add_assoc]
      congr 1
      simp [draws, UInt64.ofNat_add]

theorem draws_snoc (tr : Trace) (event : Event) (drawn : Option UInt64) :
    draws (tr ++ [(event, drawn)]) = draws tr + drawn.toList.length := by
  cases drawn <;> simp [draws]

theorem HitsSlot.append {init : SupervisedPool} {id slot : Nat} {a b : Trace}
    (h : HitsSlot init id slot a) : HitsSlot init id slot (a ++ b) := by
  obtain ⟨before, answer, ticket, after, rfl, hit⟩ := h
  exact ⟨before, answer, ticket, after ++ b, by simp, hit⟩

theorem hitsSlot_snoc {init : SupervisedPool} {id slot : Nat} {tr : Trace} {event : Event}
    {drawn : Option UInt64} (h : HitsSlot init id slot (tr ++ [(event, drawn)])) :
    HitsSlot init id slot tr ∨ ((∃ answer ticket, event = .poll id answer ∧ drawn = some ticket) ∧
      (init.next + UInt64.ofNat (draws tr)).toNat % init.slots.length = slot) := by
  obtain ⟨before, answer, ticket, after, split, hit⟩ := h
  rcases List.eq_nil_or_concat after with rfl | ⟨after, last, rfl⟩
  · obtain ⟨rfl, same⟩ := List.append_inj' split rfl
    cases same
    exact .inr ⟨⟨answer, ticket, rfl, rfl⟩, hit⟩
  · rw [List.concat_eq_append, ← List.cons_append, ← List.append_assoc] at split
    obtain ⟨rfl, -⟩ := List.append_inj' split rfl
    exact .inl ⟨before, answer, ticket, after, rfl, hit⟩

/-- A draw of the call is for the slot it then looks at. -/
theorem hitsSlot_drew {init p : SupervisedPool} {tr : Trace} {id slot : Nat}
    {answer : Except Error MuxStream} {ticket : UInt64} (run : Run step init tr p) :
    HitsSlot init id slot (tr ++ [(.poll id answer, some ticket)]) ↔
      HitsSlot init id slot tr ∨ p.next.toNat % p.slots.length = slot := by
  obtain ⟨size, counter⟩ := run_shared run
  rw [size, counter]
  constructor
  · intro h
    exact (hitsSlot_snoc h).imp_right And.right
  · rintro (old | new)
    · exact old.append
    · exact ⟨tr, answer, ticket, [], rfl, new⟩

theorem hitsSlot_quiet {init : SupervisedPool} {tr : Trace} {id slot : Nat} {event : Event}
    {drawn : Option UInt64} (quiet : (∀ answer, event ≠ .poll id answer) ∨ drawn = none) :
    HitsSlot init id slot (tr ++ [(event, drawn)]) ↔ HitsSlot init id slot tr := by
  constructor
  · intro h
    rcases hitsSlot_snoc h with old | ⟨⟨answer, ticket, own, some⟩, -⟩
    · exact old
    · rcases quiet with foreign | none
      · exact absurd own (foreign answer)
      · rw [none] at some
        contradiction
  · exact HitsSlot.append

/-- The slot whose control a call awaits. -/
def Phase.awaits : Phase → Option Nat
  | .opening _ _ slot _ => some slot
  | _ => none

/-- The slot holds a control, and opening one taken from it does not fail. -/
def Usable (id slot : Nat) (p : SupervisedPool) (event : Event) : Prop :=
  (∃ control, p.slots[slot]? = some (some control)) ∧
    ∀ e, event = .poll id (.error e) → (p.calls id).awaits ≠ some slot

instance (id slot : Nat) (p : SupervisedPool) (event : Event) :
    Decidable (Usable id slot p event) :=
  have held : Decidable (∃ control, p.slots[slot]? = some (some control)) :=
    decidable_of_iff (p.slots[slot]?).join.isSome (by
      simp [Option.isSome_iff_exists, Option.join_eq_some_iff])
  have opens : Decidable (∀ e, event = .poll id (.error e) → (p.calls id).awaits ≠ some slot) :=
    match event with
    | .poll call (.error e) =>
      decidable_of_iff (call = id → (p.calls id).awaits ≠ some slot) (by
        constructor
        · rintro free _ ⟨⟩
          exact free rfl
        · rintro free rfl
          exact free e rfl)
    | .poll _ (.ok _) | .start _ | .supervise _ _ => .isTrue (by rintro _ ⟨⟩)
  inferInstanceAs (Decidable (_ ∧ _))

/-- Opening a control taken from any other slot fails. -/
def FailsOutside (id : Nat) (usable : Set Nat) (p : SupervisedPool) (event : Event) : Prop :=
  ∀ s, event = .poll id (.ok s) → ∀ slot, (p.calls id).awaits = some slot → slot ∈ usable

instance (id : Nat) (usable : Set Nat) [DecidablePred (· ∈ usable)] (p : SupervisedPool)
    (event : Event) : Decidable (FailsOutside id usable p event) :=
  match event with
  | .poll call (.ok s) =>
    decidable_of_iff (call = id → ∀ slot ∈ (p.calls id).awaits, slot ∈ usable) (by
      constructor
      · rintro free _ ⟨⟩
        exact free rfl
      · rintro free rfl
        exact free s rfl)
  | .poll _ (.error _) | .start _ | .supervise _ _ => .isTrue (by rintro _ ⟨⟩)

/-- A call that has drawn a ticket for the slot has stopped there. -/
def StopsAt (slot : Nat) (hit : Prop) : Phase → Prop
  | .looking _ _ i | .opening _ _ i _ => hit → i = slot
  | .done r => hit → ∃ s, r = .ok s
  | _ => ¬ hit

theorem stopsAt_moves {p : SupervisedPool} {answer : Except Error MuxStream} {phase phase' : Phase}
    {drawn : Option UInt64} {slot : Nat} {hit hit' : Prop} (before : StopsAt slot hit phase)
    (moves : Moves p answer phase drawn phase') (quiet : drawn = none → (hit' ↔ hit))
    (drew : ∀ ticket, drawn = some ticket → (hit' ↔ hit ∨ p.next.toNat % p.slots.length = slot))
    (held : ∃ control, p.slots[slot]? = some (some control))
    (opens : ∀ e, answer = .error e → phase.awaits ≠ some slot) : StopsAt slot hit' phase' := by
  cases moves with
  | idle =>
    show ¬ hit'
    rw [quiet rfl]
    exact before
  | done r =>
    intro hit'
    exact before ((quiet rfl).mp hit')
  | drew _ =>
    intro hit'
    exact ((drew _ rfl).mp hit').resolve_left before
  | passed _ =>
    show ¬ hit'
    rw [quiet rfl]
    exact before
  | vacant empty =>
    show ¬ hit'
    rw [quiet rfl]
    intro hit
    obtain ⟨control, full⟩ := held
    rw [before hit, full] at empty
    cases empty
  | taken _ =>
    intro hit'
    exact before ((quiet rfl).mp hit')
  | opened _ => exact fun _ => ⟨_, rfl⟩
  | refused failed =>
    show ¬ hit'
    rw [quiet rfl]
    intro hit
    obtain rfl := before hit
    exact opens _ failed rfl
  | again _ =>
    show ¬ hit'
    rw [quiet rfl]
    exact before
  | gaveUp _ =>
    intro hit'
    exact absurd ((quiet rfl).mp hit') before

theorem run_stopsAt {init p : SupervisedPool} {tr : Trace} {id slot : Nat}
    (run : Run step init tr p) (started : init.calls id = .drawing 0 0)
    (usable : Always step init (Usable id slot) tr) :
    StopsAt slot (HitsSlot init id slot tr) (p.calls id) := by
  induction run with
  | nil =>
    rw [started]
    rintro ⟨before, answer, ticket, after, split, -⟩
    simp at split
  | @snoc tr m event drawn m' left stepped ih =>
    have before := ih usable.prefix
    obtain ⟨held, opens⟩ := usable.last left
    have busy : m.calls id ≠ .idle := run_started left (by simp [started])
    rcases call_step stepped busy with ⟨answer, rfl, moves⟩ | ⟨foreign, same⟩
    · refine stopsAt_moves before moves (fun none => hitsSlot_quiet (.inr none)) ?_ held ?_
      · rintro ticket rfl
        exact hitsSlot_drew left
      · rintro e rfl
        exact opens e rfl
    · rwa [same, hitsSlot_quiet (.inl foreign)]

/-- A call got its stream from a slot that one of its tickets is for. -/
def ComesFrom (init : SupervisedPool) (id : Nat) (usable : Set Nat) (tr : Trace) : Phase → Prop
  | .looking _ _ slot | .opening _ _ slot _ => HitsSlot init id slot tr
  | .done (.ok _) => ∃ slot ∈ usable, HitsSlot init id slot tr
  | _ => True

theorem ComesFrom.append {init : SupervisedPool} {id : Nat} {usable : Set Nat} {a b : Trace}
    {phase : Phase} (h : ComesFrom init id usable a phase) :
    ComesFrom init id usable (a ++ b) phase := by
  unfold ComesFrom at *
  split at h
  · exact h.append
  · exact h.append
  · obtain ⟨slot, inside, hit⟩ := h
    exact ⟨slot, inside, hit.append⟩
  · trivial

theorem run_comesFrom {init p : SupervisedPool} {tr : Trace} {id : Nat} {usable : Set Nat}
    (run : Run step init tr p) (started : init.calls id = .drawing 0 0)
    (dead : Always step init (FailsOutside id usable) tr) :
    ComesFrom init id usable tr (p.calls id) := by
  induction run with
  | nil =>
    rw [started]
    trivial
  | @snoc tr m event drawn m' left stepped ih =>
    have before := (ih dead.prefix).append (b := [(event, drawn)])
    have now := dead.last left
    have busy : m.calls id ≠ .idle := run_started left (by simp [started])
    rcases call_step stepped busy with ⟨answer, rfl, moves⟩ | ⟨-, same⟩
    · generalize here : m.calls id = phase at before moves
      generalize m'.calls id = phase' at moves
      cases moves with
      | idle => trivial
      | done r => exact before
      | drew _ => exact (hitsSlot_drew left).mpr (.inr rfl)
      | passed _ => trivial
      | vacant _ => trivial
      | taken _ => exact before
      | opened ok =>
        subst ok
        exact ⟨_, now _ rfl _ (by rw [here]; rfl), before⟩
      | refused _ => trivial
      | again _ => trivial
      | gaveUp _ => trivial
    · rwa [same]

/-! How many steps a call can take. -/

/-- The loops' bounds. -/
def InLoops (n : Nat) : Phase → Prop
  | .idle => False
  | .drawing pass turn => pass < openGraceAttempts ∧ turn ≤ n
  | .looking pass turn _ | .opening pass turn _ _ => pass < openGraceAttempts ∧ turn < n
  | .sleeping pass => pass < openGraceAttempts
  | .done _ => True

/-- The steps that a call has still to take, at most: three in a turn, and two
around each pass. -/
def stepsLeft (n : Nat) : Phase → Nat
  | .idle | .done _ => 0
  | .drawing pass turn => (openGraceAttempts - pass) * (3 * n + 2) - 3 * turn
  | .looking pass turn _ => (openGraceAttempts - pass) * (3 * n + 2) - 3 * turn - 1
  | .opening pass turn _ _ => (openGraceAttempts - pass) * (3 * n + 2) - 3 * turn - 2
  | .sleeping pass => (openGraceAttempts - pass) * (3 * n + 2) - 3 * n - 1

theorem passes_left {pass n : Nat} (more : pass < openGraceAttempts) :
    (openGraceAttempts - pass) * (3 * n + 2) =
      (openGraceAttempts - (pass + 1)) * (3 * n + 2) + (3 * n + 2) := by
  rw [← Nat.succ_mul]
  congr 1
  omega

theorem stepsLeft_pos {n : Nat} {phase : Phase} (h : InLoops n phase) :
    (∃ r, phase = .done r) ∨ 0 < stepsLeft n phase := by
  cases phase with
  | idle => exact h.elim
  | done r => exact .inl ⟨r, rfl⟩
  | sleeping pass =>
    have room := passes_left (n := n) h
    simp only [stepsLeft]
    exact .inr (by omega)
  | _ =>
    have room := passes_left (n := n) h.1
    have turns := h.2
    simp only [stepsLeft]
    exact .inr (by omega)

theorem moves_inLoops {p : SupervisedPool} {answer : Except Error MuxStream}
    {phase phase' : Phase} {drawn : Option UInt64} (h : InLoops p.slots.length phase)
    (moves : Moves p answer phase drawn phase') :
    InLoops p.slots.length phase' ∧ ((∃ r, phase' = .done r) ∨
      stepsLeft p.slots.length phase' < stepsLeft p.slots.length phase) := by
  cases moves with
  | idle => exact h.elim
  | done r => exact ⟨trivial, .inl ⟨r, rfl⟩⟩
  | drew more =>
    have room := passes_left (n := p.slots.length) h.1
    refine ⟨⟨h.1, more⟩, .inr ?_⟩
    simp only [stepsLeft]
    omega
  | passed full =>
    have room := passes_left (n := p.slots.length) h.1
    have last := h.2
    refine ⟨h.1, .inr ?_⟩
    simp only [stepsLeft]
    omega
  | vacant _ =>
    have room := passes_left (n := p.slots.length) h.1
    have more := h.2
    refine ⟨⟨h.1, more⟩, .inr ?_⟩
    simp only [stepsLeft]
    omega
  | taken _ =>
    have room := passes_left (n := p.slots.length) h.1
    have more := h.2
    refine ⟨h, .inr ?_⟩
    simp only [stepsLeft]
    omega
  | opened _ => exact ⟨trivial, .inl ⟨_, rfl⟩⟩
  | refused _ =>
    have room := passes_left (n := p.slots.length) h.1
    have more := h.2
    refine ⟨⟨h.1, more⟩, .inr ?_⟩
    simp only [stepsLeft]
    omega
  | again more =>
    have room := passes_left (n := p.slots.length) h
    refine ⟨⟨more, Nat.zero_le _⟩, .inr ?_⟩
    simp only [stepsLeft]
    omega
  | gaveUp _ => exact ⟨trivial, .inl ⟨_, rfl⟩⟩

/-- The steps that the call itself took. -/
def polls (id : Nat) (tr : Trace) : Nat :=
  tr.countP fun e => match e.1 with
    | .poll call _ => call = id
    | _ => false

theorem polls_snoc_own {id : Nat} {answer : Except Error MuxStream} {drawn : Option UInt64}
    (tr : Trace) : polls id (tr ++ [(.poll id answer, drawn)]) = polls id tr + 1 := by
  simp [polls, List.countP_append]

theorem polls_snoc_foreign {id : Nat} {event : Event} {drawn : Option UInt64} (tr : Trace)
    (foreign : ∀ answer, event ≠ .poll id answer) :
    polls id (tr ++ [(event, drawn)]) = polls id tr := by
  cases event with
  | poll call answer =>
    have other : call ≠ id := by
      rintro rfl
      exact foreign answer rfl
    simp [polls, List.countP_append, other]
  | _ => simp [polls, List.countP_append]

/-- A call returns after a bounded number of its own steps, whatever the
others do. -/
theorem run_returns {init p : SupervisedPool} {tr : Trace} {id : Nat}
    (run : Run step init tr p) (started : InLoops init.slots.length (init.calls id)) :
    InLoops init.slots.length (p.calls id) ∧ ((∃ r, p.calls id = .done r) ∨
      stepsLeft init.slots.length (p.calls id) + polls id tr ≤
        stepsLeft init.slots.length (init.calls id)) := by
  induction run with
  | nil => exact ⟨started, .inr (by simp [polls])⟩
  | @snoc tr m event drawn m' left stepped ih =>
    obtain ⟨inside, bound⟩ := ih
    have size := (run_shared left).1
    have busy : m.calls id ≠ .idle := by
      intro idle
      rw [idle] at inside
      exact inside
    rcases call_step stepped busy with ⟨answer, rfl, moves⟩ | ⟨foreign, same⟩
    · rw [← size] at inside
      have next := moves_inLoops inside moves
      rw [size] at next
      refine ⟨next.1, ?_⟩
      rcases next.2 with returned | fewer
      · exact .inl returned
      · rcases bound with ⟨r, returned⟩ | bound
        · rw [returned] at fewer
          exact absurd fewer (Nat.not_lt_zero _)
        · rw [polls_snoc_own]
          exact .inr (by omega)
    · rw [same, polls_snoc_foreign tr foreign]
      exact ⟨inside, bound⟩

/-! A call that no other call disturbs. -/

/-- Every ticket is drawn by this call. -/
def Undisturbed (id : Nat) (tr : Trace) : Prop :=
  ∀ event ticket, (event, some ticket) ∈ tr → ∃ answer, event = .poll id answer

/-- The tickets that a call has drawn, at least. -/
def Drew (n k : Nat) : Phase → Prop
  | .drawing pass turn => pass * n + turn ≤ k
  | .looking pass turn _ | .opening pass turn _ _ => pass * n + turn < k
  | .sleeping pass => (pass + 1) * n ≤ k
  | .done (.error _) => openGraceAttempts * n ≤ k
  | _ => True

theorem Drew.mono {n k k' : Nat} {phase : Phase} (h : Drew n k phase) (more : k ≤ k') :
    Drew n k' phase := by
  cases phase with
  | idle => trivial
  | drawing pass turn => exact h.trans more
  | looking pass turn slot => exact h.trans_le more
  | opening pass turn slot control => exact h.trans_le more
  | sleeping pass => exact h.trans more
  | done r =>
    cases r with
    | ok s => trivial
    | error e => exact h.trans more

theorem moves_drew {p : SupervisedPool} {answer : Except Error MuxStream}
    {phase phase' : Phase} {drawn : Option UInt64} {k : Nat} (h : Drew p.slots.length k phase)
    (moves : Moves p answer phase drawn phase') :
    Drew p.slots.length (k + drawn.toList.length) phase' := by
  cases moves with
  | idle => trivial
  | done r => exact h
  | drew _ =>
    have before : _ + _ ≤ k := h
    exact Nat.lt_succ_of_le before
  | passed full =>
    have before : _ + _ ≤ k := h
    show (_ + 1) * _ ≤ k
    rw [Nat.succ_mul]
    omega
  | vacant _ =>
    exact h
  | taken _ => exact h
  | opened _ => trivial
  | refused _ => exact h
  | again _ => exact h
  | gaveUp last =>
    exact (Nat.mul_le_mul_right _ last).trans h

theorem run_drew {init p : SupervisedPool} {tr : Trace} {id : Nat}
    (run : Run step init tr p) (started : init.calls id = .drawing 0 0) :
    Drew init.slots.length (draws tr) (p.calls id) := by
  induction run with
  | nil =>
    rw [started]
    simp [Drew]
  | @snoc tr m event drawn m' left stepped ih =>
    have busy : m.calls id ≠ .idle := run_started left (by simp [started])
    rw [draws_snoc]
    rcases call_step stepped busy with ⟨answer, rfl, moves⟩ | ⟨-, same⟩
    · rw [← (run_shared left).1] at ih ⊢
      exact moves_drew ih moves
    · rw [same]
      exact ih.mono (Nat.le_add_right ..)

theorem undisturbed_draw {id : Nat} {tr : Trace} (alone : Undisturbed id tr) {i : Nat}
    (h : i < draws tr) : ∃ before answer ticket after,
      tr = before ++ (.poll id answer, some ticket) :: after ∧ draws before = i := by
  induction tr using List.reverseRecOn with
  | nil => exact absurd h (Nat.not_lt_zero _)
  | append_singleton tr e ih =>
    obtain ⟨event, drawn⟩ := e
    have earlier (h : i < draws tr) := ih (fun event ticket inside =>
      alone event ticket (List.mem_append_left _ inside)) h
    rw [draws_snoc] at h
    by_cases old : i < draws tr
    · obtain ⟨before, answer, ticket, after, rfl, count⟩ := earlier old
      exact ⟨before, answer, ticket, after ++ [(event, drawn)], by simp, count⟩
    · cases drawn with
      | none => exact absurd h old
      | some ticket =>
        obtain ⟨answer, rfl⟩ := alone event ticket (by simp)
        have last : draws tr = i := by
          simp only [Option.toList_some, List.length_singleton] at h
          omega
        exact ⟨tr, answer, ticket, [], rfl, last⟩

/-- Among consecutive tickets, as many as there are slots, one is for each. -/
theorem ticket_for (first : Nat) {n slot : Nat} (inside : slot < n) :
    ∃ i < n, (first + i) % n = slot := by
  have whole := Nat.div_add_mod first n
  have part := Nat.mod_lt first (Nat.zero_lt_of_lt inside)
  by_cases later : first % n ≤ slot
  · refine ⟨slot - first % n, by omega, ?_⟩
    have sum : first + (slot - first % n) = n * (first / n) + slot := by omega
    rw [sum, Nat.mul_add_mod, Nat.mod_eq_of_lt inside]
  · refine ⟨n + slot - first % n, by omega, ?_⟩
    have sum : first + (n + slot - first % n) = n * (first / n + 1) + slot := by
      rw [Nat.mul_succ]
      omega
    rw [sum, Nat.mul_add_mod, Nat.mod_eq_of_lt inside]

/-- On a pool that no other call draws from and whose counter does not wrap in
the first pass, one usable slot is enough. -/
theorem undisturbed_open_succeeds {init p : SupervisedPool} {tr : Trace} {id slot : Nat}
    {r : Except Error MuxStream} (run : Run step init tr p)
    (started : init.calls id = .drawing 0 0) (inside : slot < init.slots.length)
    (usable : Always step init (Usable id slot) tr) (alone : Undisturbed id tr)
    (room : init.next.toNat + init.slots.length ≤ UInt64.size) (returned : p.calls id = .done r) :
    ∃ s, r = .ok s := by
  have stops := run_stopsAt run started usable
  have drew := run_drew run started
  rw [returned] at stops drew
  cases r with
  | ok s => exact ⟨s, rfl⟩
  | error e =>
    apply stops
    obtain ⟨i, small, same⟩ := ticket_for init.next.toNat inside
    have enough : init.slots.length ≤ draws tr :=
      (Nat.le_mul_of_pos_left _ (by decide)).trans drew
    obtain ⟨before, answer, ticket, after, split, count⟩ :=
      undisturbed_draw alone (small.trans_le enough)
    refine ⟨before, answer, ticket, after, split, ?_⟩
    have size : UInt64.size = 2 ^ 64 := rfl
    have value : (init.next + UInt64.ofNat i).toNat = init.next.toNat + i := by
      have low : (UInt64.ofNat i).toNat = i := UInt64.toNat_ofNat_of_lt (by omega)
      rw [UInt64.toNat_add, low]
      exact Nat.mod_eq_of_lt (by omega)
    rw [count, value]
    exact same

/-- Over any interleaving: a call that draws a ticket for a usable slot
returns a stream, and where no other slot opens it is only such a call that
does. -/
theorem open_succeeds_where_drawn {init p : SupervisedPool} {tr : Trace} {id : Nat}
    (run : Run step init tr p) (started : init.calls id = .drawing 0 0) (usable : Set Nat)
    (live : ∀ slot ∈ usable, Always step init (Usable id slot) tr) :
    (∀ slot ∈ usable, HitsSlot init id slot tr → ∀ r, p.calls id = .done r → ∃ s, r = .ok s) ∧
      (Always step init (FailsOutside id usable) tr → ∀ r, p.calls id = .done r →
        ((∃ s, r = .ok s) ↔ ∃ slot ∈ usable, HitsSlot init id slot tr)) ∧
      (openGraceAttempts * (3 * init.slots.length + 2) ≤ polls id tr →
        ∃ r, p.calls id = .done r) := by
  have opens : ∀ slot ∈ usable, HitsSlot init id slot tr → ∀ r, p.calls id = .done r →
      ∃ s, r = .ok s := by
    intro slot inside hit r returned
    have stops := run_stopsAt run started (live slot inside)
    rw [returned] at stops
    exact stops hit
  refine ⟨opens, ?_, ?_⟩
  · intro dead r returned
    constructor
    · rintro ⟨s, rfl⟩
      have source := run_comesFrom run started dead
      rw [returned] at source
      exact source
    · rintro ⟨slot, inside, hit⟩
      exact opens slot inside hit r returned
  · intro enough
    have inside : InLoops init.slots.length (init.calls id) := by
      rw [started]
      exact ⟨by decide, Nat.zero_le _⟩
    obtain ⟨inside', returned | bound⟩ := run_returns run inside
    · exact returned
    · rcases stepsLeft_pos inside' with returned | more
      · exact returned
      · have limit : stepsLeft init.slots.length (.drawing 0 0) =
            openGraceAttempts * (3 * init.slots.length + 2) := rfl
        rw [started, limit] at bound
        omega

/-- Three slots: a tunnel that no longer opens streams, a slot without one, and
a tunnel that works. -/
def sampleDegraded : SupervisedPool where
  slots := [some ⟨0⟩, none, some ⟨2⟩]
  next := 0
  calls := Function.update (fun _ => .idle) 0 (.drawing 0 0)

/-- Call 0 is refused on the first slot while call 1 draws the ticket of the
second, and then has the third. -/
def sampleFailover : Trace :=
  [(.start 1, none), (.poll 0 (.ok ⟨0⟩), some 0), (.poll 1 (.ok ⟨0⟩), some 1),
    (.poll 0 (.ok ⟨0⟩), none), (.poll 1 (.ok ⟨0⟩), none),
    (.poll 0 (.error (.protocol "mux driver stopped")), none), (.supervise 0 none, none),
    (.poll 0 (.ok ⟨0⟩), some 2), (.poll 0 (.ok ⟨0⟩), none), (.poll 0 (.ok ⟨5⟩), none)]

theorem open_succeeds_where_drawn_sample : ∃ p r, Run step sampleDegraded sampleFailover p ∧
    p.calls 0 = .done r ∧ (∃ s, r = .ok s) ∧ ∃ slot ∈ ({2} : Set Nat),
      HitsSlot sampleDegraded 0 slot sampleFailover := by
  have report : ((exec step sampleDegraded (sampleFailover.map Prod.fst)).map fun result =>
      (result.1, result.2.calls 0)) = some (sampleFailover, .done (.ok ⟨5⟩)) := by rfl
  obtain ⟨⟨tr, p⟩, executed, same⟩ := Option.map_eq_some_iff.mp report
  obtain ⟨rfl, returned⟩ := Prod.mk.inj same
  obtain ⟨run, inputs⟩ := exec_run executed
  have live : Always step sampleDegraded (Usable 0 2) sampleFailover :=
    Always.of_checkAll (by decide +kernel) run inputs
  have dead : Always step sampleDegraded (FailsOutside 0 {2}) sampleFailover :=
    Always.of_checkAll (by decide +kernel) run inputs
  have hit : HitsSlot sampleDegraded 0 2 sampleFailover :=
    ⟨sampleFailover.take 7, .ok ⟨0⟩, 2, sampleFailover.drop 8, rfl, by decide⟩
  have started : sampleDegraded.calls 0 = .drawing 0 0 := rfl
  obtain ⟨opens, exactly, -⟩ :=
    open_succeeds_where_drawn run started {2} (by rintro _ rfl; exact live)
  have ok := opens 2 rfl hit _ returned
  exact ⟨p, _, run, returned, ok, (exactly dead _ returned).mp ok⟩

/-- Two slots, of which the first is connected, and a call that starts. -/
def samplePool : SupervisedPool where
  slots := [some ⟨0⟩, none]
  next := 0
  calls := Function.update (fun _ => .idle) 0 (.drawing 0 0)

/-- Two steps of call 0. -/
def sampleTurn : List Event := [.poll 0 (.ok ⟨0⟩), .poll 0 (.ok ⟨0⟩)]

/-- A call other than 0 that opens a stream with the next ticket. -/
def sampleOther (call : Nat) : List Event :=
  [.start call, .poll call (.ok ⟨call⟩), .poll call (.ok ⟨call⟩), .poll call (.ok ⟨call⟩)]

/-- In each pass of call 0, two other calls draw the tickets of the first slot. -/
def sampleSchedule : List Event :=
  (List.range openGraceAttempts).flatMap fun pass =>
    sampleOther (2 * pass + 1) ++ sampleTurn ++
      sampleOther (2 * pass + 2) ++ sampleTurn ++ sampleTurn

/-- A slot that is usable throughout does not keep a call from failing. -/
theorem sampleSchedule_fails : ∃ tr p, Run step samplePool tr p ∧
    Always step samplePool (Usable 0 0) tr ∧
    p.calls 0 = .done (.error (.protocol "no live tunnel to server")) := by
  have report : ((exec step samplePool sampleSchedule).map fun result => result.2.calls 0) =
      some (.done (.error (.protocol "no live tunnel to server"))) := by decide +kernel
  obtain ⟨⟨tr, p⟩, executed, returned⟩ := Option.map_eq_some_iff.mp report
  obtain ⟨run, inputs⟩ := exec_run executed
  exact ⟨tr, p, run, Always.of_checkAll (by decide +kernel) run inputs, returned⟩

theorem usable_slot_missed : ¬ ∀ (init p : SupervisedPool) (tr : Trace) (id slot : Nat)
    (r : Except Error MuxStream), Run step init tr p → init.calls id = .drawing 0 0 →
    slot < init.slots.length → Always step init (Usable id slot) tr → p.calls id = .done r →
    ∃ s, r = .ok s := by
  intro claim
  obtain ⟨tr, p, run, usable, returned⟩ := sampleSchedule_fails
  obtain ⟨s, ok⟩ := claim samplePool p tr 0 0 _ run rfl (by decide) usable returned
  contradiction

end HyperionVpn.SupervisedPool
