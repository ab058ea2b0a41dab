import HyperionVpn.Core.Supervision

/-! The slots of a pool show exactly the tunnels that its supervisors have, and a
pool with its supervisors does nothing that a pool with any others could not. -/
namespace HyperionVpn
open Net Client Machine History

namespace SupervisedPool

/-- No call of `open` touches a slot. -/
theorem poll_slots {p p' : SupervisedPool} {call : Nat} {answer : Except Error MuxStream}
    {drawn : Option UInt64} (h : p.poll call answer = some (drawn, p')) : p'.slots = p.slots := by
  unfold poll at h
  cases phase : p.calls call with
  | idle | done r =>
    rw [phase] at h
    cases h
    rfl
  | drawing pass turn =>
    rw [phase] at h
    dsimp only at h
    split at h <;> cases h <;> rfl
  | looking pass turn slot =>
    rw [phase] at h
    obtain ⟨found, -, rest⟩ := Option.bind_eq_some_iff.mp h
    cases found <;> cases rest <;> rfl
  | opening pass turn slot control =>
    rw [phase] at h
    cases answer <;> cases h <;> rfl
  | sleeping pass =>
    rw [phase] at h
    dsimp only at h
    split at h <;> cases h <;> rfl

theorem start_slots {p p' : SupervisedPool} {call : Nat} {drawn : Option UInt64}
    (h : step p (.start call) = some (drawn, p')) : p'.slots = p.slots := by
  simp only [step] at h
  split at h <;> cases h <;> rfl

/-- A call that opens a control has found it in its slot, now or before. -/
theorem opening_step {p p' : SupervisedPool} {event : Event} {drawn : Option UInt64}
    (h : step p event = some (drawn, p')) {call pass turn slot : Nat} {control : MuxControl}
    (opens : p'.calls call = .opening pass turn slot control) :
    p.calls call = .opening pass turn slot control ∨ p.slots[slot]? = some (some control) := by
  by_cases idle : p.calls call = .idle
  · cases event with
    | start id =>
      simp only [step] at h
      split at h <;> cases h
      · by_cases same : call = id
        · subst same
          simp [setCall] at opens
        · have kept : Function.update p.calls id (.drawing 0 0) call = p.calls call :=
            Function.update_of_ne same ..
          have opens : Function.update p.calls id (.drawing 0 0) call =
              .opening pass turn slot control := opens
          rw [kept, idle] at opens
          cases opens
      · rw [idle] at opens
        cases opens
    | poll id answer =>
      obtain ⟨moves, -, others⟩ := poll_spec h
      by_cases same : call = id
      · subst same
        rw [idle, opens] at moves
        cases moves
      · rw [others call same, idle] at opens
        cases opens
    | supervise i c =>
      cases h
      rw [idle] at opens
      cases opens
  · rcases call_step h idle with ⟨answer, -, moves⟩ | ⟨-, same⟩
    · rw [opens] at moves
      generalize before : p.calls call = phase at moves
      cases moves with
      | taken found => exact .inr found
    · exact .inl (same ▸ opens)

end SupervisedPool

namespace Supervision

variable {crypto : Knock.Crypto} {addr : SocketAddr} {params : TunnelParams}

/-- All that a step can do. -/
inductive Steps (crypto : Knock.Crypto) (addr : SocketAddr) (params : TunnelParams)
    (s : Supervision) : Event → Output → Supervision → Prop where
  | elapse (ms : Nat) : Steps crypto addr params s (.elapse ms) ⟨none, 0, []⟩
      { s with supervisors := s.supervisors.map fun v => { v with now := v.now + ms } }
  | supervise {slot : Nat} {a : Supervisor.Answer} {v v' : Supervisor}
      {actions : List Supervisor.Action} (found : s.supervisors[slot]? = some v)
      (waited : v.waited crypto addr params { a with control := ⟨s.made⟩ } = some (actions, v')) :
      Steps crypto addr params s (.supervise slot a) ⟨none, slot, actions⟩
        ⟨(actions.filterMap (access slot)).foldl show_ s.pool, s.supervisors.set slot v', s.made + 1⟩
  | start {call : Nat} {ticket : Option UInt64} {pool : SupervisedPool}
      (called : s.pool.step (.start call) = some (ticket, pool)) :
      Steps crypto addr params s (.start call) ⟨ticket, 0, []⟩ { s with pool }
  | poll {call : Nat} {answer : Except Error MuxStream} {ticket : Option UInt64}
      {pool : SupervisedPool} (called : s.pool.step (.poll call answer) = some (ticket, pool)) :
      Steps crypto addr params s (.poll call answer) ⟨ticket, 0, []⟩ { s with pool }

theorem step_spec {s s' : Supervision} {e : Event} {o : Output}
    (h : step crypto addr params s e = some (o, s')) : Steps crypto addr params s e o s' := by
  cases e with
  | elapse ms =>
    cases h
    exact .elapse ms
  | supervise slot a =>
    obtain ⟨v, found, rest⟩ := Option.bind_eq_some_iff.mp h
    obtain ⟨⟨actions, v'⟩, waited, rest⟩ := Option.bind_eq_some_iff.mp rest
    cases rest
    exact .supervise found waited
  | start call =>
    obtain ⟨⟨ticket, pool⟩, called, rest⟩ := Option.bind_eq_some_iff.mp h
    cases rest
    exact .start called
  | poll call answer =>
    obtain ⟨⟨ticket, pool⟩, called, rest⟩ := Option.bind_eq_some_iff.mp h
    cases rest
    exact .poll called

/-! The pool alone. -/

theorem run_shows {slot : Nat} (actions : List Supervisor.Action) (pool : SupervisedPool) :
    Run SupervisedPool.step pool
      ((actions.filterMap (access slot)).map fun event => (event, none))
      ((actions.filterMap (access slot)).foldl show_ pool) := by
  induction actions generalizing pool with
  | nil => exact .nil
  | cons a actions ih =>
    cases a with
    | set control => exact .cons rfl (ih _)
    | clear => exact .cons rfl (ih _)
    | knock _ _ | connect _ | sleep _ | wake => exact ih pool

/-- What happens to the pool could happen to it with any supervisors. -/
theorem run_pool {size : Nat} {tr : Trace} {s : Supervision}
    (run : Run (step crypto addr params) (buildPool params size) tr s) :
    Run SupervisedPool.step (buildPool params size).pool (tr.flatMap poolEvents) s.pool := by
  induction run with
  | nil => exact .nil
  | @snoc tr m e o s left stepped ih =>
    rw [List.flatMap_append, List.flatMap_singleton]
    cases step_spec stepped with
    | elapse ms => exact (List.append_nil _).symm ▸ ih
    | supervise found waited => exact ih.trans (run_shows _ _)
    | start called => exact ih.snoc called
    | poll called => exact ih.snoc called

/-! Each supervisor alone. -/

theorem actionsOf_snoc (slot : Nat) (tr : Trace) (e : Event × Output) :
    actionsOf slot (tr ++ [e]) = actionsOf slot tr ++ actionsOf slot [e] := by
  simp [actionsOf]

theorem run_supervisor {size : Nat} {tr : Trace} {s : Supervision}
    (run : Run (step crypto addr params) (buildPool params size) tr s) {slot : Nat} {v : Supervisor}
    (found : s.supervisors[slot]? = some v) : ∃ vtr,
      Run (Supervisor.step crypto addr params) (Supervisor.new params) vtr v ∧
        Supervisor.actions vtr = actionsOf slot tr := by
  induction run generalizing v with
  | nil =>
    simp only [buildPool, List.getElem?_replicate] at found
    split at found <;> cases found
    exact ⟨[], .nil, rfl⟩
  | @snoc tr m e o s left stepped ih =>
    rw [actionsOf_snoc]
    cases step_spec stepped with
    | elapse ms =>
      simp only [List.getElem?_map, Option.map_eq_some_iff] at found
      obtain ⟨w, found, rfl⟩ := found
      obtain ⟨vtr, run, same⟩ := ih found
      refine ⟨_, run.snoc (i := .elapse ms) rfl, ?_⟩
      rw [Supervisor.actions_snoc, same]
      rfl
    | @supervise i a w w' actions held waited =>
      by_cases here : i = slot
      · subst here
        rw [List.getElem?_set_self (List.getElem?_eq_some_iff.mp held).1] at found
        cases found
        obtain ⟨vtr, run, same⟩ := ih held
        have stepped : Supervisor.step crypto addr params w (.wait { a with control := ⟨m.made⟩ }) =
            some (actions, v) := waited
        refine ⟨_, run.snoc stepped, ?_⟩
        rw [Supervisor.actions_snoc, same]
        simp [actionsOf]
      · rw [List.getElem?_set_ne here] at found
        obtain ⟨vtr, run, same⟩ := ih found
        exact ⟨vtr, run, same.trans (by simp [actionsOf, here])⟩
    | start called | poll called =>
      obtain ⟨vtr, run, same⟩ := ih found
      exact ⟨vtr, run, same.trans (List.append_nil _).symm⟩

/-! What the slots show. -/

theorem shown_snoc (tr : Trace) (e : Event × Output) : shown (tr ++ [e]) = shown tr ++ shown [e] := by
  simp [shown]

/-- A tunnel that a supervisor has, in its slot or not yet. -/
def control? (v : Supervisor) : Option MuxControl :=
  match v.phase with
  | .connected control | .driving control | .dropped control => some control
  | _ => none

/-- The slots show what the supervisors have put there, and no tunnel is in two
hands, or comes back. -/
structure Tracks (s : Supervision) (tr : Trace) : Prop where
  slots : s.pool.slots = s.supervisors.map fun v => v.phase.shown
  numbered : ∀ control ∈ shown tr, control.id < s.made
  once : (shown tr).Nodup
  held : ∀ (slot : Nat) v control, s.supervisors[slot]? = some v → control? v = some control →
    control.id < s.made ∧ (control ∈ shown tr ↔ v.phase.shown = some control)
  apart : ∀ (i j : Nat) v w control, s.supervisors[i]? = some v → s.supervisors[j]? = some w →
    control? v = some control → control? w = some control → i = j
  opening : ∀ call pass turn slot control,
    s.pool.calls call = .opening pass turn slot control → control ∈ shown tr

theorem tracks_new (params : TunnelParams) (size : Nat) : Tracks (buildPool params size) [] := by
  have young : control? (Supervisor.new params) = none := by
    rcases Supervisor.dial_cases params with first | first <;>
      simp [control?, Supervisor.new, first]
  have empty {slot : Nat} {v : Supervisor} {control : MuxControl}
      (found : (buildPool params size).supervisors[slot]? = some v) : control? v ≠ some control := by
    simp only [buildPool, List.getElem?_replicate] at found
    split at found <;> cases found
    simp [young]
  constructor
  · have hidden : (Supervisor.new params).phase.shown = none := by
      rcases Supervisor.dial_cases params with first | first <;>
        simp [Supervisor.new, first, Supervisor.Phase.shown]
    simp [buildPool, hidden]
  · intro control member
    contradiction
  · exact List.nodup_nil
  · intro slot v control found has
    exact absurd has (empty found)
  · intro i j v w control found _ has
    exact absurd has (empty found)
  · intro call pass turn slot control opens
    cases opens

/-- What the end of a wait does to the tunnel in the hands of a supervisor. -/
theorem waits_tunnel {v v' : Supervisor} {a : Supervisor.Answer} {actions : List Supervisor.Action}
    (waits : Supervisor.Waits crypto addr params v a actions v') :
    (∃ c, control? v = some c ∧ v.phase.shown = none ∧ control? v' = some c ∧
      v'.phase.shown = some c ∧ actions.filterMap tunnel? = [c]) ∨
    actions.filterMap tunnel? = [] ∧ ((control? v' = none ∧ v'.phase.shown = none) ∨
      (control? v' = some a.control ∧ v'.phase.shown = none) ∨
      (control? v' = control? v ∧ v'.phase.shown = v.phase.shown)) := by
  cases waits with
  | @set c phase =>
    left
    exact ⟨c, by simp [control?, phase], by simp [phase, Supervisor.Phase.shown], rfl, rfl, rfl⟩
  | shook phase ok => exact .inr ⟨rfl, .inr (.inl ⟨rfl, rfl⟩)⟩
  | ended phase =>
    right
    refine ⟨rfl, .inr (.inr ⟨?_, ?_⟩)⟩
    · simp [control?, phase]
    · simp [phase, Supervisor.Phase.shown]
  | woke phase over_ =>
    right
    refine ⟨rfl, .inl ?_⟩
    rcases Supervisor.dial_cases params with first | first <;>
      simp [control?, first, Supervisor.Phase.shown]
  | knocked phase knock ok | unsent phase failed | reached phase ok | retries phase failed more
  | unreachable phase failed last | again phase over_ | refused phase failed | cleared phase =>
    exact .inr ⟨rfl, .inl ⟨rfl, rfl⟩⟩

/-- What it does to the slot. -/
theorem waits_shows {v v' : Supervisor} {a : Supervisor.Answer} {actions : List Supervisor.Action}
    {pool : SupervisedPool} {slot : Nat} (waits : Supervisor.Waits crypto addr params v a actions v')
    (here : pool.slots[slot]? = some v.phase.shown) :
    (actions.filterMap (access slot)).foldl show_ pool =
      { pool with slots := pool.slots.set slot v'.phase.shown } := by
  obtain ⟨inside, now⟩ := List.getElem?_eq_some_iff.mp here
  have kept (same : v'.phase.shown = v.phase.shown) :
      pool = { pool with slots := pool.slots.set slot v'.phase.shown } := by
    rw [same, ← now, List.set_getElem_self]
  cases waits with
  | set phase | cleared phase => rfl
  | woke phase over_ =>
    apply kept
    rcases Supervisor.dial_cases params with first | first <;>
      simp [phase, first, Supervisor.Phase.shown]
  | knocked phase knock ok | unsent phase failed | reached phase ok | retries phase failed more
  | unreachable phase failed last | again phase over_ | shook phase ok | refused phase failed
  | ended phase =>
    apply kept
    rw [phase]
    rfl

theorem control?_of_shown {v : Supervisor} {control : MuxControl}
    (showing : v.phase.shown = some control) : control? v = some control := by
  cases phase : v.phase <;> rw [phase] at showing <;>
    simp_all [control?, Supervisor.Phase.shown]

theorem tracks_supervise {s : Supervision} {tr : Trace} {slot : Nat} {a : Supervisor.Answer}
    {v v' : Supervisor} {actions : List Supervisor.Action} (h : Tracks s tr)
    (found : s.supervisors[slot]? = some v)
    (waits : Supervisor.Waits crypto addr params v { a with control := ⟨s.made⟩ } actions v') :
    Tracks ⟨(actions.filterMap (access slot)).foldl show_ s.pool, s.supervisors.set slot v',
      s.made + 1⟩ (tr ++ [(.supervise slot a, ⟨none, slot, actions⟩)]) := by
  have here : s.pool.slots[slot]? = some v.phase.shown := by
    rw [h.slots, List.getElem?_map, found, Option.map_some]
  have inside := (List.getElem?_eq_some_iff.mp found).1
  rw [waits_shows waits here]
  have grown : shown (tr ++ [(.supervise slot a, ⟨none, slot, actions⟩)]) =
      shown tr ++ actions.filterMap tunnel? := by
    rw [shown_snoc]
    simp [shown]
  -- The new hand of the slot: what it showed, what it is about to show, or what is new.
  have hand : ∀ control, control? v' = some control → control? v = some control ∨
      control = ⟨s.made⟩ := by
    intro control has
    rcases waits_tunnel waits with ⟨c, has', -, has'', -, -⟩ | ⟨-, none | fresh | same⟩
    · rw [has''] at has
      exact .inl (has ▸ has')
    · rw [none.1] at has
      cases has
    · rw [fresh.1] at has
      exact .inr (Option.some.inj has).symm
    · exact .inl (same.1 ▸ has)
  have others : ∀ j w control, slot ≠ j → s.supervisors[j]? = some w → control? w = some control →
      control? v' ≠ some control := by
    intro j w control other found' has has'
    rcases hand control has' with old | rfl
    · exact other (h.apart slot j v w control found found' old has)
    · exact absurd (h.held j w _ found' has).1 (lt_irrefl _)
  constructor
  · rw [h.slots, List.map_set]
  · rw [grown]
    intro control member
    rcases List.mem_append.mp member with old | new
    · exact Nat.lt_succ_of_lt (h.numbered control old)
    · rcases waits_tunnel waits with ⟨c, has, -, -, -, set⟩ | ⟨none, -⟩
      · rw [set, List.mem_singleton] at new
        subst new
        exact Nat.lt_succ_of_lt (h.held slot v _ found has).1
      · rw [none] at new
        cases new
  · rw [grown]
    rcases waits_tunnel waits with ⟨c, has, hidden, -, -, set⟩ | ⟨none, -⟩
    · rw [set, List.nodup_append]
      refine ⟨h.once, List.nodup_singleton _, ?_⟩
      rintro c' old _ new rfl
      rw [List.mem_singleton.mp new] at old
      have showing := (h.held slot v c found has).2.mp old
      rw [hidden] at showing
      cases showing
    · rw [none, List.append_nil]
      exact h.once
  · intro j w control found' has
    rw [grown]
    by_cases same : slot = j
    · subst same
      rw [List.getElem?_set_self inside] at found'
      cases found'
      rcases waits_tunnel waits with ⟨c, has', -, has'', showing, set⟩ | ⟨none, lost | fresh | kept⟩
      · obtain rfl : control = c := Option.some.inj (has.symm.trans has'')
        exact ⟨Nat.lt_succ_of_lt (h.held slot v control found has').1, by simp [set, showing]⟩
      · rw [lost.1] at has
        cases has
      · cases has.symm.trans fresh.1
        refine ⟨Nat.lt_succ_self _, ?_⟩
        rw [none, List.append_nil, fresh.2]
        exact ⟨fun old => absurd (h.numbered _ old) (lt_irrefl _), fun showing => by cases showing⟩
      · rw [kept.1] at has
        rw [none, List.append_nil, kept.2]
        exact (h.held slot v control found has).imp_left Nat.lt_succ_of_lt
    · rw [List.getElem?_set_ne same] at found'
      refine (h.held j w control found' has).imp Nat.lt_succ_of_lt fun old => ?_
      rcases waits_tunnel waits with ⟨c, has', -, -, -, set⟩ | ⟨none, -⟩
      · have differs : control ≠ c := by
          rintro rfl
          exact same (h.apart slot j v w control found found' has' has)
        simpa [set, differs] using old
      · rwa [none, List.append_nil]
  · intro i j u w control foundU foundW hasU hasW
    by_cases i = slot <;> by_cases j = slot <;> rename_i first second
    · exact first.trans second.symm
    · subst first
      rw [List.getElem?_set_self inside] at foundU
      rw [List.getElem?_set_ne (Ne.symm second)] at foundW
      cases foundU
      exact absurd hasU (others j w control (Ne.symm second) foundW hasW)
    · subst second
      rw [List.getElem?_set_self inside] at foundW
      rw [List.getElem?_set_ne (Ne.symm first)] at foundU
      cases foundW
      exact absurd hasW (others i u control (Ne.symm first) foundU hasU)
    · rw [List.getElem?_set_ne (Ne.symm first)] at foundU
      rw [List.getElem?_set_ne (Ne.symm second)] at foundW
      exact h.apart i j u w control foundU foundW hasU hasW
  · intro call pass turn i control opens
    rw [grown]
    exact List.mem_append_left _ (h.opening call pass turn i control opens)

/-- A call of `open` sees what the slots show. -/
theorem tracks_call {s : Supervision} {tr : Trace} {e : SupervisedPool.Event} {event : Event}
    {ticket : Option UInt64} {pool : SupervisedPool} (h : Tracks s tr)
    (called : s.pool.step e = some (ticket, pool)) (slots : pool.slots = s.pool.slots) :
    Tracks { s with pool } (tr ++ [(event, ⟨ticket, 0, []⟩)]) := by
  have same : shown (tr ++ [(event, ⟨ticket, 0, []⟩)]) = shown tr := by
    rw [shown_snoc]
    exact List.append_nil _
  constructor
  · exact slots.trans h.slots
  · rw [same]
    exact h.numbered
  · rw [same]
    exact h.once
  · rw [same]
    exact h.held
  · exact h.apart
  · intro call pass turn slot control opens
    rw [same]
    rcases SupervisedPool.opening_step called opens with before | found
    · exact h.opening call pass turn slot control before
    · rw [h.slots, List.getElem?_map] at found
      obtain ⟨v, held, showing⟩ := Option.map_eq_some_iff.mp found
      exact (h.held slot v control held (control?_of_shown showing)).2.mpr showing

theorem tracks_step {s s' : Supervision} {tr : Trace} {e : Event} {o : Output} (h : Tracks s tr)
    (stepped : step crypto addr params s e = some (o, s')) : Tracks s' (tr ++ [(e, o)]) := by
  cases step_spec stepped with
  | supervise found waited => exact tracks_supervise h found (Supervisor.waited_spec waited)
  | start called => exact tracks_call h called (SupervisedPool.start_slots called)
  | poll called => exact tracks_call h called (SupervisedPool.poll_slots called)
  | elapse ms =>
    have same : shown (tr ++ [(.elapse ms, ⟨none, 0, []⟩)]) = shown tr := by
      rw [shown_snoc]
      exact List.append_nil _
    -- Time leaves the phases as they are.
    have earlier {slot : Nat} {v : Supervisor}
        (found : (s.supervisors.map fun v => { v with now := v.now + ms })[slot]? = some v) :
        ∃ w, s.supervisors[slot]? = some w ∧ v.phase = w.phase := by
      rw [List.getElem?_map] at found
      obtain ⟨w, held, rfl⟩ := Option.map_eq_some_iff.mp found
      exact ⟨w, held, rfl⟩
    have control {v w : Supervisor} (phase : v.phase = w.phase) : control? v = control? w := by
      unfold control?
      rw [phase]
    constructor
    · rw [List.map_map]
      exact h.slots
    · rw [same]
      exact h.numbered
    · rw [same]
      exact h.once
    · intro slot v c found has
      obtain ⟨w, found', phase⟩ := earlier found
      rw [same, phase]
      exact h.held slot w c found' (control phase ▸ has)
    · intro i j v w c foundV foundW hasV hasW
      obtain ⟨v', foundV', phaseV⟩ := earlier foundV
      obtain ⟨w', foundW', phaseW⟩ := earlier foundW
      exact h.apart i j v' w' c foundV' foundW' (control phaseV ▸ hasV) (control phaseW ▸ hasW)
    · rw [same]
      exact h.opening

theorem run_tracks {size : Nat} {tr : Trace} {s : Supervision}
    (run : Run (step crypto addr params) (buildPool params size) tr s) : Tracks s tr := by
  induction run with
  | nil => exact tracks_new params size
  | snoc left stepped ih => exact tracks_step ih stepped

/-- The slots of a pool show its supervisors' tunnels as they come and go, each in
one slot and once; `open` never takes another. To the calls, the run is one of the
pool under some supervisors, and each supervisor keeps to its order. -/
theorem supervision_refines (crypto : Knock.Crypto) (addr : SocketAddr) (params : TunnelParams)
    (size : Nat) (tr : Trace) (s : Supervision)
    (run : Run (step crypto addr params) (buildPool params size) tr s) :
    s.pool.slots = s.supervisors.map (fun v => v.phase.shown) ∧
      s.liveSlots = s.supervisors.countP (fun v => v.phase.shown.isSome) ∧ (shown tr).Nodup ∧
      (∀ (i j : Nat) control, s.pool.slots[i]? = some (some control) →
        s.pool.slots[j]? = some (some control) → i = j) ∧
      (∀ call pass turn slot control,
        s.pool.calls call = .opening pass turn slot control → control ∈ shown tr) ∧
      Run SupervisedPool.step (buildPool params size).pool (tr.flatMap poolEvents) s.pool ∧
      ∀ slot, slot < s.supervisors.length →
        Conforms (Supervisor.Allowed crypto addr params) (actionsOf slot tr) := by
  have tracks := run_tracks run
  refine ⟨tracks.slots, ?_, tracks.once, ?_, tracks.opening, run_pool run, ?_⟩
  · rw [liveSlots, tracks.slots, List.countP_map]
    rfl
  · intro i j control first second
    rw [tracks.slots, List.getElem?_map] at first second
    obtain ⟨v, foundV, showsV⟩ := Option.map_eq_some_iff.mp first
    obtain ⟨w, foundW, showsW⟩ := Option.map_eq_some_iff.mp second
    exact tracks.apart i j v w control foundV foundW (control?_of_shown showsV)
      (control?_of_shown showsW)
  · intro slot inside
    obtain ⟨vtr, alone, same⟩ := run_supervisor run (List.getElem?_eq_getElem inside)
    rw [← same]
    exact (Supervisor.run_follows alone).conforms

/-- Two tunnels, of which the first is up, and a call of `open` that finds it. -/
def sampleEvents : List Event :=
  let good slot := .supervise slot (Supervisor.sampleAnswer (.ok ()))
  [.start 0, good 1, good 0, good 0, good 0, good 0, .poll 0 (.ok ⟨1⟩), .poll 0 (.ok ⟨1⟩),
   .poll 0 (.ok ⟨1⟩), .elapse 5, good 0]

theorem supervision_refines_sample : ∃ tr s,
    Run (step .transparent Supervisor.sampleAddr Supervisor.sampleParams)
        (buildPool Supervisor.sampleParams 2) tr s ∧ tr.map Prod.fst = sampleEvents ∧
      s.liveSlots = 1 ∧ s.supervisors.countP (fun v => v.phase.shown.isSome) = 1 := by
  obtain ⟨⟨tr, s⟩, h, live⟩ : ∃ result,
      exec (step .transparent Supervisor.sampleAddr Supervisor.sampleParams)
        (buildPool Supervisor.sampleParams 2) sampleEvents = some result ∧
        result.2.liveSlots = 1 := ⟨_, rfl, rfl⟩
  obtain ⟨run, inputs⟩ := exec_run h
  exact ⟨tr, s, run, inputs, live, (supervision_refines _ _ _ 2 tr s run).2.1 ▸ live⟩

end Supervision
end HyperionVpn
