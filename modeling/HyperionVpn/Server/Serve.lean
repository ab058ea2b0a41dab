import HyperionVpn.Lib.Machine

/-! The accept loop of the server and the signals that are to end it. The
future of `shutdown_signal` lives as long as one `select!`; its listeners see the
signals that are delivered while they exist. -/
namespace HyperionVpn.Serve
open Machine

inductive Signal where
  | terminate
  | interrupt
  deriving DecidableEq, Repr

instance : Fintype Signal := ⟨{.terminate, .interrupt}, by rintro (_ | _) <;> simp⟩

def Signal.other : Signal → Signal
  | terminate => interrupt
  | interrupt => terminate

/-- The parts of a round of polls, in the order in which they are run. -/
inductive Op where
  /-- `signal(SignalKind::terminate())`, which the first poll comes to. -/
  | listen
  /-- A branch of the inner `select!`; `ctrl_c` makes its listener when it is
  first polled. -/
  | recv (signal : Signal)
  | accept
  deriving DecidableEq, Repr

/-- Both `select!`s poll their branches in an order that they draw each time. -/
structure Order where
  acceptFirst : Bool
  signalFirst : Signal

def shutdownSignal (first : Signal) : List Op := [.listen, .recv first, .recv first.other]

def Order.round (order : Order) : List Op :=
  if order.acceptFirst then .accept :: shutdownSignal order.signalFirst
  else shutdownSignal order.signalFirst ++ [.accept]

inductive Accepted where
  | connection
  | error
  deriving DecidableEq, Repr

inductive Phase where
  /-- In the `select!`, with what is left of the round; without, it waits. -/
  | select (left : List Op)
  /-- The connection is handed to a task of its own. -/
  | serving
  /-- `ACCEPT_RETRY_DELAY`. -/
  | retrying
  | stopped
  deriving DecidableEq, Repr

/-- What there is to a signal: whether its default action is off, whether it has
been delivered, and its listener, notified or not. -/
structure Handler where
  installed : Bool
  delivered : Bool
  listener : Option Bool
  deriving DecidableEq, Repr

structure Loop where
  phase : Phase
  handler : Signal → Handler

def init : Loop := ⟨.select [], fun _ => ⟨false, false, none⟩⟩

inductive Event where
  | signal (signal : Signal)
  | wake (order : Order)
  /-- The next part of the round; `accept` is ready with the given result. -/
  | poll (accepted : Option Accepted)
  /-- The loop goes on after a connection, or when the delay is over. -/
  | next

def Handler.listen (h : Handler) : Handler :=
  { h with installed := true, listener := some (h.listener.getD false) }

def Handler.deliver (h : Handler) : Handler :=
  { h with delivered := true, listener := h.listener.map fun _ => true }

def Handler.drop (h : Handler) : Handler := { h with listener := none }

namespace Loop

def update (l : Loop) (s : Signal) (f : Handler → Handler) : Signal → Handler :=
  Function.update l.handler s (f (l.handler s))

/-- The default action of both signals ends the process. -/
def deliver (l : Loop) (s : Signal) : Loop :=
  ⟨if (l.handler s).installed then l.phase else .stopped, l.update s Handler.deliver⟩

/-- A branch is done, and the futures of the `select!` are dropped. -/
def finish (l : Loop) (phase : Phase) : Loop := ⟨phase, fun s => (l.handler s).drop⟩

def poll (l : Loop) (left : List Op) (accepted : Option Accepted) : Op → Option Accepted × Loop
  | .listen => (none, ⟨.select left, l.update .terminate Handler.listen⟩)
  | .recv s =>
    if (l.handler s).listener = some true then (none, l.finish .stopped)
    else (none, ⟨.select left, l.update s Handler.listen⟩)
  | .accept =>
    match accepted with
    | none => (none, ⟨.select left, l.handler⟩)
    | some .connection => (some .connection, l.finish .serving)
    | some .error => (some .error, l.finish .retrying)

end Loop

def step (l : Loop) : Event → Option (Option Accepted × Loop)
  | .signal s => some (none, l.deliver s)
  | .wake order =>
    match l.phase with
    | .select [] => some (none, ⟨.select order.round, l.handler⟩)
    | _ => none
  | .poll accepted =>
    match l.phase with
    | .select (op :: left) => some (l.poll left accepted op)
    | _ => none
  | .next =>
    match l.phase with
    | .serving | .retrying => some (none, ⟨.select [], l.handler⟩)
    | _ => none

/-! What is lost. -/

/-- The next part of the round. -/
def Loop.op (l : Loop) : Option Op :=
  match l.phase with
  | .select (op :: _) => some op
  | _ => none

def Loop.Notified (l : Loop) : Prop := ∃ s, (l.handler s).listener = some true

instance (l : Loop) : Decidable l.Notified := inferInstanceAs (Decidable (∃ _, _))

/-- If a signal has been delivered, the loop is over or will see one. -/
def Heeded (l : Loop) : Prop :=
  (∃ s, (l.handler s).delivered = true) → l.phase = .stopped ∨ l.Notified

/-- No signal is lost: no state that is reached has been sent a signal that it
will never see, and at most the `select!` that a signal comes upon, or the next,
ends with a connection. -/
structure NothingLost (tr : List (Event × Option Accepted)) : Prop where
  heeded : Everywhere step init Heeded tr
  bounded : ∀ before s o after, tr = before ++ (.signal s, o) :: after →
    (after.filter fun e => e.2 = some .connection).length ≤ 1

/-- A signal with its default action off comes upon its listener, or upon a loop
that is over or will see another; and `accept` is not found ready before a
listener that has been notified. -/
def Safe (l : Loop) : Event → Prop
  | .signal s => l.phase = .stopped ∨ (l.handler s).installed = false ∨
      (l.handler s).listener ≠ none ∨ l.Notified
  | .poll (some _) => l.op = some .accept → ¬ l.Notified
  | .poll none | .wake _ | .next => True

instance (l : Loop) : (e : Event) → Decidable (Safe l e)
  | .signal _ => inferInstanceAs (Decidable (_ ∨ _))
  | .poll (some _) => inferInstanceAs (Decidable (_ → _))
  | .poll none | .wake _ | .next => inferInstanceAs (Decidable True)

/-! One step. -/

/-- Only a signal that has been delivered notifies. -/
def Sound (l : Loop) : Prop :=
  ∀ s, (l.handler s).listener = some true → (l.handler s).delivered = true

@[simp] theorem update_same (l : Loop) (s : Signal) (f : Handler → Handler) :
    l.update s f s = f (l.handler s) := Function.update_self ..

theorem update_ne (l : Loop) {s r : Signal} (other : r ≠ s) (f : Handler → Handler) :
    l.update s f r = l.handler r := Function.update_of_ne other ..

/-- A new listener is not notified, and an old one stays as it is. -/
theorem listen_listener (h : Handler) : h.listen.listener = some true ↔ h.listener = some true := by
  cases found : h.listener <;> simp [Handler.listen, found]

theorem update_listen (l : Loop) (s r : Signal) :
    ((l.update s Handler.listen r).listener = some true ↔ (l.handler r).listener = some true) ∧
      (l.update s Handler.listen r).delivered = (l.handler r).delivered := by
  by_cases same : r = s
  · subst same
    rw [update_same]
    exact ⟨listen_listener _, rfl⟩
  · rw [update_ne l same]
    exact ⟨Iff.rfl, rfl⟩

/-- Nothing has changed that matters to signals. -/
structure Quiet (l l' : Loop) : Prop where
  running : l'.phase ≠ .stopped
  delivered : ∀ s, (l'.handler s).delivered = (l.handler s).delivered
  notified : ∀ s, (l'.handler s).listener = some true ↔ (l.handler s).listener = some true

theorem Quiet.phase {l : Loop} {phase : Phase} (running : phase ≠ .stopped) :
    Quiet l ⟨phase, l.handler⟩ :=
  ⟨running, fun _ => rfl, fun _ => Iff.rfl⟩

theorem Quiet.listen {l : Loop} {phase : Phase} (running : phase ≠ .stopped) (s : Signal) :
    Quiet l ⟨phase, l.update s Handler.listen⟩ :=
  ⟨running, fun r => (update_listen l s r).2, fun r => (update_listen l s r).1⟩

/-- What a step can do. -/
inductive Effect (l : Loop) (e : Event) : Option Accepted → Loop → Prop where
  | quiet (running : l.phase ≠ .stopped) (quiet : Quiet l l') (safe : Safe l e) : Effect l e none l'
  | stop (notified : l.Notified) (safe : Safe l e) : Effect l e none (l.finish .stopped)
  | signal (s : Signal) (event : e = .signal s) : Effect l e none (l.deliver s)
  | take (a : Accepted) (phase : Phase) (running : l.phase ≠ .stopped) (goes : phase ≠ .stopped)
      (safe : Safe l e ↔ ¬ l.Notified) : Effect l e (some a) (l.finish phase)

theorem poll_effect {l : Loop} {op : Op} {left : List Op} {accepted : Option Accepted}
    (phase : l.phase = .select (op :: left)) :
    Effect l (.poll accepted) (l.poll left accepted op).1 (l.poll left accepted op).2 := by
  have running : l.phase ≠ .stopped := by simp [phase]
  have goes : Phase.select left ≠ .stopped := by simp
  cases op with
  | listen =>
    have safe : Safe l (.poll accepted) := by cases accepted <;> simp [Safe, Loop.op, phase]
    exact .quiet running (Quiet.listen goes .terminate) safe
  | recv s =>
    have safe : Safe l (.poll accepted) := by cases accepted <;> simp [Safe, Loop.op, phase]
    rw [Loop.poll]
    split
    · rename_i notified
      exact .stop ⟨s, notified⟩ safe
    · exact .quiet running (Quiet.listen goes s) safe
  | accept =>
    cases accepted with
    | none => exact .quiet running (Quiet.phase goes) trivial
    | some a =>
      have safe : Safe l (.poll (some a)) ↔ ¬ l.Notified := by simp [Safe, Loop.op, phase]
      cases a with
      | connection => exact .take _ _ running (by simp) safe
      | error => exact .take _ _ running (by simp) safe

theorem step_effect {l l' : Loop} {e : Event} {o : Option Accepted}
    (h : step l e = some (o, l')) : Effect l e o l' := by
  cases e with
  | signal s =>
    cases h
    exact .signal s rfl
  | wake order =>
    simp only [step] at h
    split at h
    · rename_i waiting
      cases h
      exact .quiet (by simp [waiting]) (Quiet.phase (by simp)) trivial
    · cases h
  | poll accepted =>
    simp only [step] at h
    split at h
    · rename_i op left phase
      have effect := @poll_effect l op left accepted phase
      rw [Option.some.inj h] at effect
      exact effect
    · cases h
  | next =>
    simp only [step] at h
    split at h
    · rename_i serving
      cases h
      exact .quiet (by simp [serving]) (Quiet.phase (by simp)) trivial
    · rename_i retrying
      cases h
      exact .quiet (by simp [retrying]) (Quiet.phase (by simp)) trivial
    · cases h

theorem deliver_delivered (l : Loop) (s : Signal) :
    ((l.deliver s).handler s).delivered = true := by
  simp [Loop.deliver, Handler.deliver]

/-- What has been delivered stays so. -/
theorem Effect.delivered {l l' : Loop} {e : Event} {o : Option Accepted} (effect : Effect l e o l')
    {s : Signal} (sent : (l.handler s).delivered = true) : (l'.handler s).delivered = true := by
  cases effect with
  | quiet _ quiet _ => rwa [quiet.delivered]
  | stop _ _ => exact sent
  | signal r _ =>
    by_cases same : s = r
    · subst same
      exact deliver_delivered l s
    · have kept : (l.deliver r).handler s = l.handler s := update_ne l same _
      rwa [kept]
  | take _ _ _ _ _ => exact sent

theorem Effect.sound {l l' : Loop} {e : Event} {o : Option Accepted} (effect : Effect l e o l')
    (sound : Sound l) : Sound l' := by
  intro s notified
  cases effect with
  | quiet _ quiet _ =>
    rw [quiet.delivered]
    exact sound s ((quiet.notified s).mp notified)
  | stop _ _ => cases notified
  | signal r event =>
    by_cases same : s = r
    · subst same
      exact deliver_delivered l s
    · have kept : (l.deliver r).handler s = l.handler s := update_ne l same _
      rw [kept] at notified ⊢
      exact sound s notified
  | take _ _ _ _ _ => cases notified

theorem deliver_notified {l : Loop} {s : Signal} :
    (l.deliver s).Notified ↔ (l.handler s).listener ≠ none ∨ l.Notified := by
  have here : ((l.deliver s).handler s).listener = (l.handler s).listener.map fun _ => true := by
    simp [Loop.deliver, Handler.deliver]
  have others {r : Signal} (other : r ≠ s) : (l.deliver s).handler r = l.handler r :=
    update_ne l other _
  constructor
  · rintro ⟨r, notified⟩
    by_cases same : r = s
    · subst same
      left
      intro absent
      rw [here, absent] at notified
      cases notified
    · rw [others same] at notified
      exact .inr ⟨r, notified⟩
  · intro seen
    by_cases present : (l.handler s).listener = none
    · obtain ⟨r, notified⟩ := seen.resolve_left (not_not_intro present)
      have other : r ≠ s := by
        rintro rfl
        rw [present] at notified
        cases notified
      refine ⟨r, ?_⟩
      rwa [others other]
    · obtain ⟨notified, found⟩ := Option.ne_none_iff_exists'.mp present
      refine ⟨s, ?_⟩
      rw [here, found]
      rfl

/-- A signal is heeded if it comes upon a listener, if another is about to be
seen, or if it ends the process. -/
theorem deliver_heeded {l : Loop} {s : Signal} : Heeded (l.deliver s) ↔ Safe l (.signal s) := by
  have sent : ∃ r, ((l.deliver s).handler r).delivered = true := ⟨s, deliver_delivered l s⟩
  have ends : (l.deliver s).phase = .stopped ↔
      l.phase = .stopped ∨ (l.handler s).installed = false := by
    simp only [Loop.deliver]
    cases (l.handler s).installed <;> simp
  simp only [Heeded, sent, true_implies, ends, deliver_notified, Safe, or_assoc]

/-- The step that heeds what has been delivered is the safe one. -/
theorem Effect.heeded_iff {l l' : Loop} {e : Event} {o : Option Accepted}
    (effect : Effect l e o l') (sound : Sound l) (heeded : Heeded l) : Heeded l' ↔ Safe l e := by
  cases effect with
  | quiet running quiet safe =>
    refine ⟨fun _ => safe, fun _ ⟨s, sent⟩ => .inr ?_⟩
    rw [quiet.delivered] at sent
    obtain ⟨r, notified⟩ := (heeded ⟨s, sent⟩).resolve_left running
    exact ⟨r, (quiet.notified r).mpr notified⟩
  | stop _ safe => exact ⟨fun _ => safe, fun _ _ => .inl rfl⟩
  | signal s event =>
    subst event
    exact deliver_heeded
  | take a phase running goes safe =>
    rw [safe]
    constructor
    · rintro heeded' ⟨s, notified⟩
      rcases heeded' ⟨s, sound s notified⟩ with stopped | ⟨r, gone⟩
      · exact goes stopped
      · cases gone
    · rintro quiet ⟨s, sent⟩
      exact absurd ((heeded ⟨s, sent⟩).resolve_left running) quiet

/-! Runs. -/

theorem init_sound : Sound init := by
  intro s notified
  cases notified

theorem init_heeded : Heeded init := by
  rintro ⟨s, sent⟩
  cases sent

/-- A loop that heeds what has been delivered takes no connection any more. -/
theorem no_connection {l l' : Loop} {s : Signal} {tr : List (Event × Option Accepted)}
    (run : Run step l tr l') (sent : (l.handler s).delivered = true)
    (heeded : Everywhere step l Heeded tr) : ∀ e ∈ tr, e.2 ≠ some .connection := by
  rintro ⟨e, o⟩ member rfl
  obtain ⟨a, b, rfl⟩ := List.append_of_mem member
  obtain ⟨m, m', left, h, right⟩ := run.at_step
  have sent' : (m'.handler s).delivered = true := by
    apply (step_effect h).delivered
    exact left.invariant (P := fun l => (l.handler s).delivered = true) sent
      fun sent h => (step_effect h).delivered sent
  have after : Heeded m' := by
    apply heeded (a ++ [(e, some .connection)]) b m' (by simp)
    exact left.snoc h
  cases step_effect h with
  | take a phase _ goes _ =>
    rcases after ⟨s, sent'⟩ with stopped | ⟨r, gone⟩
    · exact goes stopped
    · cases gone

/-- No signal is lost in the runs in which each comes upon its listener and is
seen before the next connection, and in no others. -/
theorem nothing_lost_iff (tr : List (Event × Option Accepted)) (l : Loop)
    (run : Run step init tr l) : NothingLost tr ↔ Always step init Safe tr := by
  have heeded_iff : Everywhere step init Heeded tr ↔ Always step init Safe tr :=
    run.everywhere_iff init_heeded init_sound (fun sound h => (step_effect h).sound sound)
      fun sound heeded h => (step_effect h).heeded_iff sound heeded
  constructor
  · intro lost
    exact heeded_iff.mp lost.heeded
  · intro safe
    have heeded := heeded_iff.mpr safe
    refine ⟨heeded, ?_⟩
    rintro before s o after rfl
    obtain ⟨m, m', left, h, right⟩ := run.at_step
    have none : ∀ e ∈ after, e.2 ≠ some .connection := by
      cases h
      apply no_connection right (deliver_delivered m s)
      rintro a b n rfl first
      exact heeded (before ++ (.signal s, none) :: a) b n (by simp) (left.trans (.cons rfl first))
    rw [List.filter_eq_nil_iff.mpr (by simpa using none)]
    exact Nat.zero_le _

/-- The signal comes in the delay after a failed `accept`; two connections are
taken after it. -/
def sampleEvents : List Event :=
  let round (accepted : Option Accepted) : List Event :=
    [.wake ⟨false, .terminate⟩, .poll none, .poll none, .poll none, .poll accepted]
  round (some .error) ++ [.signal .terminate, .next] ++ round (some .connection) ++ [.next] ++
    round (some .connection)

theorem signal_lost_in_delay : ¬ ∀ (tr : List (Event × Option Accepted)) (l : Loop),
    Run step init tr l → NothingLost tr := by
  intro claim
  obtain ⟨⟨tr, l⟩, h, trace⟩ : ∃ result, exec step init sampleEvents = some result ∧
      ((result.1.drop 6).filter fun e => e.2 = some .connection).length = 2 ∧
      result.1[5]? = some (.signal .terminate, none) := ⟨_, rfl, rfl, rfl⟩
  obtain ⟨run, -⟩ := exec_run h
  obtain ⟨inside, same⟩ := List.getElem?_eq_some_iff.mp trace.2
  have split : tr = tr.take 5 ++ (.signal .terminate, none) :: tr.drop 6 := by
    rw [← same, ← List.drop_eq_getElem_cons inside, List.take_append_drop]
  have bounded := (claim tr l run).bounded _ _ _ _ split
  rw [trace.1] at bounded
  exact absurd bounded (by decide)

/-- The signal comes while the loop waits. -/
def sampleWaiting : List Event :=
  [.wake ⟨true, .interrupt⟩, .poll none, .poll none, .poll none, .poll none, .signal .terminate,
    .wake ⟨false, .terminate⟩, .poll none, .poll none]

theorem nothing_lost_iff_sample : ∃ tr l, Run step init tr l ∧
    tr.map Prod.fst = sampleWaiting ∧ l.phase = .stopped ∧ NothingLost tr := by
  obtain ⟨⟨tr, l⟩, h, stopped⟩ : ∃ result, exec step init sampleWaiting = some result ∧
      result.2.phase = .stopped := ⟨_, rfl, rfl⟩
  obtain ⟨run, inputs⟩ := exec_run h
  have safe : Always step init Safe tr := Always.of_checkAll (by decide) run inputs
  exact ⟨tr, l, run, inputs, stopped, (nothing_lost_iff tr l run).mpr safe⟩

end HyperionVpn.Serve
