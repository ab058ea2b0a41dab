import HyperionVpn.Core.Supervise
import HyperionVpn.Lib.History

/-! What every supervisor does, however its waits end: one dial after the other,
each with its knock first, and longer sleeps as long as none gets through. -/
namespace HyperionVpn.Supervisor
open Net Client Machine History

variable {crypto : Knock.Crypto} {addr : SocketAddr} {params : TunnelParams}

/-- How long a supervisor sleeps, its jitter included. -/
def pauseMs (v : Supervisor) (a : Answer) : Nat := v.backoff + backoffJitter a.random

def asleep (v : Supervisor) (a : Answer) : Supervisor :=
  { v with phase := .sleeping (v.now + v.pauseMs a) }

/-- All that the end of a wait can do. -/
inductive Waits (crypto : Knock.Crypto) (addr : SocketAddr) (params : TunnelParams)
    (v : Supervisor) (a : Answer) : List Action → Supervisor → Prop where
  | knocked {k : KnockSettings} (phase : v.phase = .knocking) (knock : params.knock = some k)
      (ok : a.result = .ok ()) :
      Waits crypto addr params v a [sent crypto addr params k a] { v with phase := .connecting 0 }
  | unsent {e : Error} (phase : v.phase = .knocking) (failed : a.result = .error e) :
      Waits crypto addr params v a [.sleep (v.pauseMs a)] (v.asleep a)
  | reached {i : Nat} (phase : v.phase = .connecting i) (ok : a.result = .ok ()) :
      Waits crypto addr params v a [.connect addr] { v with phase := .shaking }
  | retries {i : Nat} {e : Error} (phase : v.phase = .connecting i) (failed : a.result = .error e)
      (more : i + 1 < attempts params) : Waits crypto addr params v a [.connect addr]
        { v with phase := .retrying i (v.now + knockRetryDelay) }
  | unreachable {i : Nat} {e : Error} (phase : v.phase = .connecting i)
      (failed : a.result = .error e) (last : attempts params ≤ i + 1) :
      Waits crypto addr params v a [.connect addr, .sleep (v.pauseMs a)] (v.asleep a)
  | again {i due : Nat} (phase : v.phase = .retrying i due) (due_ : due ≤ v.now) :
      Waits crypto addr params v a [] { v with phase := .connecting (i + 1) }
  | shook (phase : v.phase = .shaking) (ok : a.result = .ok ()) :
      Waits crypto addr params v a [] { v with phase := .connected a.control }
  | refused {e : Error} (phase : v.phase = .shaking) (failed : a.result = .error e) :
      Waits crypto addr params v a [.sleep (v.pauseMs a)] (v.asleep a)
  | set {c : MuxControl} (phase : v.phase = .connected c) : Waits crypto addr params v a [.set c]
      { v with phase := .driving c, backoff := backoffInitial }
  | ended {c : MuxControl} (phase : v.phase = .driving c) :
      Waits crypto addr params v a [] { v with phase := .dropped c }
  | cleared {c : MuxControl} (phase : v.phase = .dropped c) :
      Waits crypto addr params v a [.clear, .sleep (v.pauseMs a)] (v.asleep a)
  | woke {due : Nat} (phase : v.phase = .sleeping due) (due_ : due ≤ v.now) :
      Waits crypto addr params v a [.wake]
        { v with phase := dial params, backoff := min (v.backoff * 2) backoffMax }

theorem waited_spec {v v' : Supervisor} {a : Answer} {acts : List Action}
    (h : v.waited crypto addr params a = some (acts, v')) : Waits crypto addr params v a acts v' := by
  cases phase : v.phase with
  | knocking =>
    simp only [waited, phase] at h
    cases knock : params.knock with
    | none =>
      rw [knock] at h
      cases h
    | some k =>
      rw [knock] at h
      cases result : a.result with
      | ok =>
        rw [result] at h
        cases h
        exact .knocked phase knock result
      | error e =>
        rw [result] at h
        cases h
        exact .unsent phase result
  | connecting i =>
    simp only [waited, phase, tried] at h
    cases result : a.result with
    | ok =>
      rw [result] at h
      cases h
      exact .reached phase result
    | error e =>
      rw [result] at h
      dsimp only at h
      split at h <;> rename_i more <;> cases h
      · exact .retries phase result more
      · exact .unreachable phase result (Nat.not_lt.mp more)
  | retrying i due =>
    simp only [waited, phase] at h
    split at h <;> rename_i over_ <;> cases h
    exact .again phase over_
  | shaking =>
    simp only [waited, phase] at h
    cases result : a.result with
    | ok =>
      rw [result] at h
      cases h
      exact .shook phase result
    | error e =>
      rw [result] at h
      cases h
      exact .refused phase result
  | connected c =>
    simp only [waited, phase] at h
    cases h
    exact .set phase
  | driving c =>
    simp only [waited, phase] at h
    cases h
    exact .ended phase
  | dropped c =>
    simp only [waited, phase] at h
    cases h
    exact .cleared phase
  | sleeping due =>
    simp only [waited, phase] at h
    split at h <;> rename_i over_ <;> cases h
    exact .woke phase over_

/-! The order of what can be seen. -/

def Action.isWake : Action → Bool
  | .wake => true
  | _ => false

def Action.isSet : Action → Bool
  | .set _ => true
  | _ => false

def Action.isSleep : Action → Bool
  | .sleep _ => true
  | _ => false

def Action.isKnock : Action → Bool
  | .knock _ _ => true
  | _ => false

/-- The turn of the loop that is under way. -/
def turn (acts : List Action) : List Action := since Action.isWake acts

/-- How often the supervisor has gone to sleep since it last had a tunnel. -/
def streak (acts : List Action) : Nat := (since Action.isSet acts).countP Action.isSleep

def baseMs (failures : Nat) : Nat := min (backoffInitial * 2 ^ failures) backoffMax

/-- A dial with so many attempts to connect, and before them its knock if there is
to be one. -/
def Dialed (crypto : Knock.Crypto) (addr : SocketAddr) (params : TunnelParams) (n : Nat)
    (acts : List Action) : Prop :=
  match params.knock with
  | none => acts = List.replicate n (.connect addr)
  | some k => ∃ a, acts = sent crypto addr params k a :: List.replicate n (.connect addr)

/-- A turn that is over but for its sleep: its knock was not sent, or no tunnel came
of its attempts, or one was shown and is cleared. -/
def Ended (crypto : Knock.Crypto) (addr : SocketAddr) (params : TunnelParams)
    (acts : List Action) : Prop :=
  (acts = [] ∧ params.knock.isSome) ∨
    ∃ n begun, 0 < n ∧ n ≤ attempts params ∧ Dialed crypto addr params n begun ∧
      (acts = begun ∨ ∃ control, acts = begun ++ [.set control, .clear])

/-- What a supervisor may do after what it has done. -/
def Allowed (crypto : Knock.Crypto) (addr : SocketAddr) (params : TunnelParams)
    (before : List Action) : Action → Prop
  | .knock target packet => turn before = [] ∧
      ∃ k a, params.knock = some k ∧ Action.knock target packet = sent crypto addr params k a
  | .connect target =>
    target = addr ∧ ∃ n, n < attempts params ∧ Dialed crypto addr params n (turn before)
  | .set _ => ∃ n, 0 < n ∧ n ≤ attempts params ∧ Dialed crypto addr params n (turn before)
  | .clear => ∃ n begun control, 0 < n ∧ n ≤ attempts params ∧
      Dialed crypto addr params n begun ∧ turn before = begun ++ [.set control]
  | .sleep ms => Ended crypto addr params (turn before) ∧
      baseMs (streak before) ≤ ms ∧ ms < baseMs (streak before) + 500
  | .wake => ∃ earlier ms, before = earlier ++ [.sleep ms]

/-- Where the turn stands, by the phase. -/
def Placed (crypto : Knock.Crypto) (addr : SocketAddr) (params : TunnelParams) (now : Nat)
    (acts : List Action) : Phase → Prop
  | .knocking => turn acts = [] ∧ params.knock.isSome
  | .connecting i => i < attempts params ∧ Dialed crypto addr params i (turn acts)
  | .retrying i due => i + 1 < attempts params ∧ Dialed crypto addr params (i + 1) (turn acts) ∧
      due ≤ now + knockRetryDelay
  | .shaking | .connected _ =>
    ∃ n, 0 < n ∧ n ≤ attempts params ∧ Dialed crypto addr params n (turn acts)
  | .driving control | .dropped control => ∃ n begun, 0 < n ∧ n ≤ attempts params ∧
      Dialed crypto addr params n begun ∧ turn acts = begun ++ [.set control]
  | .sleeping due => (∃ earlier ms, acts = earlier ++ [.sleep ms]) ∧ due < now + backoffMax + 500

/-- The backoff is doubled after the sleep that it made. -/
def Backed (backoff : Nat) (acts : List Action) : Phase → Prop
  | .sleeping _ => ∃ n, streak acts = n + 1 ∧ backoff = baseMs n
  | _ => backoff = baseMs (streak acts)

structure Follows (crypto : Knock.Crypto) (addr : SocketAddr) (params : TunnelParams)
    (v : Supervisor) (acts : List Action) : Prop where
  conforms : Conforms (Allowed crypto addr params) acts
  placed : Placed crypto addr params v.now acts v.phase
  backed : Backed v.backoff acts v.phase

theorem turn_wake (acts : List Action) : turn (acts ++ [.wake]) = [] := since_mark rfl

theorem turn_snoc {acts : List Action} {a : Action} (sleeps : a.isWake = false) :
    turn (acts ++ [a]) = turn acts ++ [a] := since_other sleeps

theorem streak_set (acts : List Action) (c : MuxControl) : streak (acts ++ [.set c]) = 0 := by
  rw [streak, since_mark rfl]
  rfl

theorem streak_snoc {acts : List Action} {a : Action} (other : a.isSet = false) :
    streak (acts ++ [a]) = streak acts + if a.isSleep then 1 else 0 := by
  rw [streak, since_other other, List.countP_append, ← streak, List.countP_singleton]

theorem Dialed.connect {n : Nat} {acts : List Action} (h : Dialed crypto addr params n acts) :
    Dialed crypto addr params (n + 1) (acts ++ [.connect addr]) := by
  unfold Dialed at h ⊢
  split at h
  · rename_i none
    rw [h, List.replicate_succ']
  · obtain ⟨a, rfl⟩ := h
    exact ⟨a, by rw [List.replicate_succ', List.cons_append]⟩

theorem dial_cases (params : TunnelParams) :
    dial params = .knocking ∨ dial params = .connecting 0 := by
  unfold dial
  split
  · exact .inl rfl
  · exact .inr rfl

theorem attempts_pos (params : TunnelParams) : 0 < attempts params := by
  unfold attempts
  split <;> decide

theorem dial_placed {now : Nat} {acts : List Action} (fresh : turn acts = []) :
    Placed crypto addr params now acts (dial params) := by
  unfold dial
  split <;> rename_i knock
  · exact ⟨fresh, knock⟩
  · have none : params.knock = none := by simpa using knock
    refine ⟨?_, ?_⟩
    · simp [attempts, none]
    · simp [Dialed, none, fresh]

theorem dial_backed {backoff : Nat} {acts : List Action} (same : backoff = baseMs (streak acts)) :
    Backed backoff acts (dial params) := by
  unfold dial
  split <;> exact same

theorem new_follows (crypto : Knock.Crypto) (addr : SocketAddr) (params : TunnelParams) :
    Follows crypto addr params (new params) [] :=
  ⟨conforms_nil, dial_placed rfl, dial_backed rfl⟩

theorem baseMs_le (n : Nat) : baseMs n ≤ backoffMax := min_le_right _ _

theorem baseMs_double (n : Nat) : min (baseMs n * 2) backoffMax = baseMs (n + 1) := by
  unfold baseMs
  rw [pow_succ, ← Nat.mul_assoc]
  simp only [backoffMax]
  omega

theorem backoffJitter_lt (random : UInt16) : backoffJitter random < 500 := Nat.mod_lt _ (by decide)

/-- A turn that ends goes to sleep, once. -/
theorem asleep_follows {v : Supervisor} {acts : List Action} {a : Answer}
    (conforms : Conforms (Allowed crypto addr params) acts)
    (ended : Ended crypto addr params (turn acts)) (backed : v.backoff = baseMs (streak acts)) :
    Follows crypto addr params (v.asleep a) (acts ++ [.sleep (v.pauseMs a)]) where
  conforms := by
    have jitter := backoffJitter_lt a.random
    refine conforms.snoc ⟨ended, ?_, ?_⟩ <;>
    · rw [pauseMs, backed]
      omega
  placed := by
    refine ⟨⟨acts, _, rfl⟩, ?_⟩
    have jitter := backoffJitter_lt a.random
    have bound := baseMs_le (streak acts)
    simp only [asleep, pauseMs, backed]
    omega
  backed := ⟨streak acts, by rw [streak_snoc rfl]; rfl, backed⟩

/-- The end of a wait keeps to the order. -/
theorem waits_follows {v v' : Supervisor} {a : Answer} {acts new : List Action}
    (h : Follows crypto addr params v acts) (waits : Waits crypto addr params v a new v') :
    Follows crypto addr params v' (acts ++ new) := by
  obtain ⟨conforms, placed, backed⟩ := h
  cases waits with
  | @knocked k phase knock ok =>
    rw [phase] at placed backed
    have dialed : Dialed crypto addr params 0 (turn (acts ++ [sent crypto addr params k a])) := by
      rw [turn_snoc rfl, placed.1, Dialed, knock]
      exact ⟨a, rfl⟩
    exact ⟨conforms.snoc ⟨placed.1, k, a, knock, rfl⟩, ⟨attempts_pos params, dialed⟩,
      backed.trans (by rw [streak_snoc rfl]; rfl)⟩
  | unsent phase failed =>
    rw [phase] at placed backed
    exact asleep_follows conforms (.inl placed) backed
  | @reached i phase ok =>
    rw [phase] at placed backed
    have dialed := placed.2.connect
    rw [← turn_snoc rfl] at dialed
    exact ⟨conforms.snoc ⟨rfl, i, placed⟩, ⟨i + 1, by omega, placed.1, dialed⟩,
      backed.trans (by rw [streak_snoc rfl]; rfl)⟩
  | @retries i e phase failed more =>
    rw [phase] at placed backed
    have dialed := placed.2.connect
    rw [← turn_snoc rfl] at dialed
    exact ⟨conforms.snoc ⟨rfl, i, placed⟩, ⟨more, dialed, le_rfl⟩,
      backed.trans (by rw [streak_snoc rfl]; rfl)⟩
  | @unreachable i e phase failed last =>
    rw [phase] at placed backed
    have dialed := placed.2.connect
    rw [← turn_snoc rfl] at dialed
    have tried : Allowed crypto addr params acts (.connect addr) := ⟨rfl, i, placed⟩
    have ended : Ended crypto addr params (turn (acts ++ [.connect addr])) :=
      .inr ⟨i + 1, _, Nat.succ_pos i, placed.1, dialed, .inl rfl⟩
    have slept := asleep_follows (v := v) (a := a) (conforms.snoc tried) ended
      (backed.trans (by rw [streak_snoc rfl]; rfl))
    rwa [List.append_assoc] at slept
  | again phase over_ =>
    rw [phase] at placed backed
    rw [List.append_nil]
    exact ⟨conforms, ⟨placed.1, placed.2.1⟩, backed⟩
  | shook phase ok =>
    rw [phase] at placed backed
    rw [List.append_nil]
    exact ⟨conforms, placed, backed⟩
  | refused phase failed =>
    rw [phase] at placed backed
    obtain ⟨n, pos, most, dialed⟩ := placed
    exact asleep_follows conforms (.inr ⟨n, _, pos, most, dialed, .inl rfl⟩) backed
  | @set c phase =>
    rw [phase] at placed
    obtain ⟨n, pos, most, dialed⟩ := placed
    refine ⟨conforms.snoc ⟨n, pos, most, dialed⟩, ⟨n, turn acts, pos, most, dialed, turn_snoc rfl⟩, ?_⟩
    change backoffInitial = _
    rw [streak_set]
    rfl
  | ended phase =>
    rw [phase] at placed backed
    rw [List.append_nil]
    exact ⟨conforms, placed, backed⟩
  | @cleared c phase =>
    rw [phase] at placed backed
    obtain ⟨n, begun, pos, most, dialed, whole⟩ := placed
    have ended : Ended crypto addr params (turn (acts ++ [.clear])) := by
      refine .inr ⟨n, begun, pos, most, dialed, .inr ⟨c, ?_⟩⟩
      rw [turn_snoc rfl, whole, List.append_assoc]
      rfl
    have shown : Allowed crypto addr params acts .clear := ⟨n, begun, c, pos, most, dialed, whole⟩
    have slept := asleep_follows (v := v) (a := a) (conforms.snoc shown) ended
      (backed.trans (by rw [streak_snoc rfl]; rfl))
    rwa [List.append_assoc] at slept
  | woke phase over_ =>
    rw [phase] at placed backed
    obtain ⟨n, slept, doubled⟩ := backed
    have same : min (v.backoff * 2) backoffMax = baseMs (streak (acts ++ [.wake])) := by
      rw [doubled, baseMs_double, streak_snoc rfl, slept]
      rfl
    exact ⟨conforms.snoc placed.1, dial_placed (turn_wake acts), dial_backed same⟩

theorem placed_later {now later : Nat} {acts : List Action} {phase : Phase}
    (h : Placed crypto addr params now acts phase) (ordered : now ≤ later) :
    Placed crypto addr params later acts phase := by
  cases phase with
  | retrying i due => exact ⟨h.1, h.2.1, by have := h.2.2; omega⟩
  | sleeping due => exact ⟨h.1, by have := h.2; omega⟩
  | knocking | connecting i | shaking | connected c | driving c | dropped c => exact h

theorem follows_step {v v' : Supervisor} {e : Event} {acts new : List Action}
    (h : Follows crypto addr params v acts) (stepped : step crypto addr params v e = some (new, v')) :
    Follows crypto addr params v' (acts ++ new) := by
  cases e with
  | elapse ms =>
    cases stepped
    rw [List.append_nil]
    exact ⟨h.conforms, placed_later h.placed (Nat.le_add_right _ _), h.backed⟩
  | wait a => exact waits_follows h (waited_spec stepped)

theorem actions_snoc (tr : Trace) (e : Event × List Action) :
    actions (tr ++ [e]) = actions tr ++ e.2 := by
  simp [actions]

theorem run_follows {tr : Trace} {v : Supervisor}
    (run : Run (step crypto addr params) (new params) tr v) :
    Follows crypto addr params v (actions tr) := by
  induction run with
  | nil => exact new_follows crypto addr params
  | snoc left stepped ih =>
    rw [actions_snoc]
    exact follows_step ih stepped

theorem baseMs_ge (n : Nat) : backoffInitial ≤ baseMs n :=
  le_min (Nat.le_mul_of_pos_right _ (Nat.two_pow_pos n)) (by decide)

theorem Follows.backoff_bounds {v : Supervisor} {acts : List Action}
    (h : Follows crypto addr params v acts) : backoffInitial ≤ v.backoff ∧ v.backoff ≤ backoffMax := by
  have backed := h.backed
  obtain ⟨n, same⟩ : ∃ n, v.backoff = baseMs n := by
    cases phase : v.phase <;> rw [phase] at backed
    case sleeping due =>
      obtain ⟨n, -, same⟩ := backed
      exact ⟨n, same⟩
    all_goals exact ⟨_, backed⟩
  rw [same]
  exact ⟨baseMs_ge n, baseMs_le n⟩

/-- Whatever becomes of its waits, a supervisor keeps to the order: a knock first if
there is to be one, then so many attempts to connect, at most, then the tunnel, which
it clears when it drops, and one sleep, which is twice as long as the one before
until it is the longest. -/
theorem supervisor_conforms (crypto : Knock.Crypto) (addr : SocketAddr) (params : TunnelParams)
    (tr : Trace) (v : Supervisor) (run : Run (step crypto addr params) (new params) tr v) :
    Conforms (Allowed crypto addr params) (actions tr) ∧
      (∀ due, v.phase = .sleeping due → due < v.now + backoffMax + 500) ∧
      (∀ attempt due, v.phase = .retrying attempt due → due ≤ v.now + knockRetryDelay) ∧
      backoffInitial ≤ v.backoff ∧ v.backoff ≤ backoffMax := by
  have follows := run_follows run
  have placed := follows.placed
  refine ⟨follows.conforms, ?_, ?_, follows.backoff_bounds⟩
  · intro due phase
    rw [phase] at placed
    exact placed.2
  · intro attempt due phase
    rw [phase] at placed
    exact placed.2.2

/-! How often a supervisor knocks. -/

/-- The moment before which nothing is dialed again. -/
def notBefore (v : Supervisor) : Nat :=
  match v.phase with
  | .sleeping due => max due v.now
  | _ => v.now

def Phase.sleeps : Phase → Bool
  | .sleeping _ => true
  | _ => false

def Phase.knocks : Phase → Bool
  | .knocking => true
  | _ => false

/-- Since a moment: every dial but the first was paid for with a sleep, and every
dial knocks once at most. -/
structure Paced (start : Nat) (v : Supervisor) (acts : List Action) : Prop where
  slept : backoffInitial * (acts.countP Action.isWake + v.phase.sleeps.toNat) + start ≤
    v.notBefore + backoffInitial
  woken : backoffInitial * acts.countP Action.isWake + start ≤ v.now + backoffInitial
  knocked : acts.countP Action.isKnock + v.phase.knocks.toNat ≤ acts.countP Action.isWake + 1

theorem asleep_paced {start : Nat} {v : Supervisor} {acts new : List Action} {a : Answer}
    (h : Paced start v acts) (awake : v.phase.sleeps = false)
    (backed : backoffInitial ≤ v.backoff) (wakes : new.countP Action.isWake = 0)
    (knocks : new.countP Action.isKnock = 0) :
    Paced start (v.asleep a) (acts ++ new) := by
  obtain ⟨slept, woken, knocked⟩ := h
  have here : v.notBefore = v.now := by
    unfold notBefore
    split
    · rename_i due phase
      rw [phase] at awake
      cases awake
    · rfl
  have later : (v.asleep a).notBefore = v.now + v.pauseMs a := by
    simp [notBefore, asleep]
  have paused : backoffInitial ≤ v.pauseMs a := backed.trans (Nat.le_add_right _ _)
  constructor
  · rw [List.countP_append, wakes, later]
    rw [here, awake] at slept
    simp only [asleep, Phase.sleeps, Bool.toNat_true, Bool.toNat_false, backoffInitial] at *
    omega
  · rw [List.countP_append, wakes]
    exact woken
  · rw [List.countP_append, List.countP_append, wakes, knocks]
    simp only [asleep, Phase.knocks, Bool.toNat_false]
    omega

/-- Between a sleep and the next nothing is dialed again. -/
theorem Paced.same {start : Nat} {v v' : Supervisor} {acts new : List Action}
    (h : Paced start v acts) (wakes : new.countP Action.isWake = 0)
    (before : v.notBefore ≤ v'.notBefore) (later : v.now ≤ v'.now) (sleeps : v'.phase.sleeps = v.phase.sleeps)
    (knocks : new.countP Action.isKnock + v'.phase.knocks.toNat = v.phase.knocks.toNat) :
    Paced start v' (acts ++ new) := by
  obtain ⟨slept, woken, knocked⟩ := h
  constructor
  · rw [List.countP_append, wakes, sleeps]
    simp only [backoffInitial] at *
    omega
  · rw [List.countP_append, wakes, Nat.add_zero]
    omega
  · rw [List.countP_append, List.countP_append, wakes]
    omega

theorem waits_paced {start : Nat} {v v' : Supervisor} {a : Answer} {acts new : List Action}
    (h : Paced start v acts) (backed : backoffInitial ≤ v.backoff)
    (waits : Waits crypto addr params v a new v') : Paced start v' (acts ++ new) := by
  cases waits with
  | knocked phase knock ok =>
    exact h.same rfl (by simp [notBefore, phase]) le_rfl (by simp [phase, Phase.sleeps])
      (by simp [phase, Phase.knocks, Action.isKnock, sent])
  | unsent phase failed => exact asleep_paced h (by rw [phase]; rfl) backed rfl rfl
  | reached phase ok =>
    exact h.same rfl (by simp [notBefore, phase]) le_rfl (by simp [phase, Phase.sleeps])
      (by simp [phase, Phase.knocks, Action.isKnock])
  | retries phase failed more =>
    exact h.same rfl (by simp [notBefore, phase]) le_rfl (by simp [phase, Phase.sleeps])
      (by simp [phase, Phase.knocks, Action.isKnock])
  | unreachable phase failed last => exact asleep_paced h (by rw [phase]; rfl) backed rfl rfl
  | again phase over_ =>
    exact h.same rfl (by simp [notBefore, phase]) le_rfl (by simp [phase, Phase.sleeps])
      (by simp [phase, Phase.knocks])
  | shook phase ok =>
    exact h.same rfl (by simp [notBefore, phase]) le_rfl (by simp [phase, Phase.sleeps])
      (by simp [phase, Phase.knocks])
  | refused phase failed => exact asleep_paced h (by rw [phase]; rfl) backed rfl rfl
  | set phase =>
    exact h.same rfl (by simp [notBefore, phase]) le_rfl (by simp [phase, Phase.sleeps])
      (by simp [phase, Phase.knocks, Action.isKnock])
  | ended phase =>
    exact h.same rfl (by simp [notBefore, phase]) le_rfl (by simp [phase, Phase.sleeps])
      (by simp [phase, Phase.knocks])
  | cleared phase => exact asleep_paced h (by rw [phase]; rfl) backed rfl rfl
  | @woke due phase over_ =>
    obtain ⟨slept, -, knocked⟩ := h
    have here : v.notBefore = v.now := by simp [notBefore, phase, over_]
    have there : notBefore { v with phase := dial params, backoff := min (v.backoff * 2) backoffMax } =
        v.now := by
      unfold notBefore dial
      split <;> rename_i asleep
      · split at asleep <;> cases asleep
      · rfl
    have awake : (dial params).sleeps = false := by
      unfold dial
      split <;> rfl
    have once : (dial params).knocks.toNat ≤ 1 := Bool.toNat_le _
    constructor
    · rw [List.countP_append, there, awake]
      rw [here, phase] at slept
      exact slept
    · rw [List.countP_append]
      rw [here, phase] at slept
      exact slept
    · rw [List.countP_append, List.countP_append]
      rw [phase] at knocked
      simp only [Phase.knocks, Bool.toNat_false] at knocked
      have wake : [Action.wake].countP Action.isWake = 1 := rfl
      have none : [Action.wake].countP Action.isKnock = 0 := rfl
      dsimp only
      omega

theorem elapse_paced {start ms : Nat} {v : Supervisor} {acts : List Action}
    (h : Paced start v acts) : Paced start { v with now := v.now + ms } (acts ++ []) := by
  refine h.same rfl ?_ (Nat.le_add_right _ _) rfl (Nat.zero_add _)
  cases phase : v.phase <;> simp only [notBefore, phase]
  case sleeping due => omega
  all_goals exact Nat.le_add_right _ _

theorem paced_start (v : Supervisor) : Paced v.now v [] := by
  have ahead : v.now ≤ v.notBefore := by
    unfold notBefore
    split
    · exact le_max_right _ _
    · exact le_rfl
  have once := Bool.toNat_le v.phase.sleeps
  constructor
  · simp only [List.countP_nil, backoffInitial]
    omega
  · simp
  · simp only [List.countP_nil, Nat.zero_add]
    exact Bool.toNat_le _

/-- However badly it goes, a supervisor dials again at most once in a quarter of a
second, and knocks at most once for each dial. -/
theorem knocks_paced (crypto : Knock.Crypto) (addr : SocketAddr) (params : TunnelParams)
    (tr later : Trace) (v v' : Supervisor) (run : Run (step crypto addr params) (new params) tr v)
    (on : Run (step crypto addr params) v later v') :
    backoffInitial * (actions later).countP Action.isWake + v.now ≤ v'.now + backoffInitial ∧
      (actions later).countP Action.isKnock ≤ (actions later).countP Action.isWake + 1 := by
  have paced : Paced v.now v' (actions later) := by
    induction on with
    | nil => exact paced_start v
    | @snoc later m e new m' left stepped ih =>
      have backed := (run_follows (run.trans left)).backoff_bounds.1
      rw [actions_snoc]
      cases e with
      | elapse ms =>
        cases stepped
        exact elapse_paced ih
      | wait a => exact waits_paced ih backed (waited_spec stepped)
  exact ⟨paced.woken, by have := paced.knocked; omega⟩

/-! How soon a supervisor has a tunnel again. -/

/-- How many waits a tunnel is away, at most. -/
def Phase.toGo : Phase → Nat
  | .dropped _ => 6
  | .sleeping _ => 5
  | .knocking | .retrying _ _ => 4
  | .connecting _ => 3
  | .shaking => 2
  | .connected _ => 1
  | .driving _ => 0

/-- The waits end well, and the tunnel stands. -/
def GoesWell (v : Supervisor) : Event → Prop
  | .elapse _ => True
  | .wait a => a.result = .ok () ∧ v.phase.toGo ≠ 0

def Event.isWait : Event → Bool
  | .elapse _ => false
  | .wait _ => true

theorem dial_toGo (params : TunnelParams) : (dial params).toGo < 5 := by
  unfold dial
  split <;> decide

theorem waits_toGo {v v' : Supervisor} {a : Answer} {new : List Action}
    (waits : Waits crypto addr params v a new v') (well : GoesWell v (.wait a)) :
    v'.phase.toGo + 1 ≤ v.phase.toGo := by
  obtain ⟨ok, away⟩ := well
  cases waits with
  | unsent phase failed | unreachable phase failed last | refused phase failed
  | retries phase failed more => cases ok.symm.trans failed
  | ended phase =>
    rw [phase] at away
    exact absurd rfl away
  | woke phase over_ =>
    rw [phase]
    exact dial_toGo params
  | knocked phase knock ok | reached phase ok | again phase over_ | shook phase ok | set phase
  | cleared phase =>
    rw [phase]
    exact le_rfl

/-- A wait can end at once, or it is for a sleep that ends in time. -/
theorem waits_on {v : Supervisor} {acts : List Action} (h : Follows crypto addr params v acts)
    (a : Answer) : (∃ new v', step crypto addr params v (.wait a) = some (new, v')) ∨
      ∃ due, (v.phase = .sleeping due ∨ ∃ i, v.phase = .retrying i due) ∧ v.now < due ∧
        due < v.now + backoffMax + 500 := by
  have placed := h.placed
  cases phase : v.phase with
  | knocking =>
    rw [phase] at placed
    obtain ⟨k, knock⟩ := Option.isSome_iff_exists.mp placed.2
    left
    cases result : a.result with
    | ok => exact ⟨_, _, by simp only [step, waited, phase, knock, result]; rfl⟩
    | error e => exact ⟨_, _, by simp only [step, waited, phase, knock, result]; rfl⟩
  | connecting i => exact .inl ⟨_, _, by simp only [step, waited, phase]; rfl⟩
  | retrying i due =>
    rw [phase] at placed
    by_cases over_ : due ≤ v.now
    · exact .inl ⟨_, _, by simp only [step, waited, phase, over_, if_true]; rfl⟩
    · refine .inr ⟨due, .inr ⟨i, rfl⟩, Nat.not_le.mp over_, ?_⟩
      have bound := placed.2.2
      simp only [knockRetryDelay, backoffMax] at *
      omega
  | shaking =>
    left
    cases result : a.result with
    | ok => exact ⟨_, _, by simp only [step, waited, phase, result]; rfl⟩
    | error e => exact ⟨_, _, by simp only [step, waited, phase, result]; rfl⟩
  | connected c => exact .inl ⟨_, _, by simp only [step, waited, phase]; rfl⟩
  | driving c => exact .inl ⟨_, _, by simp only [step, waited, phase]; rfl⟩
  | dropped c => exact .inl ⟨_, _, by simp only [step, waited, phase]; rfl⟩
  | sleeping due =>
    rw [phase] at placed
    by_cases over_ : due ≤ v.now
    · exact .inl ⟨_, _, by simp only [step, waited, phase, over_, if_true]; rfl⟩
    · exact .inr ⟨due, .inl rfl, Nat.not_le.mp over_, placed.2⟩

/-- A supervisor never gives up. From wherever it has got to, if its waits end well
from then on it has a tunnel after six of them at most, and none of them is for
longer than the longest sleep. -/
theorem recovers (crypto : Knock.Crypto) (addr : SocketAddr) (params : TunnelParams)
    (tr later : Trace) (v v' : Supervisor) (run : Run (step crypto addr params) (new params) tr v)
    (on : Run (step crypto addr params) v later v')
    (well : Always (step crypto addr params) v GoesWell later) :
    later.countP (fun e => e.1.isWait) + v'.phase.toGo ≤ 6 ∧
      (v'.phase.toGo = 0 → ∃ control, v'.phase = .driving control) ∧
      ∀ a, (∃ new v'', step crypto addr params v' (.wait a) = some (new, v'')) ∨
        ∃ due, (v'.phase = .sleeping due ∨ ∃ i, v'.phase = .retrying i due) ∧ v'.now < due ∧
          due < v'.now + backoffMax + 500 := by
  refine ⟨?_, ?_, waits_on (run_follows (run.trans on))⟩
  · have bounded : later.countP (fun e => e.1.isWait) + v'.phase.toGo ≤ v.phase.toGo := by
      induction on with
      | nil => simp
      | @snoc later m e new m' left stepped ih =>
        have before := ih well.prefix
        rw [List.countP_append]
        cases e with
        | elapse ms =>
          cases stepped
          simpa [Event.isWait] using before
        | wait a =>
          have closer := waits_toGo (waited_spec stepped) (well.last left)
          have one : [(Event.wait a, new)].countP (fun e => e.1.isWait) = 1 := rfl
          omega
    refine bounded.trans ?_
    cases v.phase <;> simp [Phase.toGo]
  · intro there
    cases phase : v'.phase
    case driving c => exact ⟨c, rfl⟩
    all_goals
      rw [phase] at there
      cases there

/-! Runs in which the tunnel drops and comes back. -/

instance (v : Supervisor) : (e : Event) → Decidable (GoesWell v e)
  | .elapse _ => .isTrue trivial
  | .wait _ => inferInstanceAs (Decidable (_ ∧ _))

def sampleAddr : SocketAddr := .v4 ⟨192, 0, 2, 1⟩ 8443

def sampleParams : TunnelParams where
  staticSecret := ⟨Vector.replicate 32 5⟩
  serverPubkey := ⟨Vector.replicate 32 1⟩
  psk := ⟨Vector.replicate 32 2⟩
  knock := some ⟨7000⟩
  fwmark := none

def sampleAnswer (result : Except Error Unit) : Answer :=
  ⟨result, 1700000000, Vector.replicate 12 9, 1007, ⟨0⟩⟩

/-- The server is reached at the second attempt, and the tunnel drops. -/
def sampleDropped : List Event :=
  let good := .wait (sampleAnswer (.ok ()))
  let bad := .wait (sampleAnswer (.error .handshake))
  [good, bad, .elapse 150, good, good, good, good, .elapse 40, bad]

/-- Then everything goes well. -/
def sampleRecovers : List Event :=
  let good := .wait (sampleAnswer (.ok ()))
  [good, .elapse 257, good, good, good, good, good]

theorem supervisor_conforms_sample : ∃ tr v,
    Run (step .transparent sampleAddr sampleParams) (new sampleParams) tr v ∧
      tr.map Prod.fst = sampleDropped ++ sampleRecovers ∧
      Conforms (Allowed .transparent sampleAddr sampleParams) (actions tr) ∧
      (actions tr).countP Action.isKnock = 2 := by
  obtain ⟨⟨tr, v⟩, h, knocks⟩ : ∃ result, exec (step .transparent sampleAddr sampleParams)
      (new sampleParams) (sampleDropped ++ sampleRecovers) = some result ∧
        (actions result.1).countP Action.isKnock = 2 := ⟨_, rfl, rfl⟩
  obtain ⟨run, inputs⟩ := exec_run h
  exact ⟨tr, v, run, inputs, (supervisor_conforms _ _ _ tr v run).1, knocks⟩

theorem knocks_paced_sample : ∃ tr later v v',
    Run (step .transparent sampleAddr sampleParams) (new sampleParams) tr v ∧
      Run (step .transparent sampleAddr sampleParams) v later v' ∧
      later.map Prod.fst = sampleRecovers ∧ v'.now = v.now + 257 ∧
      (actions later).countP Action.isWake = 1 ∧
      backoffInitial * (actions later).countP Action.isWake + v.now ≤ v'.now + backoffInitial := by
  obtain ⟨⟨tr, v⟩, h, ⟨later, v'⟩, h', time, wakes⟩ : ∃ result,
      exec (step .transparent sampleAddr sampleParams) (new sampleParams) sampleDropped = some result ∧
      ∃ result', exec (step .transparent sampleAddr sampleParams) result.2 sampleRecovers = some result' ∧
        result'.2.now = result.2.now + 257 ∧ (actions result'.1).countP Action.isWake = 1 :=
    ⟨_, rfl, _, rfl, rfl, rfl⟩
  obtain ⟨run, -⟩ := exec_run h
  obtain ⟨on, inputs⟩ := exec_run h'
  exact ⟨tr, later, v, v', run, on, inputs, time, wakes, (knocks_paced _ _ _ tr later v v' run on).1⟩

theorem recovers_sample : ∃ tr later v v',
    Run (step .transparent sampleAddr sampleParams) (new sampleParams) tr v ∧
      tr.map Prod.fst = sampleDropped ∧
      Run (step .transparent sampleAddr sampleParams) v later v' ∧
      later.map Prod.fst = sampleRecovers ∧ ∃ control, v'.phase = .driving control := by
  obtain ⟨⟨tr, v⟩, h, ⟨later, v'⟩, h', count, well⟩ : ∃ result,
      exec (step .transparent sampleAddr sampleParams) (new sampleParams) sampleDropped = some result ∧
      ∃ result', exec (step .transparent sampleAddr sampleParams) result.2 sampleRecovers = some result' ∧
        result'.1.countP (fun e => e.1.isWait) = 6 ∧
        checkAll (step .transparent sampleAddr sampleParams) GoesWell result.2 sampleRecovers = true :=
    ⟨_, rfl, _, rfl, rfl, by decide +kernel⟩
  obtain ⟨run, inputs⟩ := exec_run h
  obtain ⟨on, inputs'⟩ := exec_run h'
  obtain ⟨bound, there, -⟩ := recovers _ _ _ tr later v v' run on (.of_checkAll well on inputs')
  have waits : later.countP (fun e => e.1.isWait) = 6 := count
  exact ⟨tr, later, v, v', run, inputs, on, inputs', there (by rw [waits] at bound; omega)⟩

end HyperionVpn.Supervisor
