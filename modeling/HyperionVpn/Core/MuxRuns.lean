import HyperionVpn.Core.MuxProofs

/-! Whole runs of the driver: what it has answered and forwarded, what it has
polled when it sleeps, and who is left waiting when it is gone. -/
namespace HyperionVpn.Mux
open Machine

theorem offered_append (a b : Trace) : offered (a ++ b) = offered a ++ offered b :=
  List.filterMap_append

theorem polls_append (a b : Trace) : polls (a ++ b) = polls a ++ polls b :=
  List.filterMap_append

/-! The streams of the peer. -/

/-- The acceptor has been sent the peer's streams, as long as there was one. -/
def Forwards (tr : Trace) (m : Mux) : Prop :=
  m.inbox <+: offered tr ∧ (m.acceptor = true → m.inbox = offered tr)

theorem Forwards.snoc {tr : Trace} {m m' : Mux} {e : Event} {o : Output} (h : Forwards tr m)
    (quiet : offered [(e, o)] = []) (inbox : m'.inbox = m.inbox)
    (acceptor : m'.acceptor = true → m.acceptor = true) : Forwards (tr ++ [(e, o)]) m' := by
  rw [Forwards, offered_append, quiet, List.append_nil, inbox]
  exact ⟨h.1, fun there => h.2 (acceptor there)⟩

theorem forwards_step {tr : Trace} {m m' : Mux} {e : Event} {o : Output} (h : Forwards tr m)
    (stepped : step m e = some (o, m')) : Forwards (tr ++ [(e, o)]) m' := by
  rcases step_spec stepped with step | step
  · cases step with
    | closed => exact h.snoc rfl rfl (by simp)
    | _ => exact h.snoc rfl rfl id
  · cases step with
    | answered _ _ => exact h.snoc rfl (answer_inbox ..) (by simp)
    | @forwarded progress stream _ =>
      have more : offered (tr ++ [(e, .inbound (.ready (some (.ok stream))))]) =
          offered tr ++ [stream] := offered_append tr _
      rw [Forwards, more]
      dsimp only
      split <;> rename_i there
      · rw [h.2 there]
        exact ⟨List.prefix_rfl, fun _ => rfl⟩
      · exact ⟨h.1.trans (List.prefix_append _ _), fun there' => absurd there' there⟩
    | _ => exact h.snoc rfl rfl id

/-! Sleeping. -/

/-- What the driver has polled since the top of its loop; while it has made no
progress, everything that it has polled was pending. -/
def Iterates (tr : Trace) (m : Mux) : Prop :=
  match m.phase with
  | .outbound | .finished _ => True
  | .inbound progress => ∃ earlier a, polls tr = earlier ++ [.outbound a] ∧
      (progress = false → ∀ c, m.pending = some c → a = some (c, .pending))
  | .queue progress => ∃ earlier a b, polls tr = earlier ++ [.outbound a, .inbound b] ∧
      (progress = false → b = .pending ∧ ∀ c, m.pending = some c → a = some (c, .pending))
  | .asleep => ∃ earlier a q,
      polls tr = earlier ++ [.outbound a, .inbound .pending, .queue q] ∧
      (∀ c, m.pending = some c → a = some (c, .pending)) ∧
      (m.pending = none → m.openRx ≠ none → q = some .pending)

/-- The callers do not touch what belongs to the driver. -/
theorem calls_frame {m m' : Mux} {o : Output} (step : Calls m o m') :
    m'.phase = m.phase ∧ m'.pending = m.pending ∧ (m'.openRx = none ↔ m.openRx = none) ∧
      ∀ e, polls [(e, o)] = [] := by
  cases step with
  | queued _ receiver => exact ⟨rfl, rfl, by simp [wake, receiver], fun _ => rfl⟩
  | _ => exact ⟨rfl, rfl, .rfl, fun _ => rfl⟩

theorem iterates_calls {tr : Trace} {m m' : Mux} {e : Event} {o : Output} (h : Iterates tr m)
    (step : Calls m o m') : Iterates (tr ++ [(e, o)]) m' := by
  obtain ⟨phase, pending, receiver, quiet⟩ := calls_frame step
  unfold Iterates at h ⊢
  rw [phase, pending, polls_append, quiet, List.append_nil, ne_eq, receiver]
  exact h

/-- The end of the loop's body: without progress, the last poll of the queue
was pending too, if the driver depends on it. -/
theorem Iterates.settled {tr : Trace} {m m' : Mux} {e : Event} {progress : Bool}
    {q : Option (Poll (Option Nat))} (h : Iterates tr m) (stands : m.phase = .queue progress)
    (pending : m'.pending = m.pending)
    (asked : m.pending = none → m'.openRx ≠ none → q = some .pending) :
    Iterates (tr ++ [(e, .queue q)]) (m'.settle progress) := by
  unfold Iterates at h ⊢
  rw [stands] at h
  obtain ⟨earlier, a, b, same, still⟩ := h
  cases progress with
  | true => trivial
  | false =>
    obtain ⟨rfl, unanswered⟩ := still rfl
    have more : polls (tr ++ [(e, .queue q)]) = polls tr ++ [.queue q] := polls_append tr _
    refine ⟨earlier, a, q, ?_, ?_, ?_⟩
    · rw [more, same]
      simp
    · intro c held
      exact unanswered c (pending.symm.trans held)
    · intro unheld there
      exact asked (pending.symm.trans unheld) there

theorem iterates_drives {tr : Trace} {m m' : Mux} {e : Event} {o : Output} (h : Iterates tr m)
    (step : Drives m o m') : Iterates (tr ++ [(e, o)]) m' := by
  cases step with
  | unheld _ held =>
    refine ⟨polls tr, none, polls_append tr _, fun _ c other => ?_⟩
    cases held.symm.trans other
  | answered _ _ =>
    refine ⟨polls tr, _, polls_append tr _, fun still => ?_⟩
    cases still
  | unanswered _ held =>
    refine ⟨polls tr, _, polls_append tr _, fun _ c other => ?_⟩
    cases held.symm.trans other
    rfl
  | @forwarded progress stream phase =>
    unfold Iterates at h
    rw [phase] at h
    obtain ⟨earlier, a, same, -⟩ := h
    refine ⟨earlier, a, .ready (some (.ok stream)), ?_, fun still => ?_⟩
    · have more : polls (tr ++ [(e, .inbound (.ready (some (.ok stream))))]) =
          polls tr ++ [.inbound (.ready (some (.ok stream)))] := polls_append tr _
      rw [more, same]
      simp
    · cases still
  | failed _ => trivial
  | ended _ => trivial
  | @silent progress phase =>
    unfold Iterates at h
    rw [phase] at h
    obtain ⟨earlier, a, same, unanswered⟩ := h
    refine ⟨earlier, a, .pending, ?_, fun still => ⟨rfl, unanswered still⟩⟩
    have more : polls (tr ++ [(e, .inbound .pending)]) = polls tr ++ [.inbound .pending] :=
      polls_append tr _
    rw [more, same]
    simp
  | spent phase _ _ => exact h.settled phase rfl fun _ _ => rfl
  | received _ _ _ => trivial
  | gone phase _ _ => exact h.settled phase rfl fun _ there => absurd rfl there
  | empty phase _ _ _ => exact h.settled phase rfl fun _ _ => rfl
  | unpolled phase none =>
    refine h.settled phase rfl fun unheld there => ?_
    rcases none with held | gone
    · exact absurd unheld held
    · exact absurd gone there
  | resumed _ => trivial

/-- A sleeping driver that depends on the queue is registered with it while it
is empty, and has been woken otherwise. -/
def Registered (m : Mux) : Prop :=
  m.phase = .asleep → m.pending = none → ∀ rest, m.openRx = some rest →
    m.woken = true ∨ rest = [] ∧ 0 < m.senders ∧ m.registered = true

theorem registered_step {m m' : Mux} {e : Event} {o : Output} (h : Registered m)
    (stepped : step m e = some (o, m')) : Registered m' := by
  rcases step_spec stepped with step | step
  · cases step with
    | queued _ receiver =>
      intro asleep unheld _ _
      left
      rcases h asleep unheld _ receiver with woken | ⟨-, -, registered⟩ <;>
        simp [wake, setCall, *]
    | cloned _ =>
      intro asleep unheld rest receiver
      rcases h asleep unheld rest receiver with woken | ⟨empty, _, registered⟩
      · exact .inl woken
      · exact .inr ⟨empty, Nat.succ_pos _, registered⟩
    | dropped some =>
      intro asleep unheld rest receiver
      rcases h asleep unheld rest receiver with woken | ⟨empty, _, registered⟩
      · exact .inl woken
      · exact .inr ⟨empty, Nat.pos_of_ne_zero some, registered⟩
    | last =>
      intro asleep unheld rest receiver
      left
      rcases h asleep unheld rest receiver with woken | ⟨-, -, registered⟩ <;> simp [wake, *]
    | _ => exact h
  · cases step with
    | spent _ _ _ => exact fun _ _ _ _ => .inl rfl
    | gone _ _ _ =>
      intro _ _ rest receiver
      cases receiver
    | empty _ _ receiver senders =>
      intro _ _ rest receiver'
      cases receiver.symm.trans receiver'
      exact .inr ⟨rfl, senders, rfl⟩
    | unpolled _ none =>
      intro _ unheld rest receiver
      rcases none with held | gone
      · exact absurd unheld held
      · cases gone.symm.trans receiver
    | _ => exact fun asleep => nomatch asleep

/-! The driver over a whole run. -/

/-- The driver answers in queue order, holds at most one request, and hands
each opened stream to the call that it answers and each of the peer's to the
acceptor. It sleeps only on pending sources, is awake for a queue that has
something for it, and leaves nobody waiting when it is gone. -/
structure Faithful (tr : Trace) (m : Mux) : Prop where
  order : (answered tr).map Prod.fst <+: taken tr ∧ taken tr <+: queued tr
  once : (queued tr).Nodup
  held : m.Running → taken tr = (answered tr).map Prod.fst ++ m.pending.toList
  handed : ∀ c r, (c, r) ∈ answered tr → m.calls c = .done (reply r) ∨ m.calls c = .gone
  opened : ∀ c s, m.calls c = .done (.ok s) → (c, .ok s) ∈ answered tr
  forwarded : m.inbox <+: offered tr ∧ (m.acceptor = true → m.inbox = offered tr)
  asleep : m.phase = .asleep → ∃ earlier a q,
    polls tr = earlier ++ [.outbound a, .inbound .pending, .queue q] ∧
    (∀ c, m.pending = some c → a = some (c, .pending)) ∧
    (m.pending = none → m.openRx ≠ none → q = some .pending)
  awake : m.phase = .asleep → m.pending = none → ∀ rest, m.openRx = some rest →
    rest ≠ [] ∨ m.senders = 0 → m.woken = true
  dropped : ¬ m.Running → ∀ c ∈ queued tr, c ∉ (answered tr).map Prod.fst →
    m.calls c = .done (.error stopped) ∨ m.calls c = .gone
  refused : ¬ m.Running → ∀ c m' o, m.calls c = .sending → step m (.send c) = some (o, m') →
    m'.calls c = .done (.error stopped)

theorem run_ledger {start m : Mux} {tr : Trace} (fresh : start = client ∨ start = server)
    (run : Run step start tr m) : Ledger tr m := by
  induction run with
  | nil => rcases fresh with rfl | rfl <;> constructor <;>
      simp [Running, client, server, queue, queued, taken, answered]
  | snoc _ stepped ih =>
    rcases step_spec stepped with step | step
    · exact ledger_calls ih step
    · exact ledger_drives ih step

theorem run_forwards {start m : Mux} {tr : Trace} (fresh : start = client ∨ start = server)
    (run : Run step start tr m) : Forwards tr m := by
  induction run with
  | nil => rcases fresh with rfl | rfl <;> simp [Forwards, client, server, offered]
  | snoc _ stepped ih => exact forwards_step ih stepped

theorem run_iterates {start m : Mux} {tr : Trace} (fresh : start = client ∨ start = server)
    (run : Run step start tr m) : Iterates tr m := by
  induction run with
  | nil => rcases fresh with rfl | rfl <;> trivial
  | snoc _ stepped ih =>
    rcases step_spec stepped with step | step
    · exact iterates_calls ih step
    · exact iterates_drives ih step

theorem run_registered {start m : Mux} {tr : Trace} (fresh : start = client ∨ start = server)
    (run : Run step start tr m) : Registered m := by
  refine run.invariant ?_ registered_step
  rcases fresh with rfl | rfl <;> exact fun asleep => nomatch asleep

theorem Ledger.dropped {tr : Trace} {m : Mux} (h : Ledger tr m) (stop : ¬ m.Running) {c : Nat}
    (entered : c ∈ Mux.queued tr) (unanswered : c ∉ (Mux.answered tr).map Prod.fst) :
    m.calls c = .done (.error stopped) ∨ m.calls c = .gone := by
  obtain ⟨pending, receiver⟩ := h.finished stop
  have place := h.entered c entered
  cases state : m.calls c with
  | idle => exact absurd state place.1
  | sending => exact absurd state place.2
  | waiting =>
    have left := h.waiting c state
    rw [pending, queue, receiver] at left
    exact absurd left List.not_mem_nil
  | done r =>
    rcases h.results c r state with ⟨y, member, -⟩ | rfl
    · exact absurd (List.mem_map_of_mem member) unanswered
    · exact .inl rfl
  | gone => exact .inr rfl

theorem driver_is_faithful (start m : Mux) (tr : Trace) (fresh : start = client ∨ start = server)
    (run : Run step start tr m) : Faithful tr m := by
  have ledger := run_ledger fresh run
  constructor
  · exact ledger.order
  · exact ledger.once
  · exact fun running => (ledger.running running).2
  · exact ledger.replied
  · intro c s done
    rcases ledger.results c _ done with ⟨y, member, same⟩ | same
    · cases y with
      | ok s' =>
        cases same
        exact member
      | error e => cases same
    · cases same
  · exact run_forwards fresh run
  · intro asleep
    have iterates := run_iterates fresh run
    unfold Iterates at iterates
    rw [asleep] at iterates
    exact iterates
  · intro asleep unheld rest receiver available
    rcases run_registered fresh run asleep unheld rest receiver with woken | ⟨empty, senders, -⟩
    · exact woken
    · rcases available with some | none
      · exact absurd empty some
      · omega
  · exact fun stop c entered unanswered => ledger.dropped stop entered unanswered
  · intro stop c m' o sends sent
    have receiver := (ledger.finished stop).2
    simp only [step, send, if_pos sends, receiver, Option.some.injEq, Prod.mk.injEq] at sent
    rw [← sent.2]
    exact Function.update_self ..

/-- Two calls, of which one is answered before the peer closes. -/
def sampleEvents : List Event :=
  [.open 0, .open 1, .send 0, .send 1,
   .poll .pending .pending true, .poll .pending .pending true, .poll .pending .pending true,
   .poll (.ready (.ok ⟨7⟩)) .pending true, .poll .pending .pending true,
   .poll .pending .pending true, .poll .pending .pending true, .poll .pending (.ready none) true]

theorem driver_is_faithful_sample : ∃ tr m, Run step client tr m ∧
    tr.map Prod.fst = sampleEvents ∧ m.calls 0 = .done (.ok ⟨7⟩) ∧
    m.calls 1 = .done (.error stopped) ∧ Faithful tr m := by
  obtain ⟨⟨tr, m⟩, h, first, second⟩ : ∃ result, exec step client sampleEvents = some result ∧
      result.2.calls 0 = .done (.ok ⟨7⟩) ∧ result.2.calls 1 = .done (.error stopped) :=
    ⟨_, rfl, rfl, rfl⟩
  obtain ⟨run, inputs⟩ := exec_run h
  exact ⟨tr, m, run, inputs, first, second, driver_is_faithful client m tr (.inl rfl) run⟩

end HyperionVpn.Mux
