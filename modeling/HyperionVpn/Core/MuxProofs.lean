import HyperionVpn.Core.Mux
import HyperionVpn.Lib.Machine

/-! The driver answers the requests in queue order, each at most once, and does
not sleep while a source that it depends on has something for it. -/
namespace HyperionVpn.Mux
open Machine

abbrev Trace := List (Event × Output)

/-- The calls in the order in which they entered the queue. -/
def queued (tr : Trace) : List Nat :=
  tr.filterMap fun e => match e.2 with | .queued call => some call | _ => none

/-- The calls in the order in which the driver took them from the queue. -/
def taken (tr : Trace) : List Nat :=
  tr.filterMap fun e => match e.2 with | .queue (some (.ready call)) => call | _ => none

/-- The calls that were answered, each with the stream that yamux opened. -/
def answered (tr : Trace) : List (Nat × Except String MuxStream) :=
  tr.filterMap fun e =>
    match e.2 with
    | .outbound (some (call, .ready result)) => some (call, result)
    | _ => none

/-- The streams of the peer. -/
def offered (tr : Trace) : List MuxStream :=
  tr.filterMap fun e => match e.2 with | .inbound (.ready (some (.ok s))) => some s | _ => none

/-- What the driver polled, part by part of its loop. -/
def polls (tr : Trace) : List Output :=
  tr.filterMap fun e =>
    match e.2 with
    | .outbound p => some (.outbound p)
    | .inbound p => some (.inbound p)
    | .queue p => some (.queue p)
    | _ => none

/-- The requests in the queue. -/
def queue (m : Mux) : List Nat := m.openRx.getD []

def Running (m : Mux) : Prop := ∀ result, m.phase ≠ .finished result

/-! The steps. -/

@[simp] theorem answer_openRx (m : Mux) (call : Nat) (r : Except Error MuxStream) :
    (m.answer call r).openRx = m.openRx := by
  unfold answer
  split <;> rfl

@[simp] theorem answer_inbox (m : Mux) (call : Nat) (r : Except Error MuxStream) :
    (m.answer call r).inbox = m.inbox := by
  unfold answer
  split <;> rfl

@[simp] theorem answer_acceptor (m : Mux) (call : Nat) (r : Except Error MuxStream) :
    (m.answer call r).acceptor = m.acceptor := by
  unfold answer
  split <;> rfl

theorem answer_calls (m : Mux) (call other : Nat) (r : Except Error MuxStream) :
    (m.answer call r).calls other =
      if other = call ∧ m.calls call = .waiting then .done r else m.calls other := by
  unfold answer setCall
  by_cases waits : m.calls call = .waiting
  · simp [waits, Function.update_apply]
  · simp [waits]

/-- The steps of the callers and of the acceptor. -/
inductive Calls (m : Mux) : Output → Mux → Prop where
  | idle : Calls m .quiet m
  | opened {call} : m.calls call = .idle → Calls m .quiet (m.setCall call .sending)
  | refused {call} : m.calls call = .sending → m.openRx = none →
      Calls m .quiet (m.setCall call (.done (.error stopped)))
  | queued {call rest} : m.calls call = .sending → m.openRx = some rest →
      Calls m (.queued call) { m.setCall call .waiting with openRx := some (rest ++ [call]) }.wake
  | abandoned {call} : m.calls call = .sending ∨ m.calls call = .waiting →
      Calls m .quiet (m.setCall call .gone)
  | cloned : 0 < m.senders → Calls m .quiet { m with senders := m.senders + 1 }
  | dropped {n} : n ≠ 0 → Calls m .quiet { m with senders := n }
  | last : Calls m .quiet { m with senders := 0 }.wake
  | closed : Calls m .quiet { m with acceptor := false }

/-- The steps of the driver. -/
inductive Drives (m : Mux) : Output → Mux → Prop where
  | unheld : m.phase = .outbound → m.pending = none →
      Drives m (.outbound none) { m with phase := .inbound false }
  | answered {call result} : m.phase = .outbound → m.pending = some call →
      Drives m (.outbound (some (call, .ready result)))
        { m.answer call (reply result) with phase := .inbound true, pending := none }
  | unanswered {call} : m.phase = .outbound → m.pending = some call →
      Drives m (.outbound (some (call, .pending))) { m with phase := .inbound false }
  | forwarded {progress stream} : m.phase = .inbound progress →
      Drives m (.inbound (.ready (some (.ok stream)))) { m with
        phase := .queue true
        inbox := if m.acceptor then m.inbox ++ [stream] else m.inbox }
  | failed {progress e} : m.phase = .inbound progress →
      Drives m (.inbound (.ready (some (.error e))))
        (m.finish (.error (.protocol ("yamux: " ++ e))))
  | ended {progress} : m.phase = .inbound progress →
      Drives m (.inbound (.ready none)) (m.finish (.ok ()))
  | silent {progress} : m.phase = .inbound progress →
      Drives m (.inbound .pending) { m with phase := .queue progress }
  | spent {progress rest} : m.phase = .queue progress → m.pending = none → m.openRx = some rest →
      Drives m (.queue (some .pending)) ({ m with woken := true }.settle progress)
  | received {progress call rest} : m.phase = .queue progress → m.pending = none →
      m.openRx = some (call :: rest) →
      Drives m (.queue (some (.ready (some call))))
        ({ m with pending := some call, openRx := some rest }.settle true)
  | gone {progress} : m.phase = .queue progress → m.pending = none → m.openRx = some [] →
      Drives m (.queue (some (.ready none))) ({ m with openRx := none }.settle progress)
  | empty {progress} : m.phase = .queue progress → m.pending = none → m.openRx = some [] →
      0 < m.senders →
      Drives m (.queue (some .pending)) ({ m with registered := true }.settle progress)
  | unpolled {progress} : m.phase = .queue progress → m.pending ≠ none ∨ m.openRx = none →
      Drives m (.queue none) (m.settle progress)
  | resumed : m.phase = .asleep → Drives m .resumed { m with phase := .outbound, woken := false }

theorem drive_spec (m : Mux) (outbound : Poll (Except String MuxStream))
    (inbound : Poll (Option (Except String MuxStream))) (budget : Bool) :
    Drives m (m.drive outbound inbound budget).1 (m.drive outbound inbound budget).2 ∨
      m.drive outbound inbound budget = (.quiet, m) := by
  unfold drive
  split <;> rename_i phase
  · left
    unfold pollOutbound
    split
    · exact .unheld phase ‹_›
    · rename_i held
      split
      · exact .answered phase held
      · exact .unanswered phase held
  · left
    unfold pollInbound
    split
    · exact .forwarded phase
    · exact .failed phase
    · exact .ended phase
    · exact .silent phase
  · left
    unfold pollQueue
    split
    · rename_i held receiver
      split
      · exact .spent phase held receiver
      · split
        · exact .received phase held receiver
        · split
          · exact .gone phase held receiver
          · rename_i senders
            exact .empty phase held receiver (Nat.pos_of_ne_zero senders)
    · rename_i other
      refine .unpolled phase ?_
      by_contra both
      simp only [not_or, not_not] at both
      obtain ⟨rest, receiver⟩ := Option.ne_none_iff_exists'.mp both.2
      exact other rest both.1 receiver
  · exact .inl (.resumed phase)
  · exact .inr rfl

theorem send_spec (m : Mux) (call : Nat) : Calls m (m.send call).1 (m.send call).2 := by
  unfold send
  split
  · rename_i sends
    split
    · exact .refused sends ‹_›
    · rename_i receiver
      split
      · exact .queued sends receiver
      · exact .idle
  · exact .idle

theorem step_spec {m m' : Mux} {e : Event} {o : Output} (h : step m e = some (o, m')) :
    Calls m o m' ∨ Drives m o m' := by
  cases e with
  | «open» call =>
    simp only [step] at h
    split at h <;> rename_i may <;> cases h
    · exact .inl (.opened may.1)
    · exact .inl .idle
  | send call =>
    have sent := send_spec m call
    rw [Option.some.inj h] at sent
    exact .inl sent
  | abandon call =>
    simp only [step] at h
    split at h <;> rename_i alive <;> cases h
    · exact .inl (.abandoned alive)
    · exact .inl .idle
  | clone =>
    cases h
    left
    split <;> rename_i alive
    · exact .cloned alive
    · exact .idle
  | drop =>
    cases h
    left
    split <;> rename_i rest
    · dsimp only at rest
      rw [rest]
      exact .last
    · exact .dropped rest
  | close =>
    cases h
    exact .inl .closed
  | poll outbound inbound budget =>
    have driven := drive_spec m outbound inbound budget
    rw [Option.some.inj h] at driven
    rcases driven with driven | same
    · exact .inr driven
    · cases same
      exact .inl .idle

/-! The requests. -/

theorem queued_append (a b : Trace) : queued (a ++ b) = queued a ++ queued b :=
  List.filterMap_append

theorem taken_append (a b : Trace) : taken (a ++ b) = taken a ++ taken b :=
  List.filterMap_append

theorem answered_append (a b : Trace) : answered (a ++ b) = answered a ++ answered b :=
  List.filterMap_append

/-! A step that concerns no request adds nothing to them. -/

theorem queued_quiet (tr : Trace) {step : Event × Output} (quiet : queued [step] = []) :
    queued (tr ++ [step]) = queued tr := by
  rw [queued_append, quiet, List.append_nil]

theorem taken_quiet (tr : Trace) {step : Event × Output} (quiet : taken [step] = []) :
    taken (tr ++ [step]) = taken tr := by
  rw [taken_append, quiet, List.append_nil]

theorem answered_quiet (tr : Trace) {step : Event × Output} (quiet : answered [step] = []) :
    answered (tr ++ [step]) = answered tr := by
  rw [answered_append, quiet, List.append_nil]

/-- Where the requests are: those in the queue, the held one and the answered
ones make up all that entered the queue, in this order, until the driver
finishes, and only calls in the queue or held still wait. -/
structure Ledger (tr : Trace) (m : Mux) : Prop where
  running : m.Running → queued tr = taken tr ++ m.queue ∧
    taken tr = (answered tr).map Prod.fst ++ m.pending.toList
  finished : ¬ m.Running → m.pending = none ∧ m.openRx = none
  order : (answered tr).map Prod.fst <+: taken tr ∧ taken tr <+: queued tr
  once : (queued tr).Nodup
  entered : ∀ c ∈ queued tr, m.calls c ≠ .idle ∧ m.calls c ≠ .sending
  waiting : ∀ c, m.calls c = .waiting → c ∈ m.pending.toList ++ m.queue
  unresolved : ∀ c ∈ m.pending.toList ++ m.queue, m.calls c = .waiting ∨ m.calls c = .gone
  replied : ∀ c r, (c, r) ∈ answered tr → m.calls c = .done (reply r) ∨ m.calls c = .gone
  results : ∀ c r, m.calls c = .done r →
    (∃ y, (c, y) ∈ answered tr ∧ r = reply y) ∨ r = .error stopped

theorem Ledger.answered_queued {tr : Trace} {m : Mux} (h : Ledger tr m) {c : Nat}
    {r : Except String MuxStream} (member : (c, r) ∈ answered tr) : c ∈ queued tr :=
  h.order.2.subset (h.order.1.subset (List.mem_map_of_mem member))

/-- A call that is not waiting, or gives up, changes nothing but its own state. -/
theorem Ledger.setCall {tr : Trace} {m : Mux} {call : Nat} {phase : Call} (h : Ledger tr m)
    (before : m.calls call = .idle ∧ phase = .sending ∨
      m.calls call = .sending ∧ phase = .done (.error stopped) ∨ phase = .gone) :
    Ledger tr (m.setCall call phase) where
  running := h.running
  finished := h.finished
  order := h.order
  once := h.once
  entered := by
    intro c member
    have old := h.entered c member
    dsimp only [Mux.setCall]
    rw [Function.update_apply]
    split <;> rename_i same
    · subst same
      rcases before with ⟨idle, -⟩ | ⟨sending, -⟩ | rfl
      · exact absurd idle old.1
      · exact absurd sending old.2
      · simp
    · exact old
  waiting := by
    intro c waits
    dsimp only [Mux.setCall] at waits
    rw [Function.update_apply] at waits
    split at waits
    · rcases before with ⟨-, rfl⟩ | ⟨-, rfl⟩ | rfl <;> contradiction
    · exact h.waiting c waits
  unresolved := by
    intro c member
    have old := h.unresolved c member
    dsimp only [Mux.setCall]
    rw [Function.update_apply]
    split <;> rename_i same
    · subst same
      rcases before with ⟨idle, -⟩ | ⟨sending, -⟩ | rfl
      · simp [idle] at old
      · simp [sending] at old
      · exact .inr rfl
    · exact old
  replied := by
    intro c r member
    have old := h.replied c r member
    have queued := h.entered c (h.answered_queued member)
    dsimp only [Mux.setCall]
    rw [Function.update_apply]
    split <;> rename_i same
    · subst same
      rcases before with ⟨idle, -⟩ | ⟨sending, -⟩ | rfl
      · exact absurd idle queued.1
      · exact absurd sending queued.2
      · exact .inr rfl
    · exact old
  results := by
    intro c r done
    dsimp only [Mux.setCall] at done
    rw [Function.update_apply] at done
    split at done
    · rcases before with ⟨-, rfl⟩ | ⟨-, rfl⟩ | rfl
      · contradiction
      · cases done
        exact .inr rfl
      · contradiction
    · exact h.results c r done

/-- What the queue, the held request and the calls are is all that counts. -/
theorem Ledger.congr {tr : Trace} {m m' : Mux} (h : Ledger tr m)
    (running : m'.Running ↔ m.Running) (pending : m'.pending = m.pending)
    (openRx : m'.queue = m.queue) (receiver : m.openRx = none → m'.openRx = none)
    (calls : m'.calls = m.calls) : Ledger tr m' where
  running := by
    intro run
    rw [pending, openRx]
    exact h.running (running.mp run)
  finished := by
    intro stop
    obtain ⟨none, gone⟩ := h.finished (fun run => stop (running.mpr run))
    exact ⟨pending.trans none, receiver gone⟩
  order := h.order
  once := h.once
  entered := by
    rw [calls]
    exact h.entered
  waiting := by
    rw [calls, pending, openRx]
    exact h.waiting
  unresolved := by
    rw [calls, pending, openRx]
    exact h.unresolved
  replied := by
    rw [calls]
    exact h.replied
  results := by
    rw [calls]
    exact h.results

theorem Ledger.queued {tr : Trace} {m : Mux} {e : Event} {call : Nat} {rest : List Nat}
    (h : Ledger tr m) (sends : m.calls call = .sending) (receiver : m.openRx = some rest) :
    Ledger (tr ++ [(e, .queued call)])
      { m.setCall call .waiting with openRx := some (rest ++ [call]) }.wake := by
  have run : m.Running := by
    by_contra stop
    have gone := (h.finished stop).2
    rw [receiver] at gone
    contradiction
  have fresh : call ∉ Mux.queued tr := fun member => (h.entered call member).2 sends
  obtain ⟨all, some⟩ := h.running run
  have queue : m.queue = rest := by rw [queue, receiver, Option.getD_some]
  rw [queue] at all
  have more : Mux.queued (tr ++ [(e, .queued call)]) = Mux.queued tr ++ [call] :=
    queued_append tr _
  have same : taken (tr ++ [(e, .queued call)]) = taken tr :=
    taken_quiet tr rfl
  have same' : answered (tr ++ [(e, .queued call)]) = answered tr :=
    answered_quiet tr rfl
  constructor
  · intro _
    rw [more, same, same']
    refine ⟨?_, some⟩
    rw [all, List.append_assoc]
    rfl
  · intro stop
    exact absurd run stop
  · rw [more, same, same']
    exact ⟨h.order.1, h.order.2.trans (List.prefix_append _ _)⟩
  · rw [more]
    exact List.nodup_append.mpr ⟨h.once, List.nodup_singleton _, by
      rintro c member _ (_ | ⟨_, ⟨⟩⟩) rfl
      exact fresh member⟩
  · intro c member
    rw [more, List.mem_append, List.mem_singleton] at member
    dsimp only [wake, Mux.setCall]
    rw [Function.update_apply]
    split
    · simp
    · rename_i other
      exact h.entered c (member.resolve_right other)
  · intro c waits
    dsimp only [wake, Mux.setCall] at waits
    rw [Function.update_apply] at waits
    have place : c ∈ m.pending.toList ++ (rest ++ [call]) := by
      split at waits <;> rename_i same
      · simp [same]
      · have old := h.waiting c waits
        rw [queue] at old
        simp only [List.mem_append] at old ⊢
        exact old.imp_right .inl
    exact place
  · intro c member
    have place : c ∈ m.pending.toList ++ (rest ++ [call]) := member
    dsimp only [wake, Mux.setCall]
    rw [Function.update_apply]
    split
    · exact .inl rfl
    · rename_i other
      refine h.unresolved c ?_
      rw [queue]
      simp only [List.mem_append, List.mem_singleton] at place ⊢
      exact place.imp_right fun inside => inside.resolve_right other
  · intro c r member
    rw [same'] at member
    have old := h.replied c r member
    dsimp only [wake, Mux.setCall]
    rw [Function.update_of_ne]
    · exact old
    · rintro rfl
      exact fresh (h.answered_queued member)
  · intro c r done
    rw [same']
    dsimp only [wake, Mux.setCall] at done
    rw [Function.update_apply] at done
    split at done
    · contradiction
    · exact h.results c r done

/-- A step whose output concerns no request. -/
theorem Ledger.snoc {tr : Trace} {m : Mux} {e : Event} {o : Output} (h : Ledger tr m)
    (quiet : Mux.queued [(e, o)] = []) (untaken : taken [(e, o)] = [])
    (unanswered : answered [(e, o)] = []) : Ledger (tr ++ [(e, o)]) m := by
  have q := queued_quiet tr quiet
  have t := taken_quiet tr untaken
  have a := answered_quiet tr unanswered
  refine ⟨?_, h.finished, ?_, ?_, ?_, h.waiting, h.unresolved, ?_, ?_⟩
  · rw [q, t, a]
    exact h.running
  · rw [q, t, a]
    exact h.order
  · rw [q]
    exact h.once
  · rw [q]
    exact h.entered
  · rw [a]
    exact h.replied
  · rw [a]
    exact h.results

theorem ledger_calls {tr : Trace} {m m' : Mux} {e : Event} {o : Output} (h : Ledger tr m)
    (step : Calls m o m') : Ledger (tr ++ [(e, o)]) m' := by
  cases step with
  | idle => exact h.snoc rfl rfl rfl
  | opened idle => exact (h.setCall (.inl ⟨idle, rfl⟩)).snoc rfl rfl rfl
  | refused sends _ => exact (h.setCall (.inr (.inl ⟨sends, rfl⟩))).snoc rfl rfl rfl
  | queued sends receiver => exact h.queued sends receiver
  | abandoned _ => exact (h.setCall (.inr (.inr rfl))).snoc rfl rfl rfl
  | cloned _ => exact Ledger.snoc (h.congr .rfl rfl rfl id rfl) rfl rfl rfl
  | dropped _ => exact Ledger.snoc (h.congr .rfl rfl rfl id rfl) rfl rfl rfl
  | last => exact Ledger.snoc (h.congr .rfl rfl rfl id rfl) rfl rfl rfl
  | closed => exact Ledger.snoc (h.congr .rfl rfl rfl id rfl) rfl rfl rfl

theorem running_settle (m : Mux) (progress : Bool) : (m.settle progress).Running := by
  intro result
  unfold settle
  cases progress <;> simp

/-- The held request gets yamux's answer. -/
theorem Ledger.answered {tr : Trace} {m : Mux} {e : Event} {call : Nat}
    {r : Except String MuxStream} (h : Ledger tr m) (run : m.Running)
    (held : m.pending = some call) :
    Ledger (tr ++ [(e, .outbound (some (call, .ready r)))])
      { m.answer call (reply r) with phase := .inbound true, pending := none } := by
  obtain ⟨all, some⟩ := h.running run
  rw [held, Option.toList_some] at some
  have more : Mux.answered (tr ++ [(e, .outbound (Option.some (call, .ready r)))]) =
      Mux.answered tr ++ [(call, r)] := answered_append tr _
  have same : taken (tr ++ [(e, .outbound (Option.some (call, .ready r)))]) = taken tr :=
    taken_quiet tr rfl
  have same' : Mux.queued (tr ++ [(e, .outbound (Option.some (call, .ready r)))]) =
      Mux.queued tr :=
    queued_quiet tr rfl
  have unanswered : ∀ y, (call, y) ∉ Mux.answered tr := by
    intro y member
    have once := h.once
    rw [all, some, List.append_assoc, List.nodup_append] at once
    exact once.2.2 call (List.mem_map_of_mem member) call (by simp) rfl
  constructor
  · intro _
    rw [more, same, same']
    dsimp only [queue]
    rw [answer_openRx, List.map_append, some]
    exact ⟨by rw [all, queue, some], by simp⟩
  · intro stop
    exact absurd (by simp [Running]) stop
  · rw [more, same, same', List.map_append, some]
    refine ⟨by simp, ?_⟩
    rw [← some]
    exact h.order.2
  · rw [same']
    exact h.once
  · intro c member
    rw [same'] at member
    dsimp only
    rw [answer_calls]
    split
    · simp
    · exact h.entered c member
  · intro c waits
    dsimp only [queue] at waits ⊢
    rw [answer_calls] at waits
    rw [answer_openRx]
    split at waits
    · contradiction
    · rename_i other
      have old := h.waiting c waits
      rw [held, Option.toList_some, List.singleton_append, List.mem_cons] at old
      refine old.resolve_left ?_
      rintro rfl
      exact other ⟨rfl, waits⟩
  · intro c member
    have place : c ∈ m.queue := by
      dsimp only [queue] at member ⊢
      rwa [answer_openRx] at member
    dsimp only
    rw [answer_calls, if_neg]
    · exact h.unresolved c (List.mem_append_right _ place)
    · rintro ⟨rfl, -⟩
      have once := h.once
      rw [all, some, List.nodup_append] at once
      exact once.2.2 c (by simp) c place rfl
  · intro c y member
    rw [more, List.mem_append, List.mem_singleton] at member
    dsimp only
    rw [answer_calls]
    rcases member with old | new
    · rw [if_neg]
      · exact h.replied c y old
      · rintro ⟨rfl, -⟩
        exact unanswered y old
    · cases new
      split <;> rename_i waits
      · exact .inl rfl
      · have unresolved := h.unresolved call (by simp [held])
        exact .inr (unresolved.resolve_left fun state => waits ⟨rfl, state⟩)
  · intro c y done
    dsimp only at done
    rw [answer_calls] at done
    rw [more]
    split at done <;> rename_i waits
    · cases done
      obtain ⟨rfl, -⟩ := waits
      exact .inl ⟨r, by simp, rfl⟩
    · rcases h.results c y done with ⟨z, member, same⟩ | same
      · exact .inl ⟨z, List.mem_append_left _ member, same⟩
      · exact .inr same

/-- The head of the queue is held next. -/
theorem Ledger.received {tr : Trace} {m m' : Mux} {e : Event} {call : Nat} {rest : List Nat}
    (h : Ledger tr m) (run : m.Running) (held : m.pending = none)
    (receiver : m.openRx = some (call :: rest)) (run' : m'.Running)
    (pending : m'.pending = some call) (openRx : m'.openRx = some rest)
    (calls : m'.calls = m.calls) :
    Ledger (tr ++ [(e, .queue (some (.ready (some call))))]) m' := by
  obtain ⟨all, some⟩ := h.running run
  have queue : m.queue = call :: rest := by rw [queue, receiver, Option.getD_some]
  have queue' : m'.queue = rest := by rw [Mux.queue, openRx, Option.getD_some]
  rw [held, Option.toList_none, List.append_nil] at some
  rw [queue] at all
  have places : m.pending.toList ++ m.queue = m'.pending.toList ++ m'.queue := by
    rw [held, queue, pending, queue']
    rfl
  have more : taken (tr ++ [(e, .queue (Option.some (.ready (Option.some call))))]) =
      taken tr ++ [call] := taken_append tr _
  have same : Mux.answered (tr ++ [(e, .queue (Option.some (.ready (Option.some call))))]) =
      Mux.answered tr :=
    answered_quiet tr rfl
  have same' : Mux.queued (tr ++ [(e, .queue (Option.some (.ready (Option.some call))))]) =
      Mux.queued tr :=
    queued_quiet tr rfl
  constructor
  · intro _
    rw [more, same, same', queue', pending, ← some]
    refine ⟨?_, rfl⟩
    rw [all, List.append_assoc]
    rfl
  · intro stop
    exact absurd run' stop
  · rw [more, same, same']
    refine ⟨h.order.1.trans (List.prefix_append _ _), ?_⟩
    rw [all]
    exact ⟨rest, by simp⟩
  · rw [same']
    exact h.once
  · rw [same', calls]
    exact h.entered
  · rw [calls, ← places]
    exact h.waiting
  · rw [calls, ← places]
    exact h.unresolved
  · rw [same, calls]
    exact h.replied
  · rw [same, calls]
    exact h.results

/-- Whoever still waited for a driver that is gone is told so. -/
theorem Ledger.finish {tr : Trace} {m : Mux} (h : Ledger tr m) (result : Except Error Unit) :
    Ledger tr (m.finish result) where
  running := by
    intro run
    exact absurd rfl (run result)
  finished _ := ⟨rfl, rfl⟩
  order := h.order
  once := h.once
  entered := by
    intro c member
    dsimp only [Mux.finish]
    split
    · simp
    · exact h.entered c member
  waiting := by
    intro c waits
    dsimp only [Mux.finish] at waits
    split at waits <;> rename_i dropped
    · contradiction
    · exact absurd ⟨h.waiting c waits, waits⟩ dropped
  unresolved := by
    intro c member
    exact absurd member List.not_mem_nil
  replied := by
    intro c r member
    have old := h.replied c r member
    dsimp only [Mux.finish]
    rw [if_neg]
    · exact old
    · rintro ⟨-, waits⟩
      simp [waits] at old
  results := by
    intro c r done
    dsimp only [Mux.finish] at done
    split at done
    · cases done
      exact .inr rfl
    · exact h.results c r done

theorem running_of_phase {m : Mux} {phase : Phase} (stands : m.phase = phase)
    (other : ∀ result, phase ≠ .finished result) : m.Running := by
  intro result
  rw [stands]
  exact other result

theorem ledger_drives {tr : Trace} {m m' : Mux} {e : Event} {o : Output} (h : Ledger tr m)
    (step : Drives m o m') : Ledger (tr ++ [(e, o)]) m' := by
  have moved {m' : Mux} (run : m.Running) (run' : m'.Running) (pending : m'.pending = m.pending)
      (openRx : m'.queue = m.queue) (receiver : m.openRx = none → m'.openRx = none)
      (calls : m'.calls = m.calls) : Ledger tr m' :=
    h.congr (iff_of_true run' run) pending openRx receiver calls
  cases step with
  | unheld phase _ =>
    refine Ledger.snoc (moved ?_ ?_ rfl rfl id rfl) rfl rfl rfl
    · exact running_of_phase phase (by simp)
    · exact running_of_phase rfl (by simp)
  | answered phase held => exact h.answered (running_of_phase phase (by simp)) held
  | unanswered phase _ =>
    refine Ledger.snoc (moved ?_ ?_ rfl rfl id rfl) rfl rfl rfl
    · exact running_of_phase phase (by simp)
    · exact running_of_phase rfl (by simp)
  | forwarded phase =>
    refine Ledger.snoc (moved ?_ ?_ rfl rfl id rfl) rfl rfl rfl
    · exact running_of_phase phase (by simp)
    · exact running_of_phase rfl (by simp)
  | failed _ => exact Ledger.snoc (h.finish _) rfl rfl rfl
  | ended _ => exact Ledger.snoc (h.finish _) rfl rfl rfl
  | silent phase =>
    refine Ledger.snoc (moved ?_ ?_ rfl rfl id rfl) rfl rfl rfl
    · exact running_of_phase phase (by simp)
    · exact running_of_phase rfl (by simp)
  | spent phase _ _ =>
    exact Ledger.snoc (moved (running_of_phase phase (by simp)) (running_settle _ _) rfl rfl id rfl)
      rfl rfl rfl
  | received phase held receiver =>
    exact h.received (running_of_phase phase (by simp)) held receiver (running_settle _ _) rfl rfl rfl
  | gone phase _ receiver =>
    have queue : m.queue = [] := by rw [queue, receiver, Option.getD_some]
    exact Ledger.snoc (moved (running_of_phase phase (by simp)) (running_settle _ _) rfl queue.symm
      (fun _ => rfl) rfl) rfl rfl rfl
  | empty phase _ _ _ =>
    exact Ledger.snoc (moved (running_of_phase phase (by simp)) (running_settle _ _) rfl rfl id rfl)
      rfl rfl rfl
  | unpolled phase _ =>
    exact Ledger.snoc (moved (running_of_phase phase (by simp)) (running_settle _ _) rfl rfl id rfl)
      rfl rfl rfl
  | resumed phase =>
    refine Ledger.snoc (moved ?_ ?_ rfl rfl id rfl) rfl rfl rfl
    · exact running_of_phase phase (by simp)
    · exact running_of_phase rfl (by simp)

end HyperionVpn.Mux
