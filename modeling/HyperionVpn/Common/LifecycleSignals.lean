import HyperionVpn.Common.LifecycleProofs

/-! Whom `down` stops, with any number of commands at once. -/
namespace HyperionVpn.Common.Host
open Client Machine

variable {p : Program} {s s' : Host} {k : Nat} {o : Output} {pid : UInt32}

/-- What becomes of the processes in a step. -/
theorem step_procs {e : Event} (h : step p s e = some (o, s')) :
    (Lessens s.procs s'.procs ∧ s'.procs.length = s.procs.length) ∨
      ∃ new, s'.procs = s.procs ++ [new] ∧ s.isAlive new.pid = false := by
  cases e with
  | fork pid comm =>
    simp only [step] at h
    split at h
    · cases h
    · cases h
      exact .inr ⟨_, rfl, Bool.eq_false_iff.mpr ‹_›⟩
  | exit i =>
    cases found : s.procs[i]? with
    | none => simp [step, found] at h
    | some q =>
      simp only [step, found, Option.bind_eq_bind, Option.bind_some] at h
      split at h
      · cases h
        refine .inl ⟨lessens_modify fun r same => ?_, List.length_modify _ _ _⟩
        obtain rfl := Option.some.inj (found.symm.trans same)
        exact fades_exited ‹_›
      · cases h
  | reap i =>
    cases found : s.procs[i]? with
    | none => simp [step, found] at h
    | some q =>
      simp only [step, found, Option.bind_eq_bind, Option.bind_some] at h
      split at h
      · cases h
        exact .inl ⟨lessens_modify fun r _ => fades_reaped r, List.length_modify _ _ _⟩
      · cases h
  | start k goal =>
    cases at_ : s.commands k with
    | idle =>
      simp only [step, at_] at h
      cases h
      exact .inl ⟨.refl _, rfl⟩
    | _ => simp [step, at_] at h
  | poll k r =>
    cases poll_spec h with
    | started at_ free => exact .inr ⟨_, rfl, free⟩
    | signalled at_ target => exact .inl ⟨lessens_modify fun r _ => fades_signal r, List.length_modify _ _ _⟩
    | _ => exact .inl ⟨.refl _, rfl⟩

theorem Fades.trans {q q' q'' : Process} (first : Fades q q') (second : Fades q' q'') :
    Fades q q'' where
  pid := second.pid.trans first.pid
  comm := second.comm.trans first.comm
  parent := second.parent.trans first.parent
  entry := first.entry ∘ second.entry
  running up unsignalled :=
    have ⟨up', unsignalled'⟩ := second.running up unsignalled
    first.running up' unsignalled'

theorem run_length {s t : Host} {tr : Trace} (run : Run (step p) s tr t) :
    s.procs.length ≤ t.procs.length := by
  induction run with
  | nil => exact le_rfl
  | snoc left stepped ih =>
    rcases step_procs stepped with ⟨-, same⟩ | ⟨new, appended, -⟩
    · exact ih.trans same.ge
    · rw [appended, List.length_append]
      exact ih.trans (Nat.le_add_right _ _)

/-- A process that was there before a run is the same one after it. -/
theorem run_fades {s t : Host} {tr : Trace} (run : Run (step p) s tr t) {i : Nat} {q : Process}
    (found : t.procs[i]? = some q) (old : i < s.procs.length) :
    ∃ r, s.procs[i]? = some r ∧ Fades r q := by
  induction run generalizing q with
  | nil => exact ⟨q, found, .refl q⟩
  | @snoc tr m e o t left stepped ih =>
    rcases step_procs stepped with ⟨less, -⟩ | ⟨new, appended, -⟩
    · obtain ⟨r, was, fades⟩ := less i q found
      obtain ⟨r', was', fades'⟩ := ih was
      exact ⟨r', was', fades'.trans fades⟩
    · rw [appended] at found
      rcases getElem?_new found with before | ⟨last, rfl⟩
      · exact ih before
      · have grown := run_length left
        omega

theorem run_distinct {pidFile : Option String} {tr : Trace}
    (run : Run (step p) (boot pidFile) tr s) : Distinct s.procs := by
  refine run.invariant (P := fun s => Distinct s.procs) (fun i j q q' pid found => by cases found) ?_
  intro m e o m' entries stepped
  rcases step_procs stepped with ⟨less, -⟩ | ⟨new, appended, free⟩
  · exact entries.fewer less
  · rw [appended]
    exact entries.new free

/-- A step that the command took when the host was like that. -/
def Took (p : Program) (init : Host) (k : Nat) (tr : Trace) (P : Host → Prop) : Prop :=
  ∃ before r o after m, tr = before ++ (.poll k r, o) :: after ∧ Run (step p) init before m ∧ P m

variable {init : Host} {tr : Trace}

theorem Took.snoc {P : Host → Prop} (h : Took p init k tr P) (e : Event × Output) :
    Took p init k (tr ++ [e]) P := by
  obtain ⟨before, r, o, after, m, rfl, run, holds⟩ := h
  exact ⟨before, r, o, after ++ [e], m, by simp, run, holds⟩

/-- It has read the number in the file. -/
def Read (p : Program) (init : Host) (k : Nat) (tr : Trace) (pid : UInt32) : Prop :=
  Took p init k tr fun m => m.commands k = .reading .down ∧ readPid m.pidFile = some pid

/-- It has looked at the name. -/
def Looked (p : Program) (init : Host) (k : Nat) (tr : Trace) (pid : UInt32) : Prop :=
  Took p init k tr fun m => m.commands k = .matching .down pid ∧
    m.processNameMatches pid p.needle = true

/-- What a `down` has done so far. -/
def Asked (p : Program) (init : Host) (k : Nat) (tr : Trace) : Command → Prop
  | .looking .down pid | .matching .down pid => Read p init k tr pid
  | .killing pid => Read p init k tr pid ∧ Looked p init k tr pid
  | _ => True

theorem Asked.snoc {c : Command} (h : Asked p init k tr c) (e : Event × Output) :
    Asked p init k (tr ++ [e]) c := by
  unfold Asked at h ⊢
  split at h
  · exact Took.snoc h e
  · exact Took.snoc h e
  · exact ⟨Took.snoc h.1 e, Took.snoc h.2 e⟩
  · trivial

theorem asked_absent {c : Command} (absent : Absent c) : Asked p init k tr c := by
  cases absent <;> trivial

theorem asked_poll {r : Reply} (run : Run (step p) init tr s)
    (asked : Asked p init k tr (s.commands k)) (h : s.poll p k r = some (o, s')) :
    Asked p init k (tr ++ [(.poll k r, o)]) (s'.commands k) := by
  have now {P : Host → Prop} (holds : P s) : Took p init k (tr ++ [(.poll k r, o)]) P :=
    ⟨tr, r, o, [], s, rfl, run, holds⟩
  have earlier := asked.snoc (.poll k r, o)
  have next {c : Command} (fits : Asked p init k (tr ++ [(.poll k r, o)]) c) :
      Asked p init k (tr ++ [(.poll k r, o)]) (Function.update s.commands k c k) := by
    rwa [Function.update_self]
  cases poll_spec h with
  | @unnamed goal at_ file => exact next (asked_absent (absent_unnamed goal))
  | @named goal pid at_ file =>
    apply next
    cases goal with
    | down => exact now ⟨at_, file⟩
    | up call | status => trivial
  | @seen goal pid at_ alive =>
    apply next
    rw [at_] at earlier
    cases goal with
    | down => exact earlier
    | up call | status => trivial
  | @unseen goal pid at_ alive => exact next (asked_absent (absent_stale pid goal))
  | @found goal pid at_ same =>
    apply next
    rw [at_] at earlier
    cases goal with
    | down => exact ⟨earlier, now ⟨at_, same⟩⟩
    | up call =>
      have refused : Host.found pid (.up call) = prepared call (some pid) := rfl
      rcases prepared_cases call (some pid) with ⟨failure, done⟩ | ⟨none, -⟩
      · rw [refused, done]
        trivial
      · cases none
    | status => trivial
  | @other goal pid at_ same => exact next (asked_absent (absent_stale pid goal))
  | unstarted | started | opened | unwritten | written | stands | gone | refused | signalled | removed
  | left => exact next trivial

theorem run_asked (run : Run (step p) init tr s) (fresh : ∀ k, init.commands k = .idle) (k : Nat) :
    Asked p init k tr (s.commands k) := by
  induction run with
  | nil =>
    rw [fresh]
    trivial
  | snoc left stepped ih =>
    rcases step_commands stepped k with same | ⟨goal, begun, -⟩ | ⟨r, rfl⟩
    · rw [same]
      exact ih.snoc _
    · rw [begun]
      trivial
    · exact asked_poll left ih stepped

theorem nameMatches_entry (entries : Distinct s.procs) {i : Nat} {q : Process}
    (found : s.procs[i]? = some q) (entry : q.HasEntry pid)
    (same : s.processNameMatches pid p.needle = true) : q.Matches p.needle := by
  unfold processNameMatches at same
  cases first : s.procs.find? fun q => q.HasEntry pid with
  | none =>
    rw [List.find?_eq_none] at first
    exact absurd (by simpa using entry) (first q (List.mem_of_getElem? found))
  | some r =>
    obtain ⟨j, place⟩ := List.mem_iff_getElem?.mp (List.mem_of_find?_eq_some first)
    have there : r.HasEntry pid := by simpa using List.find?_some first
    obtain rfl := entries i j q r pid found place entry there
    obtain rfl := Option.some.inj (found.symm.trans place)
    simpa [first] using same

theorem step_signal {e : Event} {i : Nat} (h : step p s e = some (some i, s')) :
    ∃ k r pid, e = .poll k r ∧ s.commands k = .killing pid ∧
      s.procs.findIdx? (fun q => q.HasEntry pid) = some i ∧
      s'.procs = s.procs.modify i Process.signal := by
  cases e with
  | fork pid comm =>
    simp only [step] at h
    split at h <;> cases h
  | exit i | reap i =>
    cases found : s.procs[i]? with
    | none => simp [step, found] at h
    | some q =>
      simp only [step, found, Option.bind_eq_bind, Option.bind_some] at h
      split at h <;> cases h
  | start j goal =>
    simp only [step] at h
    split at h <;> cases h
  | poll k r =>
    cases poll_spec h with
    | signalled at_ target => exact ⟨k, r, _, rfl, at_, target, rfl⟩

/-- Whatever else goes on, a signal goes to the process under the number that `down`
has read in the file; and its name is the one that `down` has looked for, or it
has no readable one, or it has come into being since. -/
theorem signals_spare (p : Program) (pidFile : Option String) (tr : Trace) (s : Host)
    (run : Run (step p) (boot pidFile) tr s) (before after : Trace) (e : Event) (i : Nat)
    (signal : tr = before ++ (e, some i) :: after) :
    ∃ k r pid q, e = .poll k r ∧ Read p (boot pidFile) k before pid ∧ s.procs[i]? = some q ∧
      q.pid = pid ∧ (q.Matches p.needle ∨ Took p (boot pidFile) k before fun m =>
        m.commands k = .matching .down pid ∧ m.procs.length ≤ i) := by
  subst signal
  obtain ⟨m, m', left, stepped, right⟩ := run.at_step
  obtain ⟨k, r, pid, rfl, at_, target, procs⟩ := step_signal stepped
  obtain ⟨inside, entry, -⟩ := List.findIdx?_eq_some_iff_getElem.mp target
  simp only [decide_eq_true_eq] at entry
  have place : m.procs[i]? = some m.procs[i] := List.getElem?_eq_getElem inside
  have asked := run_asked left (fun _ => rfl) k
  rw [at_] at asked
  obtain ⟨read, earlier, r', o', rest, seen, rfl, start, matching, same⟩ := asked
  obtain ⟨t, start', on⟩ := left.split
  obtain ⟨-, rfl⟩ := start.functional start' rfl
  -- What becomes of the process afterwards leaves it its number and its name.
  have now : m'.procs[i]? = some m.procs[i].signal := by
    rw [procs, List.getElem?_modify_eq, place]
    rfl
  have still : i < s.procs.length :=
    (List.getElem?_eq_some_iff.mp now).1.trans_le (run_length right)
  obtain ⟨q', was, fades⟩ := run_fades right (List.getElem?_eq_getElem still)
    (List.getElem?_eq_some_iff.mp now).1
  obtain rfl := Option.some.inj (now.symm.trans was)
  refine ⟨k, r, pid, s.procs[i], rfl, read, List.getElem?_eq_getElem still,
    fades.pid.trans entry.1, ?_⟩
  by_cases old : i < seen.procs.length
  · left
    obtain ⟨q, was, fades'⟩ := run_fades on place old
    have matches_ := nameMatches_entry (run_distinct start) was (fades'.hasEntry entry) same
    intro comm name
    exact matches_ comm (by rw [← fades'.comm]; exact fades.comm ▸ name)
  · exact .inr ⟨earlier, r', o', rest, seen, rfl, start, matching, Nat.not_lt.mp old⟩

/-- The pid in the file has gone to the daemon of the other program. -/
def sampleReused : List Event :=
  let poll k := .poll k sampleReply
  [.fork 4242 (some "hyperion-client\n"), .start 0 .down, poll 0, poll 0, poll 0, poll 0]

theorem signals_spare_sample : ∃ tr s q,
    Run (step sampleProgram) (boot (some "4242")) tr s ∧ tr.map Prod.fst = sampleReused ∧
      s.procs[0]? = some q ∧ q.pid = 4242 ∧ q.signalled = true ∧ q.parent = none ∧
      q.Matches "hyperion" := by
  obtain ⟨⟨tr, s⟩, h, last, place⟩ : ∃ result,
      exec (step sampleProgram) (boot (some "4242")) sampleReused = some result ∧
        result.1 = result.1.dropLast ++ (.poll 0 sampleReply, some 0) :: [] ∧
        result.2.procs[0]? = some ⟨4242, some "hyperion-client\n", some .running, none, true⟩ :=
    ⟨_, rfl, rfl, rfl⟩
  obtain ⟨run, inputs⟩ := exec_run h
  obtain ⟨k, r, pid, q, -, -, found, same, spared⟩ :=
    signals_spare sampleProgram (some "4242") tr s run _ _ _ _ last
  obtain rfl := Option.some.inj (place.symm.trans found)
  exact ⟨tr, s, _, run, inputs, place, rfl, rfl, rfl, by decide +kernel⟩

end HyperionVpn.Common.Host
