import HyperionVpn.Common.Lifecycle

/-! As long as the commands come one at a time, the pid file names the one daemon
that `up` has promised; and at no time does `down` stop a process on the strength
of the number alone. -/
namespace HyperionVpn.Common.Host
open Client Machine

variable {p : Program} {s s' : Host} {k : Nat} {o : Output} {pid : UInt32}

/-- All that the next step of a command can do. -/
inductive Polls (p : Program) (s : Host) (k : Nat) : Output → Host → Prop where
  | unnamed {goal : Goal} (at_ : s.commands k = .reading goal) (file : readPid s.pidFile = none) :
      Polls p s k none (s.setCommand k (unnamed p goal))
  | named {goal : Goal} {pid : UInt32} (at_ : s.commands k = .reading goal)
      (file : readPid s.pidFile = some pid) : Polls p s k none (s.setCommand k (.looking goal pid))
  | seen {goal : Goal} {pid : UInt32} (at_ : s.commands k = .looking goal pid)
      (alive : s.isAlive pid = true) : Polls p s k none (s.setCommand k (.matching goal pid))
  | unseen {goal : Goal} {pid : UInt32} (at_ : s.commands k = .looking goal pid)
      (alive : s.isAlive pid = false) : Polls p s k none (s.setCommand k (stale p pid goal))
  | found {goal : Goal} {pid : UInt32} (at_ : s.commands k = .matching goal pid)
      (same : s.processNameMatches pid p.needle = true) :
      Polls p s k none (s.setCommand k (found pid goal))
  | other {goal : Goal} {pid : UInt32} (at_ : s.commands k = .matching goal pid)
      (same : s.processNameMatches pid p.needle = false) :
      Polls p s k none (s.setCommand k (stale p pid goal))
  | unstarted {chain : Chain} (at_ : s.commands k = .starting) :
      Polls p s k none (s.setCommand k (.done (.up (.error (ofChain chain)))))
  | started {child : UInt32} (at_ : s.commands k = .starting) (free : s.isAlive child = false) :
      Polls p s k none { s.setCommand k (.started child) with
        procs := s.procs ++ [⟨child, some p.comm, some .running, some k, false⟩] }
  | opened {child : UInt32} (at_ : s.commands k = .started child) :
      Polls p s k none { s.setCommand k (.writing child) with pidFile := some "" }
  | unwritten {child : UInt32} {chain : Chain} {pidFile : Option String}
      (at_ : s.commands k = .started child ∨ s.commands k = .writing child) : Polls p s k none
        { s.setCommand k (.done (.up (.error (ofChain chain)))) with pidFile }
  | written {child : UInt32} (at_ : s.commands k = .writing child) : Polls p s k none
        { s.setCommand k (.sleeping child) with pidFile := some (toString child) }
  | stands {child : UInt32} (at_ : s.commands k = .sleeping child)
      (alive : s.isAlive child = true) : Polls p s k none (s.setCommand k (.done (.up (.ok child))))
  | gone {child : UInt32} {failure : Failure} (at_ : s.commands k = .sleeping child)
      (alive : s.isAlive child = false) :
      Polls p s k none (s.setCommand k (.removing (.up (.error failure))))
  | refused {pid : UInt32} {failure : Failure} (at_ : s.commands k = .killing pid) :
      Polls p s k none (s.setCommand k (.done (.down (.error failure))))
  | signalled {pid : UInt32} {i : Nat} {line : String} (at_ : s.commands k = .killing pid)
      (target : s.procs.findIdx? (fun q => q.HasEntry pid) = some i) : Polls p s k (some i)
        { s.setCommand k (.removing (.down (.ok line))) with
          procs := s.procs.modify i Process.signal }
  | removed {answer : Answer} (at_ : s.commands k = .removing answer) :
      Polls p s k none { s.setCommand k (.done answer) with pidFile := none }
  | left {answer : Answer} (at_ : s.commands k = .removing answer) :
      Polls p s k none (s.setCommand k (.done answer))

theorem poll_spec {r : Reply} (h : s.poll p k r = some (o, s')) : Polls p s k o s' := by
  unfold poll at h
  cases at_ : s.commands k with
  | idle | done _ =>
    rw [at_] at h
    cases h
  | reading goal =>
    simp only [at_] at h
    cases file : readPid s.pidFile with
    | none =>
      rw [file] at h
      cases h
      exact .unnamed at_ file
    | some pid =>
      rw [file] at h
      cases h
      exact .named at_ file
  | looking goal pid =>
    simp only [at_] at h
    split at h
    · cases h
      exact .seen at_ ‹_›
    · cases h
      exact .unseen at_ (Bool.eq_false_iff.mpr ‹_›)
  | matching goal pid =>
    simp only [at_] at h
    split at h
    · cases h
      exact .found at_ ‹_›
    · cases h
      exact .other at_ (Bool.eq_false_iff.mpr ‹_›)
  | starting =>
    simp only [at_] at h
    split at h
    · cases h
      exact .unstarted at_
    · split at h
      · cases h
      · cases h
        exact .started at_ (Bool.eq_false_iff.mpr ‹_›)
  | started child =>
    simp only [at_] at h
    cases write : r.outcomes.write with
    | notOpened error =>
      rw [write] at h
      cases h
      exact .unwritten (.inl at_)
    | done | cut _ _ =>
      rw [write] at h
      cases h
      exact .opened at_
  | writing child =>
    simp only [at_] at h
    cases write : r.outcomes.write with
    | notOpened error =>
      rw [write] at h
      cases h
    | cut _ _ =>
      rw [write] at h
      cases h
      exact .unwritten (.inr at_)
    | done =>
      rw [write] at h
      cases h
      exact .written at_
  | sleeping child =>
    simp only [at_] at h
    split at h
    · cases h
      exact .stands at_ ‹_›
    · cases h
      exact .gone at_ (Bool.eq_false_iff.mpr ‹_›)
  | killing pid =>
    simp only [at_] at h
    split at h
    · cases h
      exact .refused at_
    · cases h
      exact .refused at_
    · cases target : s.procs.findIdx? (fun q => q.HasEntry pid) with
      | none =>
        rw [target] at h
        cases h
      | some i =>
        rw [target] at h
        cases h
        exact .signalled at_ target
  | removing answer =>
    simp only [at_] at h
    split at h
    · cases h
      exact .removed at_
    · cases h
      exact .left at_

theorem Polls.active (h : Polls p s k o s') : (s.commands k).Active := by
  cases h
  case unwritten child chain pidFile at_ => rcases at_ with at_ | at_ <;> simp [at_, Command.Active]
  all_goals
    rename (s.commands k = _) => at_
    rw [at_]
    trivial

/-! One command at a time. -/

/-- A command is started when every other one has ended. -/
def Lone (s : Host) : Event → Prop
  | .start _ _ => ∀ j, ¬ (s.commands j).Active
  | .fork _ _ | .exit _ | .reap _ | .poll _ _ => True

/-- A daemon that is running, that nobody has stopped, and whose `up` has not
answered with an error. -/
def Serves (s : Host) (q : Process) : Prop :=
  q.state = some .running ∧ q.signalled = false ∧
    ∃ k ∈ q.parent, ∀ failure, s.commands k ≠ .done (.up (.error failure))

/-- The `up` has the pid, and the file does not name it yet. -/
def Holds (s : Host) (pid : UInt32) : Prop :=
  ∃ k, s.commands k = .started pid ∨ s.commands k = .writing pid

/-- The child of an `up` is there as long as the `up`, which does not wait for it. -/
def ChildOf (s : Host) (k : Nat) (child : UInt32) : Prop :=
  ∃ (i : Nat) (q : Process), s.procs[i]? = some q ∧ q.HasEntry child ∧ q.parent = some k

/-- No daemon serves. -/
def Free (s : Host) : Prop := ∀ (i : Nat) (q : Process), s.procs[i]? = some q → ¬ s.Serves q

/-- Some process has the number, and it is the child of the `up`. It serves unless it
has exited or has been sent a signal. -/
def Answered (s : Host) (k : Nat) (child : UInt32) : Prop :=
  ∃ (i : Nat) (q : Process), s.procs[i]? = some q ∧ q.HasEntry child ∧ q.parent = some k ∧
    (q.state = some .running → q.signalled = false → s.Serves q)

/-- An answer that tells of no daemon. -/
def Negative : Answer → Prop
  | .up (.error _) | .down _ | .status none => True
  | .up (.ok _) | .status (some _) => False

/-- What is so when an answer is given. A number is the one in the file, and whatever
daemon serves has it. The child of an `up` may have exited by then; what `status`
has seen may have too, or be another program's, but by the name that it has, if it
is still there, it fits. An error says nothing of what is running. -/
def Told (p : Program) (s : Host) (k : Nat) : Answer → Prop
  | .up (.ok pid) => readPid s.pidFile = some pid ∧ s.Answered k pid ∧
      ∀ (i : Nat) (q : Process), s.procs[i]? = some q → s.Serves q → q.pid = pid
  | .status (some pid) => readPid s.pidFile = some pid ∧
      (∀ (i : Nat) (q : Process), s.procs[i]? = some q → q.HasEntry pid → q.Matches p.needle) ∧
      ∀ (i : Nat) (q : Process), s.procs[i]? = some q → s.Serves q → q.pid = pid
  | .down (.ok _) | .status none => s.Free
  | .up (.error _) | .down (.error _) => True

/-- What holds where a command stands. -/
def Fits (s : Host) (k : Nat) : Command → Prop
  | .looking _ pid | .matching _ pid | .killing pid => readPid s.pidFile = some pid
  | .starting => s.Free
  | .removing answer => s.Free ∧ Negative answer
  | .started child | .writing child =>
    (∀ (i : Nat) (q : Process), s.procs[i]? = some q → s.Serves q → q.pid = child) ∧ s.ChildOf k child
  | .sleeping child => readPid s.pidFile = some child ∧ s.ChildOf k child
  | .idle | .reading _ | .done _ => True

theorem commands_setCommand (c : Command) : (s.setCommand k c).commands k = c :=
  Function.update_self _ _ _

/-- No two processes that are there have the same number. -/
def Distinct (procs : List Process) : Prop :=
  ∀ (i j : Nat) (q q' : Process) (pid : UInt32), procs[i]? = some q → procs[j]? = some q' →
    q.HasEntry pid → q'.HasEntry pid → i = j

structure Tracked (p : Program) (s : Host) : Prop where
  lone : ∀ j k, (s.commands j).Active → (s.commands k).Active → j = k
  entries : Distinct s.procs
  named : ∀ (i : Nat) (q : Process), s.procs[i]? = some q → q.parent.isSome = true → q.comm = some p.comm
  served : ∀ (i : Nat) (q : Process), s.procs[i]? = some q → s.Serves q → readPid s.pidFile = some q.pid ∨ s.Holds q.pid
  fits : ∀ k, s.Fits k (s.commands k)

/-- A process as it was, or with less left of it. -/
structure Fades (q q' : Process) : Prop where
  pid : q'.pid = q.pid
  comm : q'.comm = q.comm
  parent : q'.parent = q.parent
  entry : q'.state.isSome = true → q.state.isSome = true
  running : q'.state = some .running → q'.signalled = false →
    q.state = some .running ∧ q.signalled = false

theorem Fades.refl (q : Process) : Fades q q := ⟨rfl, rfl, rfl, id, fun h h' => ⟨h, h'⟩⟩

theorem Fades.hasEntry {q q' : Process} (fades : Fades q q') (entry : q'.HasEntry pid) :
    q.HasEntry pid := ⟨fades.pid ▸ entry.1, fades.entry entry.2⟩

theorem fades_exited {q : Process} (up : q.state = some .running) : Fades q q.exited where
  pid := rfl
  comm := rfl
  parent := rfl
  entry _ := by simp [up]
  running ended := by simp [Process.exited] at ended

theorem fades_reaped (q : Process) : Fades q q.reaped where
  pid := rfl
  comm := rfl
  parent := rfl
  entry ended := by simp [Process.reaped] at ended
  running ended := by simp [Process.reaped] at ended

theorem fades_signal (q : Process) : Fades q q.signal where
  pid := rfl
  comm := rfl
  parent := rfl
  entry := id
  running _ ended := by simp [Process.signal] at ended

/-- No process is there that was not there before. -/
def Lessens (l l' : List Process) : Prop :=
  ∀ (i : Nat) (q' : Process), l'[i]? = some q' → ∃ q, l[i]? = some q ∧ Fades q q'

theorem Lessens.refl (l : List Process) : Lessens l l := fun _ q found => ⟨q, found, .refl q⟩

theorem lessens_modify {l : List Process} {i : Nat} {f : Process → Process}
    (fades : ∀ q, l[i]? = some q → Fades q (f q)) : Lessens l (l.modify i f) := by
  intro j q' found
  rw [List.getElem?_modify, Option.map_eq_map, Option.map_eq_some_iff] at found
  obtain ⟨q, found, rfl⟩ := found
  refine ⟨q, found, ?_⟩
  split
  · rename_i same
    subst same
    exact fades q found
  · exact .refl q

/-! The steps of the other processes. -/

theorem isAlive_eq_false : s.isAlive pid = false ↔
    ∀ (i : Nat) (q : Process), s.procs[i]? = some q → ¬ q.HasEntry pid := by
  simp only [isAlive, List.any_eq_false, decide_eq_true_eq]
  constructor
  · exact fun free i q found => free q (List.mem_of_getElem? found)
  · intro free q member
    obtain ⟨i, found⟩ := List.mem_iff_getElem?.mp member
    exact free i q found

/-- Where the commands stand as they stood, what is true of them stays true as long
as no daemon comes to serve and no child of a command goes. -/
theorem Tracked.others {pidFile : Option String} {procs procs' : List Process}
    {commands : Nat → Command} (h : Tracked p ⟨pidFile, procs, commands⟩)
    (entries : Distinct procs')
    (named : ∀ (i : Nat) (q : Process), procs'[i]? = some q → q.parent.isSome = true →
      q.comm = some p.comm)
    (serves : ∀ (i : Nat) (q' : Process), procs'[i]? = some q' →
      Serves ⟨pidFile, procs', commands⟩ q' →
      ∃ q, procs[i]? = some q ∧ q.pid = q'.pid ∧ Serves ⟨pidFile, procs, commands⟩ q)
    (child : ∀ k pid, (commands k).Active → ChildOf ⟨pidFile, procs, commands⟩ k pid →
      ChildOf ⟨pidFile, procs', commands⟩ k pid) : Tracked p ⟨pidFile, procs', commands⟩ := by
  have free (none : Free ⟨pidFile, procs, commands⟩) : Free ⟨pidFile, procs', commands⟩ := by
    intro i q found serving
    obtain ⟨r, was, -, served⟩ := serves i q found serving
    exact none i r was served
  refine ⟨h.lone, entries, named, ?_, ?_⟩
  · intro i q found serving
    obtain ⟨r, was, same, served⟩ := serves i q found serving
    exact same ▸ h.served i r was served
  · intro k
    have fits := h.fits k
    simp only at fits ⊢
    cases at_ : commands k with
    | idle | reading _ | done _ => trivial
    | looking _ _ | matching _ _ | killing _ => rwa [at_] at fits
    | starting =>
      rw [at_] at fits
      exact free fits
    | removing answer =>
      rw [at_] at fits
      exact ⟨free fits.1, fits.2⟩
    | started pid | writing pid =>
      rw [at_] at fits
      refine ⟨fun i q found serving => ?_, child k pid (by rw [at_]; trivial) fits.2⟩
      obtain ⟨r, was, same, served⟩ := serves i q found serving
      exact same ▸ fits.1 i r was served
    | sleeping pid =>
      rw [at_] at fits
      exact ⟨fits.1, child k pid (by rw [at_]; trivial) fits.2⟩

theorem Distinct.fewer {procs procs' : List Process} (h : Distinct procs)
    (less : Lessens procs procs') : Distinct procs' := by
  intro i j q q' pid found found' entry entry'
  obtain ⟨r, was, fades⟩ := less i q found
  obtain ⟨r', was', fades'⟩ := less j q' found'
  exact h i j r r' pid was was' (fades.hasEntry entry) (fades'.hasEntry entry')

theorem Tracked.fewer {pidFile : Option String} {procs procs' : List Process}
    {commands : Nat → Command} (h : Tracked p ⟨pidFile, procs, commands⟩)
    (less : Lessens procs procs')
    (kept : ∀ (i : Nat) (q : Process) (k : Nat), procs[i]? = some q → k ∈ q.parent →
      (commands k).Active → q.state.isSome = true →
      ∃ q', procs'[i]? = some q' ∧ q'.state.isSome = true) :
    Tracked p ⟨pidFile, procs', commands⟩ := by
  apply h.others
  · exact h.entries.fewer less
  · intro i q found daemon
    obtain ⟨r, was, fades⟩ := less i q found
    exact fades.comm.trans (h.named i r was (fades.parent ▸ daemon))
  · intro i q' found serving
    obtain ⟨q, was, fades⟩ := less i q' found
    obtain ⟨running, unsignalled⟩ := fades.running serving.1 serving.2.1
    exact ⟨q, was, fades.pid.symm, running, unsignalled, fades.parent ▸ serving.2.2⟩
  · rintro k pid active ⟨i, q, found, entry, parent⟩
    obtain ⟨q', now, there⟩ := kept i q k found parent active entry.2
    obtain ⟨r, was, fades⟩ := less i q' now
    obtain rfl := Option.some.inj (found.symm.trans was)
    exact ⟨i, q', now, ⟨fades.pid.trans entry.1, there⟩, fades.parent.trans parent⟩

/-- A new process is the last one. -/
theorem getElem?_new {l : List Process} {new q : Process} {i : Nat}
    (found : (l ++ [new])[i]? = some q) : l[i]? = some q ∨ i = l.length ∧ q = new := by
  rcases Nat.lt_trichotomy i l.length with lt | eq | gt
  · rw [List.getElem?_append_left lt] at found
    exact .inl found
  · subst eq
    simp only [List.getElem?_concat_length, Option.some.injEq] at found
    exact .inr ⟨rfl, found.symm⟩
  · rw [List.getElem?_eq_none (by rw [List.length_append, List.length_singleton]; omega)] at found
    cases found

/-- Its number is one that no other process has. -/
theorem Distinct.new {new : Process} (entries : Distinct s.procs)
    (free : s.isAlive new.pid = false) : Distinct (s.procs ++ [new]) := by
  intro i j q q' pid found found' entry entry'
  have unused := isAlive_eq_false.mp free
  rcases getElem?_new found with old | ⟨rfl, rfl⟩ <;> rcases getElem?_new found' with old' | ⟨rfl, rfl⟩
  · exact entries i j q q' pid old old' entry entry'
  · exact absurd (entry'.1 ▸ entry) (unused i q old)
  · exact absurd (entry.1 ▸ entry') (unused j q' old')
  · rfl

/-- Another process starts. -/
theorem Tracked.fork {comm : Option String} (h : Tracked p s) (free : s.isAlive pid = false) :
    Tracked p { s with procs := s.procs ++ [⟨pid, comm, some .running, none, false⟩] } := by
  apply Tracked.others h
  · exact h.entries.new free
  · intro i q found daemon
    rcases getElem?_new found with old | ⟨-, rfl⟩
    · exact h.named i q old daemon
    · cases daemon
  · intro i q found serving
    rcases getElem?_new found with old | ⟨-, rfl⟩
    · exact ⟨q, old, rfl, serving⟩
    · obtain ⟨-, -, k, absent, -⟩ := serving
      cases absent
  · rintro k pid' active ⟨i, q, found, entry, parent⟩
    obtain ⟨inside, -⟩ := List.getElem?_eq_some_iff.mp found
    exact ⟨i, q, (List.getElem?_append_left inside).trans found, entry, parent⟩

/-- A process ends, or what is left of it goes, unless a command is its parent. -/
theorem Tracked.fade {f : Process → Process} {i : Nat} {q : Process} (h : Tracked p s)
    (found : s.procs[i]? = some q) (fades : Fades q (f q))
    (kept : s.Kept q → (f q).state.isSome = true) :
    Tracked p { s with procs := s.procs.modify i f } := by
  refine Tracked.fewer h (lessens_modify fun r same => ?_) fun j r k there mine active entry => ?_
  · obtain rfl := Option.some.inj (found.symm.trans same)
    exact fades
  · by_cases same : i = j
    · subst same
      obtain rfl := Option.some.inj (found.symm.trans there)
      refine ⟨f q, ?_, kept ⟨k, mine, active⟩⟩
      rw [List.getElem?_modify_eq, found]
      rfl
    · exact ⟨r, by rw [List.getElem?_modify_ne _ _ same, there], entry⟩

/-! The steps of a command. -/

theorem fits_inactive {c : Command} (h : ¬ c.Active) : s.Fits k c := by
  cases c with
  | idle | reading _ | done _ => trivial
  | looking _ _ | matching _ _ | starting | started _ | writing _ | sleeping _ | killing _
  | removing _ => exact absurd trivial h

/-- A step of a command lets no daemon serve that did not. -/
theorem serves_before {c : Command} {q : Process} {pidFile : Option String} {procs : List Process}
    (active : (s.commands k).Active)
    (serving : Serves ⟨pidFile, procs, Function.update s.commands k c⟩ q) : s.Serves q := by
  obtain ⟨running, unsignalled, k', parent, unrefused⟩ := serving
  refine ⟨running, unsignalled, k', parent, fun failure refused => ?_⟩
  have other : k' ≠ k := by
    rintro rfl
    rw [refused] at active
    exact active
  exact unrefused failure (by simp only [Function.update_of_ne other, refused])

theorem lone_update {c : Command}
    (lone : ∀ i j, (s.commands i).Active → (s.commands j).Active → i = j)
    (active : (s.commands k).Active) (i j : Nat)
    (first : (Function.update s.commands k c i).Active)
    (second : (Function.update s.commands k c j).Active) : i = j := by
  have same (i : Nat) (h : (Function.update s.commands k c i).Active) : i = k := by
    by_contra other
    rw [Function.update_of_ne other] at h
    exact other (lone i k h active)
  exact (same i first).trans (same j second).symm

theorem fits_update {c : Command} {t : Host}
    (lone : ∀ i j, (s.commands i).Active → (s.commands j).Active → i = j)
    (active : (s.commands k).Active) (commands : t.commands = Function.update s.commands k c)
    (fits : t.Fits k c) (j : Nat) : t.Fits j (t.commands j) := by
  by_cases same : j = k
  · subst same
    rwa [commands, Function.update_self]
  · apply fits_inactive
    rw [commands, Function.update_of_ne same]
    exact fun h => same (lone j k h active)

/-- A step of a command that leaves the processes alone. -/
theorem Tracked.advance {pidFile : Option String} {c : Command} (h : Tracked p s)
    (active : (s.commands k).Active)
    (fits : Fits ⟨pidFile, s.procs, Function.update s.commands k c⟩ k c)
    (served : ∀ (i : Nat) (q : Process), s.procs[i]? = some q →
      Serves ⟨pidFile, s.procs, Function.update s.commands k c⟩ q →
      readPid pidFile = some q.pid ∨ c = .writing q.pid) :
    Tracked p ⟨pidFile, s.procs, Function.update s.commands k c⟩ where
  lone := lone_update h.lone active
  entries := h.entries
  named := h.named
  served i q found serving := by
    rcases served i q found serving with named | held
    · exact .inl named
    · exact .inr ⟨k, .inr ((Function.update_self _ _ _).trans held)⟩
  fits := fits_update h.lone active rfl fits

/-- Unless the `up` is about to write it, the pid of the daemon is in the file. -/
theorem Tracked.file_names (h : Tracked p s) (active : (s.commands k).Active)
    (idle : ∀ pid, s.commands k ≠ .started pid ∧ s.commands k ≠ .writing pid) {i : Nat} {q : Process}
    (found : s.procs[i]? = some q) (serving : s.Serves q) : readPid s.pidFile = some q.pid := by
  rcases h.served i q found serving with named | ⟨j, held⟩
  · exact named
  · have held_active : (s.commands j).Active := by rcases held with held | held <;> simp [held, Command.Active]
    obtain rfl := h.lone j k held_active active
    rcases held with held | held
    · exact absurd held (idle q.pid).1
    · exact absurd held (idle q.pid).2

theorem Serves.daemon {q : Process} (serving : s.Serves q) : q.parent.isSome = true := by
  obtain ⟨-, -, k, parent, -⟩ := serving
  exact Option.isSome_of_mem parent

theorem Serves.hasEntry {q : Process} (serving : s.Serves q) : q.HasEntry q.pid :=
  ⟨rfl, by simp [serving.1]⟩

theorem Tracked.file_only (h : Tracked p s) (active : (s.commands k).Active)
    (idle : ∀ pid, s.commands k ≠ .started pid ∧ s.commands k ≠ .writing pid)
    (file : readPid s.pidFile = some pid) (i : Nat) (q : Process) (found : s.procs[i]? = some q)
    (serving : s.Serves q) : q.pid = pid :=
  Option.some.inj ((h.file_names active idle found serving).symm.trans file)

/-- No name that the number has is without the needle. -/
theorem processNameMatches_iff {needle : String} (entries : Distinct s.procs) :
    s.processNameMatches pid needle = true ↔
      ∀ (i : Nat) (q : Process), s.procs[i]? = some q → q.HasEntry pid → q.Matches needle := by
  cases first : s.procs.find? fun q => q.HasEntry pid with
  | none =>
    rw [List.find?_eq_none] at first
    simp only [processNameMatches, List.find?_eq_none.mpr first, true_iff]
    intro i q found entry
    exact absurd (by simpa using entry) (first q (List.mem_of_getElem? found))
  | some r =>
    obtain ⟨j, place⟩ := List.mem_iff_getElem?.mp (List.mem_of_find?_eq_some first)
    have there : r.HasEntry pid := by simpa using List.find?_some first
    simp only [processNameMatches, first, decide_eq_true_eq]
    constructor
    · intro right i q found entry
      obtain rfl := entries i j q r pid found place entry there
      obtain rfl := Option.some.inj (found.symm.trans place)
      exact right
    · exact fun all => all j r place there

/-- A file that names a process that is not there, or one with another name. -/
theorem Tracked.free_of_stale (h : Tracked p s) (named : Contains p.comm p.needle)
    (active : (s.commands k).Active)
    (idle : ∀ pid, s.commands k ≠ .started pid ∧ s.commands k ≠ .writing pid)
    (file : readPid s.pidFile = some pid)
    (not : s.isAlive pid = false ∨ s.processNameMatches pid p.needle = false) : s.Free := by
  intro i q found serving
  have entry : q.HasEntry pid := h.file_only active idle file i q found serving ▸ serving.hasEntry
  rcases not with gone | other
  · exact isAlive_eq_false.mp gone i q found entry
  · rw [← Bool.not_eq_true, processNameMatches_iff h.entries] at other
    apply other
    intro j r place there
    obtain rfl := h.entries i j q r pid found place entry there
    obtain rfl := Option.some.inj (found.symm.trans place)
    intro comm is
    rw [h.named i q found serving.daemon] at is
    exact Option.some.inj is ▸ named

theorem prepared_cases (call : UpCall) (running : Option UInt32) :
    (∃ failure, prepared call running = .done (.up (.error failure))) ∨
      running = none ∧ prepared call running = .starting := by
  unfold prepared
  cases ready : call.prepare running with
  | error failure => exact .inl ⟨failure, rfl⟩
  | ok start =>
    cases running with
    | none => exact .inr ⟨rfl, rfl⟩
    | some pid => exact absurd ready (call.refuses pid start)

theorem Negative.told {answer : Answer} (negative : Negative answer) (free : s.Free) :
    s.Told p k answer := by
  cases answer with
  | up result =>
    cases result with
    | ok pid => cases negative
    | error failure => trivial
  | down result =>
    cases result with
    | ok line => exact free
    | error failure => trivial
  | status running =>
    cases running with
    | some pid => cases negative
    | none => exact free

/-- What may follow where a command has found no daemon: it says so, now or later,
or it starts one, or it fails. -/
inductive Absent : Command → Prop where
  | starts : Absent .starting
  | done (answer : Answer) (negative : Negative answer) : Absent (.done answer)
  | removing (answer : Answer) (negative : Negative answer) : Absent (.removing answer)

theorem absent_prepared (call : UpCall) : Absent (prepared call none) := by
  rcases prepared_cases call none with ⟨failure, refused⟩ | ⟨-, starts⟩
  · rw [refused]
    exact .done _ trivial
  · rw [starts]
    exact .starts

theorem absent_unnamed (goal : Goal) : Absent (unnamed p goal) := by
  cases goal with
  | up call => exact absent_prepared call
  | down => exact .done _ trivial
  | status => exact .done _ trivial

theorem absent_stale (pid : UInt32) (goal : Goal) : Absent (stale p pid goal) := by
  cases goal with
  | up call => exact absent_prepared call
  | down => exact .removing _ trivial
  | status => exact .done _ trivial

/-- What is so of the command that has just stepped. -/
def Stepped (p : Program) (k : Nat) (s : Host) : Prop :=
  Tracked p s ∧ ∀ answer, s.commands k = .done answer → s.Told p k answer

/-- A step of a command while nothing serves. -/
theorem Tracked.absent {pidFile : Option String} {c : Command} (h : Tracked p s)
    (active : (s.commands k).Active) (free : s.Free) (absent : Absent c) :
    Stepped p k ⟨pidFile, s.procs, Function.update s.commands k c⟩ := by
  have still : Free ⟨pidFile, s.procs, Function.update s.commands k c⟩ :=
    fun i q found serving => free i q found (serves_before active serving)
  constructor
  · refine h.advance active ?_ fun i q found serving => absurd serving (still i q found)
    cases absent with
    | starts => exact still
    | done answer negative => trivial
    | removing answer negative => exact ⟨still, negative⟩
  · intro answer at_
    have at_ : c = .done answer := (Function.update_self _ _ _).symm.trans at_
    cases absent with
    | starts => cases at_
    | done answer' negative =>
      cases at_
      exact negative.told still
    | removing answer' negative => cases at_

/-- A step of a command that leaves the processes and the file alone, while the
file names whatever serves. -/
theorem Tracked.onward {c : Command} (h : Tracked p s) (active : (s.commands k).Active)
    (idle : ∀ pid, s.commands k ≠ .started pid ∧ s.commands k ≠ .writing pid)
    (fits : (s.setCommand k c).Fits k c)
    (told : ∀ answer, c = .done answer → (s.setCommand k c).Told p k answer) :
    Stepped p k (s.setCommand k c) := by
  constructor
  · exact h.advance active fits fun i q found serving =>
      .inl (h.file_names active idle found (serves_before active serving))
  · intro answer at_
    exact told answer ((Function.update_self _ _ _).symm.trans at_)

/-- The daemon is signalled, and serves no longer. -/
theorem Tracked.signal {answer : Answer} {i : Nat} (h : Tracked p s)
    (at_ : s.commands k = .killing pid)
    (target : s.procs.findIdx? (fun q => q.HasEntry pid) = some i)
    (negative : Negative answer) :
    Stepped p k { s.setCommand k (.removing answer) with procs := s.procs.modify i Process.signal } := by
  have active : (s.commands k).Active := by rw [at_]; trivial
  have file : readPid s.pidFile = some pid := by simpa [at_, Fits] using h.fits k
  obtain ⟨inside, entry, -⟩ := List.findIdx?_eq_some_iff_getElem.mp target
  simp only [decide_eq_true_eq] at entry
  have less : Lessens s.procs (s.procs.modify i Process.signal) :=
    lessens_modify fun q _ => fades_signal q
  have tracked : Tracked p ⟨s.pidFile, s.procs.modify i Process.signal, s.commands⟩ := by
    refine h.fewer less fun j q k' found _ _ there => ?_
    refine ⟨if i = j then q.signal else q, ?_, ?_⟩
    · rw [List.getElem?_modify, found]
      rfl
    · split <;> exact there
  have free : Free ⟨s.pidFile, s.procs.modify i Process.signal, s.commands⟩ := by
    intro j q found serving
    obtain ⟨r, was, fades⟩ := less j q found
    obtain ⟨running, unsignalled⟩ := fades.running serving.1 serving.2.1
    have served : s.Serves r := ⟨running, unsignalled, fades.parent ▸ serving.2.2⟩
    have named := h.file_names active (by simp [at_]) was served
    have same : pid = r.pid := Option.some.inj (file.symm.trans named)
    obtain rfl := h.entries i j _ r pid (List.getElem?_eq_getElem inside) was entry
      (same ▸ served.hasEntry)
    rw [List.getElem?_modify_eq, was] at found
    cases found
    exact absurd serving.2.1 (by simp [Process.signal])
  exact tracked.absent active free (.removing _ negative)

/-- The child, which no other process can be taken for. -/
theorem Tracked.start {child : UInt32} (h : Tracked p s) (at_ : s.commands k = .starting)
    (free : s.isAlive child = false) :
    Stepped p k { s.setCommand k (.started child) with
      procs := s.procs ++ [⟨child, some p.comm, some .running, some k, false⟩] } := by
  have active : (s.commands k).Active := by rw [at_]; trivial
  have alone : s.Free := by simpa [at_, Fits] using h.fits k
  constructor
  · constructor
    · exact lone_update h.lone active
    · exact h.entries.new free
    · intro i q found daemon
      rcases getElem?_new found with old | ⟨rfl, rfl⟩
      · exact h.named i q old daemon
      · rfl
    · intro i q found serving
      rcases getElem?_new found with old | ⟨rfl, rfl⟩
      · exact absurd (serves_before active serving) (alone i q old)
      · exact .inr ⟨k, .inl (Function.update_self _ _ _)⟩
    · refine fits_update h.lone active rfl ⟨fun i q found serving => ?_, s.procs.length, _,
        List.getElem?_concat_length, ⟨rfl, rfl⟩, rfl⟩
      rcases getElem?_new found with old | ⟨rfl, rfl⟩
      · exact absurd (serves_before active serving) (alone i q old)
      · rfl
  · intro answer done
    have done : Command.started child = .done answer := (Function.update_self _ _ _).symm.trans done
    cases done

/-- An `up` that fails answers for no daemon. -/
theorem Tracked.unwritten {child : UInt32} {failure : Failure} {pidFile : Option String}
    (h : Tracked p s) (at_ : s.commands k = .started child ∨ s.commands k = .writing child) :
    Stepped p k { s.setCommand k (.done (.up (.error failure))) with pidFile } := by
  have active : (s.commands k).Active := by rcases at_ with at_ | at_ <;> rw [at_] <;> trivial
  obtain ⟨only, j, r, place, entry, mine⟩ :
      (∀ (i : Nat) (q : Process), s.procs[i]? = some q → s.Serves q → q.pid = child) ∧
        s.ChildOf k child := by
    have fits := h.fits k
    rcases at_ with at_ | at_ <;> simpa only [at_, Fits] using fits
  constructor
  · refine h.advance active trivial fun i q found serving => ?_
    have served := serves_before active serving
    have pid := only i q found served
    obtain rfl := h.entries i j q r child found place (pid ▸ served.hasEntry) entry
    obtain rfl := Option.some.inj (found.symm.trans place)
    obtain ⟨-, -, k', parent, unrefused⟩ := serving
    obtain rfl := Option.some.inj (mine.symm.trans parent)
    exact absurd (Function.update_self _ _ _) (unrefused failure)
  · intro answer done
    have done : Command.done (.up (.error failure)) = .done answer :=
      (Function.update_self _ _ _).symm.trans done
    cases done
    trivial

theorem Tracked.write {child : UInt32} (h : Tracked p s) (at_ : s.commands k = .writing child) :
    Stepped p k
      { s.setCommand k (.sleeping child) with pidFile := some (toString child) } := by
  have active : (s.commands k).Active := by rw [at_]; trivial
  obtain ⟨only, mine⟩ := by simpa only [at_, Fits] using h.fits k
  have file := readPid_toString child
  constructor
  · refine h.advance active ⟨file, mine⟩ fun i q found serving => .inl ?_
    rw [file, only i q found (serves_before active serving)]
  · intro answer done
    have done : Command.sleeping child = .done answer := (Function.update_self _ _ _).symm.trans done
    cases done

theorem Tracked.open_ {child : UInt32} (h : Tracked p s) (at_ : s.commands k = .started child) :
    Stepped p k { s.setCommand k (.writing child) with pidFile := some "" } := by
  have active : (s.commands k).Active := by rw [at_]; trivial
  obtain ⟨only, mine⟩ := by simpa only [at_, Fits] using h.fits k
  have only (i : Nat) (q : Process) (found : s.procs[i]? = some q)
      (serving : Serves ⟨some "", s.procs, Function.update s.commands k (.writing child)⟩ q) :
      q.pid = child := only i q found (serves_before active serving)
  constructor
  · refine h.advance active ⟨only, mine⟩ fun i q found serving => .inr ?_
    rw [only i q found serving]
  · intro answer done
    have done : Command.writing child = .done answer := (Function.update_self _ _ _).symm.trans done
    cases done

theorem found_told (goal : Goal) (pid : UInt32) (t : Host)
    (told : t.Told p k (.status (some pid))) :
    t.Fits k (found pid goal) ∧ ∀ answer, found pid goal = .done answer → t.Told p k answer := by
  cases goal with
  | up call =>
    have next : found pid (.up call) = prepared call (some pid) := rfl
    rcases prepared_cases call (some pid) with ⟨failure, refused⟩ | ⟨none, -⟩
    · rw [next, refused]
      refine ⟨trivial, fun answer done => ?_⟩
      cases done
      trivial
    · cases none
  | down =>
    refine ⟨told.1, fun answer done => ?_⟩
    cases done
  | status =>
    refine ⟨trivial, fun answer done => ?_⟩
    cases done
    exact told

/-- What a command does keeps the file right, and its answer is true when it comes. -/
theorem tracked_poll (named : Contains p.comm p.needle) (h : Tracked p s)
    (polls : Polls p s k o s') : Stepped p k s' := by
  have fits := h.fits k
  have active := polls.active
  cases polls with
  | @unnamed goal at_ file =>
    refine h.absent active (fun i q found serving => ?_) (absent_unnamed goal)
    have names := h.file_names active (by simp [at_]) found serving
    rw [file] at names
    cases names
  | named at_ file =>
    exact h.onward active (by simp [at_]) file (by simp)
  | seen at_ alive =>
    rw [at_] at fits
    exact h.onward active (by simp [at_]) fits (by simp)
  | @unseen goal pid at_ alive =>
    rw [at_] at fits
    exact h.absent active (h.free_of_stale named active (by simp [at_]) fits (.inl alive))
      (absent_stale pid goal)
  | @found goal pid at_ same =>
    rw [at_] at fits
    have idle : ∀ pid, s.commands k ≠ .started pid ∧ s.commands k ≠ .writing pid := by simp [at_]
    have named := (processNameMatches_iff h.entries).mp same
    have only := h.file_only active idle fits
    obtain ⟨fits', told⟩ := found_told goal pid (s.setCommand k (Host.found pid goal))
      ⟨fits, named, fun i q found serving => only i q found (serves_before active serving)⟩
    exact h.onward active idle fits' told
  | @other goal pid at_ same =>
    rw [at_] at fits
    exact h.absent active (h.free_of_stale named active (by simp [at_]) fits (.inr same))
      (absent_stale pid goal)
  | unstarted at_ =>
    rw [at_] at fits
    exact h.absent active fits (.done _ trivial)
  | started at_ free => exact h.start at_ free
  | opened at_ => exact h.open_ at_
  | unwritten at_ => exact h.unwritten at_
  | written at_ => exact h.write at_
  | @stands child at_ alive =>
    rw [at_] at fits
    have idle : ∀ pid, s.commands k ≠ .started pid ∧ s.commands k ≠ .writing pid := by simp [at_]
    refine h.onward active idle trivial fun answer done => ?_
    cases done
    obtain ⟨file, i, q, found, entry, parent⟩ := fits
    have only := h.file_only active idle file
    refine ⟨file, ⟨i, q, found, entry, parent, fun running unsignalled => ?_⟩,
      fun i q found serving => only i q found (serves_before active serving)⟩
    refine ⟨running, unsignalled, k, parent, fun failure refused => ?_⟩
    cases (commands_setCommand _).symm.trans refused
  | gone at_ alive =>
    rw [at_] at fits
    obtain ⟨-, i, q, found, entry, -⟩ := fits
    exact absurd entry (isAlive_eq_false.mp alive i q found)
  | refused at_ =>
    refine h.onward active (by simp [at_]) trivial fun answer done => ?_
    cases done
    trivial
  | signalled at_ target => exact h.signal at_ target trivial
  | removed at_ | left at_ =>
    rw [at_] at fits
    exact h.absent active fits.1 (.done _ fits.2)

/-- A command starts while no other one is running. -/
theorem Tracked.begin_ {goal : Goal} (h : Tracked p s) (idle : s.commands k = .idle)
    (lone : ∀ j, ¬ (s.commands j).Active) : Tracked p (s.setCommand k (.reading goal)) := by
  have others {j : Nat} (other : j ≠ k) : (s.setCommand k (.reading goal)).commands j = s.commands j :=
    Function.update_of_ne other _ _
  have only {j : Nat} (active : ((s.setCommand k (.reading goal)).commands j).Active) : j = k := by
    by_contra other
    rw [others other] at active
    exact lone j active
  refine ⟨fun i j first second => (only first).trans (only second).symm, h.entries, h.named, ?_, ?_⟩
  · rintro i q found ⟨running, unsignalled, k', parent, unrefused⟩
    have served : s.Serves q := by
      refine ⟨running, unsignalled, k', parent, fun failure refused => ?_⟩
      have other : k' ≠ k := by
        rintro rfl
        rw [idle] at refused
        cases refused
      exact unrefused failure ((others other).trans refused)
    rcases h.served i q found served with names | ⟨j, held⟩
    · exact .inl names
    · exact absurd (by rcases held with held | held <;> rw [held] <;> trivial) (lone j)
  · intro j
    by_cases same : j = k
    · subst same
      have at_ : (s.setCommand j (.reading goal)).commands j = .reading goal := Function.update_self _ _ _
      rw [at_]
      trivial
    · rw [others same]
      exact fits_inactive (lone j)

theorem tracked_step {e : Event} (named : Contains p.comm p.needle) (h : Tracked p s)
    (lone : Lone s e) (stepped : step p s e = some (o, s')) :
    Tracked p s' ∧ ∀ k r, e = .poll k r → ∀ answer, s'.commands k = .done answer →
      s'.Told p k answer := by
  cases e with
  | fork pid comm =>
    refine ⟨?_, by simp⟩
    simp only [step] at stepped
    split at stepped
    · cases stepped
    · cases stepped
      exact h.fork (Bool.eq_false_iff.mpr ‹_›)
  | exit i =>
    refine ⟨?_, by simp⟩
    cases found : s.procs[i]? with
    | none => simp [step, found] at stepped
    | some q =>
      simp only [step, found, Option.bind_eq_bind, Option.bind_some] at stepped
      split at stepped
      · cases stepped
        exact h.fade found (fades_exited ‹_›) fun _ => rfl
      · cases stepped
  | reap i =>
    refine ⟨?_, by simp⟩
    cases found : s.procs[i]? with
    | none => simp [step, found] at stepped
    | some q =>
      simp only [step, found, Option.bind_eq_bind, Option.bind_some] at stepped
      split at stepped
      · rename_i zombie
        cases stepped
        exact h.fade found (fades_reaped q) fun kept => absurd kept zombie.2
      · cases stepped
  | start k goal =>
    refine ⟨?_, by simp⟩
    cases at_ : s.commands k with
    | idle =>
      simp only [step, at_] at stepped
      cases stepped
      exact h.begin_ at_ lone
    | _ => simp [step, at_] at stepped
  | poll k r =>
    obtain ⟨tracked, told⟩ := tracked_poll named h (poll_spec stepped)
    refine ⟨tracked, fun k' r' same answer done => ?_⟩
    cases same
    exact told answer done

theorem tracked_boot (pidFile : Option String) : Tracked p (boot pidFile) where
  lone j k active := absurd active id
  entries i j q q' pid found := by cases found
  named i q found := by cases found
  served i q found := by cases found
  fits k := trivial

theorem run_tracked {pidFile : Option String} {tr : Trace} (named : Contains p.comm p.needle)
    (run : Run (step p) (boot pidFile) tr s) (lone : Always (step p) (boot pidFile) Lone tr) :
    Tracked p s :=
  run.invariant_always lone (tracked_boot pidFile) fun h alone stepped =>
    (tracked_step named h alone stepped).1

/-- As long as the commands come one at a time, at most one daemon serves for
which an `up` has answered, and unless an `up` has just started it the file has its
pid; and when a command answers, what it answers is told by the file and by the
processes that are there. -/
theorem daemon_tracked (p : Program) (named : Contains p.comm p.needle) (pidFile : Option String)
    (tr : Trace) (s : Host) (run : Run (step p) (boot pidFile) tr s)
    (lone : Always (step p) (boot pidFile) Lone tr) :
    (∀ (i j : Nat) (q q' : Process), s.procs[i]? = some q → s.procs[j]? = some q' → s.Serves q →
      s.Serves q' → i = j) ∧
    (∀ (i : Nat) (q : Process), s.procs[i]? = some q → s.Serves q →
      readPid s.pidFile = some q.pid ∨ s.Holds q.pid) ∧
    ∀ before k r o answer, tr = before ++ [(.poll k r, o)] → s.commands k = .done answer →
      s.Told p k answer := by
  have tracked := run_tracked named run lone
  refine ⟨?_, tracked.served, ?_⟩
  · intro i j q q' found found' serving serving'
    have same : q.pid = q'.pid := by
      by_cases held : ∃ pid, s.Holds pid
      · obtain ⟨pid, k, at_⟩ := held
        have only : ∀ (i : Nat) (q : Process), s.procs[i]? = some q → s.Serves q → q.pid = pid := by
          have fits := tracked.fits k
          rcases at_ with at_ | at_ <;> rw [at_] at fits <;> exact fits.1
        exact (only i q found serving).trans (only j q' found' serving').symm
      · have names {i : Nat} {q : Process} (found : s.procs[i]? = some q) (serving : s.Serves q) :
            readPid s.pidFile = some q.pid :=
          (tracked.served i q found serving).resolve_right fun holds => held ⟨_, holds⟩
        exact Option.some.inj ((names found serving).symm.trans (names found' serving'))
    exact tracked.entries i j q q' q'.pid found found' (same ▸ serving.hasEntry) serving'.hasEntry
  · rintro before k r o answer rfl done
    obtain ⟨m, left, stepped⟩ := run.last_step
    exact (tracked_step named (run_tracked named left lone.prefix) (lone.last left) stepped).2 k r rfl
      answer done

/-! A start that nothing comes between. -/

theorem step_opens {r : Reply} {child : UInt32} (at_ : s.commands k = .started child)
    (opened : ∀ error, r.outcomes.write ≠ .notOpened error) : step p s (.poll k r) =
      some (none, { s.setCommand k (.writing child) with pidFile := some "" }) := by
  cases write : r.outcomes.write with
  | notOpened error => exact absurd write (opened error)
  | done | cut _ _ => simp only [step, poll, at_, write]

theorem step_sleeping {r : Reply} {child : UInt32} (at_ : s.commands k = .sleeping child)
    (alive : s.isAlive child = true) : step p s (.poll k r) =
      some (none, s.setCommand k (.done (.up (.ok child)))) := by
  simp only [step, poll, at_, alive, if_true]

theorem step_writing {r : Reply} {child : UInt32} (at_ : s.commands k = .writing child)
    (opened : ∀ error, r.outcomes.write ≠ .notOpened error) : step p s (.poll k r) =
      some (none, s.wrote k child (writePid r.outcomes.write p.pidPath child ⟨0, s.pidFile, none⟩)) := by
  cases write : r.outcomes.write with
  | notOpened error => exact absurd write (opened error)
  | done | cut _ _ => simp only [step, poll, at_, write]

/-- `spawn_daemon` by itself, which is over when its steps are. -/
theorem spawn_alone (p : Program) (r : Reply) (s : Host) (k : Nat) (at_ : s.commands k = .starting)
    (free : ∀ child, startChild r.outcomes p.logPath = .ok child → s.isAlive child.pid = false) :
    ∃ tr t, Run (step p) s tr t ∧ (∀ e ∈ tr, e = (.poll k r, none)) ∧
      t.commands k = .done (.up ((spawnDaemon r.outcomes p.pidPath p.logPath s.pidFile).1.mapError
        ofChain)) ∧
      t.pidFile = (spawnDaemon r.outcomes p.pidPath p.logPath s.pidFile).2.pidFile := by
  cases started : startChild r.outcomes p.logPath with
  | error chain =>
    have stepped : step p s (.poll k r) =
        some (none, s.setCommand k (.done (.up (.error (ofChain chain))))) := by
      simp only [step, poll, at_, started]
    exact ⟨_, _, .single stepped, by simp, by simp [commands_setCommand, spawnDaemon, started, Except.mapError],
      by simp [setCommand, spawnDaemon, started]⟩
  | ok child =>
    have unused := free child started
    have first : step p s (.poll k r) = some (none, { s.setCommand k (.started child.pid) with
        procs := s.procs ++ [⟨child.pid, some p.comm, some .running, some k, false⟩] }) := by
      simp [step, poll, at_, started, unused]
    generalize now : ({ s.setCommand k (.started child.pid) with
        procs := s.procs ++ [⟨child.pid, some p.comm, some .running, some k, false⟩] } : Host) = m
      at first
    have there : m.commands k = .started child.pid := by rw [← now]; exact commands_setCommand _
    have file : m.pidFile = s.pidFile := by rw [← now]; rfl
    have alive : m.isAlive child.pid = true := by rw [← now]; simp [isAlive, Process.HasEntry]
    cases write : r.outcomes.write with
    | notOpened error =>
      have second : step p m (.poll k r) = some (none, m.wrote k child.pid
          (writePid (.notOpened error) p.pidPath child.pid ⟨0, m.pidFile, none⟩)) := by
        simp only [step, poll, there, write]
      refine ⟨_, _, (Run.single first).snoc second, by simp, ?_, ?_⟩
      · simp [wrote, writePid, commands_setCommand, spawnDaemon, started, write, Except.mapError]
      · simp [wrote, writePid, spawnDaemon, started, write, file]
    | cut written error =>
      have second := step_opens (p := p) (r := r) there (by simp [write])
      have third := step_writing (p := p) (r := r)
        (s := { m.setCommand k (.writing child.pid) with pidFile := some "" })
        (commands_setCommand _) (by simp [write])
      refine ⟨_, _, ((Run.single first).snoc second).snoc third, by simp, ?_, ?_⟩
      · simp [write, wrote, writePid, commands_setCommand, spawnDaemon, started, Except.mapError]
      · simp [write, wrote, writePid, spawnDaemon, started]
    | done =>
      have second := step_opens (p := p) (r := r) there (by simp [write])
      have third := step_writing (p := p) (r := r)
        (s := { m.setCommand k (.writing child.pid) with pidFile := some "" })
        (commands_setCommand _) (by simp [write])
      rw [write] at third
      have fourth := step_sleeping (p := p) (r := r)
        (s := Host.wrote { m.setCommand k (.writing child.pid) with pidFile := some "" } k child.pid
          (writePid .done p.pidPath child.pid ⟨0, some "", none⟩)) (commands_setCommand _) alive
      refine ⟨_, _, (((Run.single first).snoc second).snoc third).snoc fourth, by simp, ?_, ?_⟩
      · simp [commands_setCommand, spawnDaemon, started, write, writePid, isAlive_child, Except.mapError]
      · simp [setCommand, wrote, spawnDaemon, started, write, writePid, isAlive_child]

/-! A run of a few commands. -/

/-- A command stands where it stood unless the step is its own. -/
theorem step_commands {e : Event} (h : step p s e = some (o, s')) (k : Nat) :
    s'.commands k = s.commands k ∨ (∃ goal, s'.commands k = .reading goal ∧ e = .start k goal) ∨
      ∃ r, e = .poll k r := by
  cases e with
  | fork pid comm =>
    simp only [step] at h
    split at h
    · cases h
    · cases h
      exact .inl rfl
  | exit i | reap i =>
    cases found : s.procs[i]? with
    | none => simp [step, found] at h
    | some q =>
      simp only [step, found, Option.bind_eq_bind, Option.bind_some] at h
      split at h
      · cases h
        exact .inl rfl
      · cases h
  | start j goal =>
    cases at_ : s.commands j with
    | idle =>
      simp only [step, at_] at h
      cases h
      by_cases same : k = j
      · subst same
        exact .inr (.inl ⟨goal, Function.update_self _ _ _, rfl⟩)
      · exact .inl (Function.update_of_ne same _ _)
    | _ => simp [step, at_] at h
  | poll j r =>
    by_cases same : k = j
    · subst same
      exact .inr (.inr ⟨r, rfl⟩)
    · left
      cases poll_spec h <;> exact Function.update_of_ne same _ _

/-- The command is one of the first `n`, and is started when none of these is running. -/
def LoneBelow (n : Nat) (s : Host) : Event → Prop
  | .start k _ => k < n ∧ ∀ j, j < n → ¬ (s.commands j).Active
  | .fork _ _ | .exit _ | .reap _ | .poll _ _ => True

instance (n : Nat) (s : Host) : (e : Event) → Decidable (LoneBelow n s e)
  | .start _ _ => @instDecidableAnd _ _ _ (Nat.decidableBallLT n _)
  | .fork _ _ | .exit _ | .reap _ | .poll _ _ => .isTrue trivial

theorem lone_of_below {n : Nat} (run : Run (step p) init tr s)
    (fresh : ∀ k, init.commands k = .idle) (below : Always (step p) init (LoneBelow n) tr) :
    Always (step p) init Lone tr := by
  have all : Always (step p) init Lone tr ∧ ∀ j, n ≤ j → ¬ (s.commands j).Active := by
    induction run with
    | nil =>
      refine ⟨fun before i o after m split => ?_, fun j _ => by rw [fresh]; exact id⟩
      simp at split
    | @snoc tr m e o s left stepped ih =>
      obtain ⟨earlier, beyond⟩ := ih below.prefix
      have last := below.last left
      constructor
      · refine (Always.snoc_iff left).mpr ⟨earlier, ?_⟩
        cases e with
        | start k goal => exact fun j => (Nat.lt_or_ge j n).elim (last.2 j) (beyond j)
        | fork _ _ | exit _ | reap _ | poll _ _ => trivial
      · intro j far
        have idle := beyond j far
        rcases step_commands stepped j with same | ⟨goal, -, rfl⟩ | ⟨r, rfl⟩
        · rwa [same]
        · exact absurd last.1 (Nat.not_lt.mpr far)
        · exact absurd (poll_spec stepped).active idle
  exact all.1

def sampleReply : Reply :=
  ⟨⟨.ok (), .ok (), .ok (), .ok ⟨4242, none⟩, .done, 5, 0, .ok ()⟩, .ok true⟩

def sampleProgram : Program := hyperionServer "hyperion.pid" "hyperion.log"

def sampleUp : UpCall :=
  Server.upCall sampleEnvironment "server.toml" (some (.ok (sampleServer (some "SECRET"))))

/-- The daemon is started and stopped, and then there is none. -/
def sampleEvents : List Event :=
  let poll k := .poll k sampleReply
  [.fork 1 (some "init\n"), .start 0 (.up sampleUp), poll 0, poll 0, poll 0, poll 0, poll 0,
   .start 1 .down, poll 1, poll 1, poll 1, poll 1, .exit 1, poll 1, .reap 1, .start 2 .status, poll 2]

theorem daemon_tracked_sample : ∃ tr s,
    Run (step sampleProgram) (boot none) tr s ∧ tr.map Prod.fst = sampleEvents ∧
      s.procs.length = 2 ∧ s.commands 2 = .done (.status none) ∧ s.Free := by
  obtain ⟨⟨tr, s⟩, h, count, last, answer, lone⟩ : ∃ result,
      exec (step sampleProgram) (boot none) sampleEvents = some result ∧
        result.2.procs.length = 2 ∧
        result.1 = result.1.dropLast ++ [(.poll 2 sampleReply, none)] ∧
        result.2.commands 2 = .done (.status none) ∧
        checkAll (step sampleProgram) (LoneBelow 3) (boot none) sampleEvents = true :=
    ⟨_, rfl, rfl, rfl, rfl, by decide +kernel⟩
  obtain ⟨run, inputs⟩ := exec_run h
  have alone := lone_of_below run (fun _ => rfl) (.of_checkAll lone run inputs)
  obtain ⟨-, -, told⟩ := daemon_tracked sampleProgram (by decide +kernel) none tr s run alone
  exact ⟨tr, s, run, inputs, count, answer, told _ _ _ _ _ last answer⟩

end HyperionVpn.Common.Host
