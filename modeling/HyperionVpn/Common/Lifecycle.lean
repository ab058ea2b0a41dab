import HyperionVpn.Common.Daemon
import HyperionVpn.Common.Up
import HyperionVpn.Lib.Machine

/-! `up`, `down` and `status` of one of the two programs, any number of them at
once, among all the other processes of a Linux host. A step is one access to what
they share, the pid file and the processes. -/
namespace HyperionVpn.Common
open Client

/-- What the commands are given by the program that they belong to. -/
structure Program where
  needle : String
  label : String
  pidPath : String
  logPath : String
  /-- The name under /proc of a process that runs it. -/
  comm : String

/-- What `up` does up to the start of a daemon, given what is running already. -/
structure UpCall where
  prepare : Option UInt32 → Anyhow Start
  refuses : ∀ pid s, prepare (some pid) ≠ .ok s

inductive Goal where
  | up (call : UpCall)
  | down
  | status

inductive Answer where
  | up (result : Anyhow UInt32)
  /-- With the line that is printed. -/
  | down (result : Anyhow String)
  | status (running : Option UInt32)

/-- Where a command stands. -/
inductive Command where
  | idle
  | reading (goal : Goal)
  | looking (goal : Goal) (pid : UInt32)
  | matching (goal : Goal) (pid : UInt32)
  | starting
  | started (child : UInt32)
  /-- The pid file is open and empty. -/
  | writing (child : UInt32)
  | sleeping (child : UInt32)
  | killing (pid : UInt32)
  /-- What `remove_file` answers is dropped. -/
  | removing (answer : Answer)
  | done (answer : Answer)

def Command.Active : Command → Prop
  | .idle | .done _ => False
  | .reading _ | .looking _ _ | .matching _ _ | .starting | .started _ | .writing _ | .sleeping _
  | .killing _ | .removing _ => True

instance : (c : Command) → Decidable c.Active
  | .idle | .done _ => .isFalse id
  | .reading _ | .looking _ _ | .matching _ _ | .starting | .started _ | .writing _ | .sleeping _
  | .killing _ | .removing _ => .isTrue trivial

structure Process where
  pid : UInt32
  /-- `none` where the name is no text. -/
  comm : Option String
  /-- `none` once it has been waited for. -/
  state : Option ProcState
  /-- The `up` whose daemon it is. -/
  parent : Option Nat
  signalled : Bool
  deriving DecidableEq, Repr

def Process.HasEntry (q : Process) (pid : UInt32) : Prop := q.pid = pid ∧ q.state.isSome = true

instance (q : Process) (pid : UInt32) : Decidable (q.HasEntry pid) :=
  inferInstanceAs (Decidable (_ ∧ _))

def Process.exited (q : Process) : Process := { q with state := some .zombie }

def Process.reaped (q : Process) : Process := { q with state := none }

def Process.signal (q : Process) : Process := { q with signalled := true }

/-- `contains` on strings. -/
def Contains (s pattern : String) : Prop := pattern.toList <:+: s.toList

instance (s pattern : String) : Decidable (Contains s pattern) :=
  inferInstanceAs (Decidable (_ <:+: _))

/-- A name that cannot be read is taken for the right one. -/
def Process.Matches (q : Process) (needle : String) : Prop := ∀ comm ∈ q.comm, Contains comm needle

instance (q : Process) (needle : String) : Decidable (q.Matches needle) :=
  inferInstanceAs (Decidable (∀ comm ∈ q.comm, _))

/-- The processes are numbered in the order in which they came into being. -/
structure Host where
  pidFile : Option String
  procs : List Process
  commands : Nat → Command

namespace Host

def setCommand (s : Host) (k : Nat) (c : Command) : Host :=
  { s with commands := Function.update s.commands k c }

def isAlive (s : Host) (pid : UInt32) : Bool := s.procs.any fun q => q.HasEntry pid

/-- The entry may have gone since it was seen. -/
def processNameMatches (s : Host) (pid : UInt32) (needle : String) : Bool :=
  match s.procs.find? fun q => q.HasEntry pid with
  | some q => q.Matches needle
  | none => true

/-- What the system answers to the next call of a command. -/
structure Reply where
  outcomes : Outcomes
  /-- How `kill -TERM` ends, if it could be run. -/
  kill : Except String Bool

inductive Event where
  | fork (pid : UInt32) (comm : Option String)
  | exit (process : Nat)
  | reap (process : Nat)
  | start (command : Nat) (goal : Goal)
  | poll (command : Nat) (reply : Reply)

/-- The process that is sent a signal. -/
abbrev Output := Option Nat

abbrev Trace := List (Event × Output)

def ofChain (chain : Chain) : Failure := .error chain

/-- What follows on `running_pid` in `up`. -/
def prepared (call : UpCall) (running : Option UInt32) : Command :=
  match call.prepare running with
  | .error failure => .done (.up (.error failure))
  | .ok _ => .starting

/-- The pid file names no process. -/
def unnamed (p : Program) : Goal → Command
  | .up call => prepared call none
  | .down => .done (.down (.ok s!"{p.label} is not running (no pid file)"))
  | .status => .done (.status none)

/-- The process that it names is not there, or it is another one. -/
def stale (p : Program) (pid : UInt32) : Goal → Command
  | .up call => prepared call none
  | .down => .removing (.down (.ok s!"{p.label} was not running (cleaned up stale pid {pid})"))
  | .status => .done (.status none)

def found (pid : UInt32) : Goal → Command
  | .up call => prepared call (some pid)
  | .down => .killing pid
  | .status => .done (.status (some pid))

/-- What follows on `write_pid`. -/
def wrote (s : Host) (k : Nat) (child : UInt32) : Except Chain Unit × World → Host
  | (.error chain, w) =>
    { s.setCommand k (.done (.up (.error (ofChain chain)))) with pidFile := w.pidFile }
  | (.ok (), w) => { s.setCommand k (.sleeping child) with pidFile := w.pidFile }

/-- The next step of a command. -/
def poll (p : Program) (s : Host) (k : Nat) (r : Reply) : Option (Output × Host) :=
  match s.commands k with
  | .idle | .done _ => none
  | .reading goal =>
    match readPid s.pidFile with
    | none => some (none, s.setCommand k (unnamed p goal))
    | some pid => some (none, s.setCommand k (.looking goal pid))
  | .looking goal pid =>
    if s.isAlive pid then some (none, s.setCommand k (.matching goal pid))
    else some (none, s.setCommand k (stale p pid goal))
  | .matching goal pid =>
    if s.processNameMatches pid p.needle then some (none, s.setCommand k (found pid goal))
    else some (none, s.setCommand k (stale p pid goal))
  | .starting =>
    match startChild r.outcomes p.logPath with
    | .error chain => some (none, s.setCommand k (.done (.up (.error (ofChain chain)))))
    | .ok child =>
      -- The number of a new process is one that no other has.
      if s.isAlive child.pid then none
      else some (none, { s.setCommand k (.started child.pid) with
        procs := s.procs ++ [⟨child.pid, some p.comm, some .running, some k, false⟩] })
  | .started child =>
    match r.outcomes.write with
    | .notOpened error =>
      some (none, s.wrote k child (writePid (.notOpened error) p.pidPath child ⟨0, s.pidFile, none⟩))
    | .done | .cut _ _ => some (none, { s.setCommand k (.writing child) with pidFile := some "" })
  | .writing child =>
    match r.outcomes.write with
    | .notOpened _ => none
    | outcome => some (none, s.wrote k child (writePid outcome p.pidPath child ⟨0, s.pidFile, none⟩))
  | .sleeping child =>
    if s.isAlive child then some (none, s.setCommand k (.done (.up (.ok child))))
    else some (none, s.setCommand k (.removing (.up (.error (.error
      [s!"daemon exited immediately — check the log:\n  {p.logPath}"])))))
  | .killing pid =>
    match r.kill with
    | .error error => some (none, s.setCommand k (.done (.down (.error (.error ["running kill", error])))))
    | .ok false =>
      some (none, s.setCommand k (.done (.down (.error (.error [s!"kill failed for pid {pid}"])))))
    | .ok true => do
      let i ← s.procs.findIdx? fun q => q.HasEntry pid
      return (some i, { s.setCommand k
          (.removing (.down (.ok s!"{p.label} down (stopped pid {pid})"))) with
        procs := s.procs.modify i Process.signal })
  | .removing answer =>
    match r.outcomes.removeFile with
    | .ok () => some (none, { s.setCommand k (.done answer) with pidFile := none })
    | .error _ => some (none, s.setCommand k (.done answer))

/-- Whether somebody else than init is to wait for the process. -/
def Kept (s : Host) (q : Process) : Prop := ∃ k ∈ q.parent, (s.commands k).Active

instance (s : Host) (q : Process) : Decidable (s.Kept q) :=
  decidable_of_iff (q.parent.any fun k => (s.commands k).Active) (by simp [Kept, Option.any_eq_true])

def step (p : Program) (s : Host) : Event → Option (Output × Host)
  | .fork pid comm =>
    if s.isAlive pid then none
    else some (none, { s with procs := s.procs ++ [⟨pid, comm, some .running, none, false⟩] })
  | .exit i => do
    let q ← s.procs[i]?
    if q.state = some .running then
      return (none, { s with procs := s.procs.modify i Process.exited })
    else none
  | .reap i => do
    let q ← s.procs[i]?
    -- `up` does not wait for its child, which init inherits when `up` ends.
    if q.state = some .zombie ∧ ¬ s.Kept q then
      return (none, { s with procs := s.procs.modify i Process.reaped })
    else none
  | .start k goal =>
    match s.commands k with
    | .idle => some (none, s.setCommand k (.reading goal))
    | _ => none
  | .poll k r => s.poll p k r

/-- Before any command, with whatever else is running and whatever is in the file. -/
def boot (pidFile : Option String) : Host := ⟨pidFile, [], fun _ => .idle⟩

end Host

/-! The two programs. -/

def hyperionClient (pidPath logPath : String) : Program :=
  ⟨"hyperion", "hyperion", pidPath, logPath, "hyperion-client\n"⟩

def hyperionServer (pidPath logPath : String) : Program :=
  ⟨"hyperion", "hyperion-server", pidPath, logPath, "hyperion-server\n"⟩

end Common

open Client

/-- `up`, other than in the foreground, where no daemon is started. -/
def Client.upCall (env : Environment) (configPath : String)
    (config : Option (Anyhow Client.FileConfig)) : Common.UpCall where
  prepare running := Client.up env configPath config running false
  refuses := by
    intro pid s
    cases config with
    | none => simp [Client.up, bail]
    | some file =>
      simp only [Client.up]
      generalize context "reading config" _ = summary
      cases summary with
      | error failure => simp [bind, Except.bind]
      | ok summary =>
        simp only [bind, Except.bind]
        split <;> simp [bail]

def Server.upCall (env : Environment) (configPath : String)
    (config : Option (Anyhow Server.FileConfig)) : Common.UpCall where
  prepare running := Server.up env configPath config running false
  refuses := by
    intro pid s
    cases config with
    | none => simp [Server.up, bail]
    | some file =>
      simp only [Server.up]
      generalize context "reading config" _ = summary
      cases summary with
      | error failure => simp [bind, Except.bind]
      | ok summary =>
        simp only [bind, Except.bind]
        split <;> simp [bail]

end HyperionVpn
