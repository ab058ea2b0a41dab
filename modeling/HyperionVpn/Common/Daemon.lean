import HyperionVpn.Core.Keys
import HyperionVpn.Lib.Digits

/-! How `up` starts the daemon, on Linux: the child, its entry under /proc, and
the pid file. Nobody waits for the child, so it stays a zombie once it exits. -/
namespace HyperionVpn.Common
open Text

/-- An error with the messages of its chain, outermost first. -/
abbrev Chain := List String

/-- The moments are milliseconds after the child was started. -/
structure Child where
  pid : UInt32
  exit : Option Nat
  deriving DecidableEq, Repr

inductive ProcState where
  | running
  | zombie
  deriving DecidableEq, Repr

/-- An entry under /proc goes when the parent has waited for the process. -/
def ProcState.hasEntry : ProcState → Bool
  | running => true
  | zombie => true

def Child.state (child : Child) (now : Nat) : ProcState :=
  match child.exit with
  | some exit => if exit ≤ now then .zombie else .running
  | none => .running

structure World where
  now : Nat
  pidFile : Option String
  child : Option Child
  deriving DecidableEq, Repr

def isAlive (w : World) (pid : UInt32) : Bool :=
  w.child.any fun child => child.pid = pid && (child.state w.now).hasEntry

/-! The pid file. -/

/-- `parse` on a `u32`, which takes a sign. -/
def parseU32 (s : String) : Option UInt32 :=
  let digits := match s.toList with
    | '+' :: digits => digits
    | digits => digits
  (parseWith (readNumber 10 none true 4294967295) (String.ofList digits)).map UInt32.ofNat

/-- A file that is no text is taken as one that is not there. -/
def readPid (pidFile : Option String) : Option UInt32 :=
  pidFile.bind fun contents => parseU32 (trim contents)

/-- How `fs::write` ends: the file is not opened, or it is emptied and the writing
fails before the last character. -/
inductive WriteOutcome where
  | done
  | notOpened (error : String)
  | cut (written : Nat) (error : String)
  deriving DecidableEq, Repr

def writePid (outcome : WriteOutcome) (pidPath : String) (pid : UInt32) (w : World) :
    Except Chain Unit × World :=
  let text := toString pid
  let failed (error : String) : Except Chain Unit := .error [s!"writing pid file {pidPath}", error]
  match outcome with
  | .done => (.ok (), { w with pidFile := some text })
  | .notOpened error => (failed error, w)
  | .cut written error =>
    (failed error,
      { w with pidFile := some (String.ofList (text.toList.dropLast.take written)) })

/-! The start. -/

/-- What the system answers, and how long it takes. -/
structure Outcomes where
  openLog : Except String Unit
  tryClone : Except String Unit
  currentExe : Except String Unit
  spawn : Except String Child
  write : WriteOutcome
  writeTakes : Nat
  /-- What the sleep takes over its 800 ms. -/
  late : Nat
  removeFile : Except String Unit

def context (message : String) : Except String α → Except Chain α
  | .error error => .error [message, error]
  | .ok a => .ok a

/-- Up to the `spawn` of the command. -/
def startChild (o : Outcomes) (logPath : String) : Except Chain Child := do
  context s!"opening log {logPath}" o.openLog
  o.tryClone.mapError fun error => [error]
  context "locating current executable" o.currentExe
  context "spawning background daemon" o.spawn

def spawnDaemon (o : Outcomes) (pidPath logPath : String) (pidFile : Option String) :
    Except Chain UInt32 × World :=
  match startChild o logPath with
  | .error chain => (.error chain, ⟨0, pidFile, none⟩)
  | .ok child =>
    match writePid o.write pidPath child.pid ⟨o.writeTakes, pidFile, some child⟩ with
    | (.error chain, w) => (.error chain, w)
    | (.ok (), w) =>
      let w := { w with now := w.now + 800 + o.late }
      if !isAlive w child.pid then
        (.error [s!"daemon exited immediately — check the log:\n  {logPath}"],
          match o.removeFile with
          | .ok () => { w with pidFile := none }
          | .error _ => w)
      else (.ok child.pid, w)

/-! What the answer promises. -/

/-- An answer tells the truth about the world it leaves. -/
def Truthful : Except Chain UInt32 × World → Prop
  | (.ok pid, w) => (∃ child, w.child = some child ∧ child.pid = pid ∧
      child.state w.now = .running) ∧ readPid w.pidFile = some pid
  | (.error _, w) => ∀ child, w.child = some child →
      child.state w.now = .zombie ∧ readPid w.pidFile ≠ some child.pid

/-- Nothing is started; or the pid is written and the child is running when it is
looked at; or the pid is not written, the child is over by then, and no file
from before names it. -/
def Reported (o : Outcomes) (pidFile : Option String) : Prop :=
  ∀ child, o.openLog = .ok () → o.tryClone = .ok () → o.currentExe = .ok () →
    o.spawn = .ok child →
    match o.write with
    | .done => child.state (o.writeTakes + 800 + o.late) = .running
    | .notOpened _ => child.state o.writeTakes = .zombie ∧ readPid pidFile ≠ some child.pid
    | .cut _ _ => child.state o.writeTakes = .zombie

theorem startChild_ok {o : Outcomes} {logPath : String} {child : Child} :
    startChild o logPath = .ok child ↔ o.openLog = .ok () ∧ o.tryClone = .ok () ∧
      o.currentExe = .ok () ∧ o.spawn = .ok child := by
  rcases log : o.openLog with e | ⟨⟨⟩⟩ <;> rcases clone : o.tryClone with e | ⟨⟨⟩⟩ <;>
    rcases exe : o.currentExe with e | ⟨⟨⟩⟩ <;> rcases spawned : o.spawn with e | c <;>
    simp [startChild, log, clone, exe, spawned, context, Except.mapError, Except.bind, bind]

/-- The child's entry is there, whatever has become of it. -/
theorem isAlive_child (now : Nat) (pidFile : Option String) (child : Child) :
    isAlive ⟨now, pidFile, some child⟩ child.pid = true := by
  have entry : (child.state now).hasEntry = true := by cases child.state now <;> rfl
  simp [isAlive, entry]

/-! What the pid file reads as. -/

theorem not_isWhitespace {c : Char} (digit : IsDigit 10 c = true) : isWhitespace c = false := by
  have range : 48 ≤ c.toNat ∧ c.toNat ≤ 57 := isDigit_decimal digit
  simp only [isWhitespace, Bool.or_eq_false_iff, Bool.and_eq_false_iff, decide_eq_false_iff_not]
  omega

theorem trim_digits {digits : List Char} (all : ∀ c ∈ digits, IsDigit 10 c = true) :
    trim (String.ofList digits) = String.ofList digits := by
  have kept {s : List Char} (all : ∀ c ∈ s, IsDigit 10 c = true) :
      s.dropWhile isWhitespace = s := by
    cases s with
    | nil => rfl
    | cons c s => exact List.dropWhile_cons_of_neg (by simp [not_isWhitespace (all c (by simp))])
  have back : ∀ c ∈ digits.reverse, IsDigit 10 c = true := by simpa using all
  rw [trim, String.toList_ofList, kept all, kept back, List.reverse_reverse]

/-- Digits read as their number. -/
theorem readPid_digits {digits : List Char} (nonempty : digits ≠ [])
    (all : ∀ c ∈ digits, IsDigit 10 c = true) : readPid (some (String.ofList digits)) =
      if 4294967295 < ofDigits 10 digits then none
      else some (UInt32.ofNat (ofDigits 10 digits)) := by
  have unsigned : parseU32 (String.ofList digits) =
      (parseWith (readNumber 10 none true 4294967295) (String.ofList digits)).map UInt32.ofNat := by
    unfold parseU32
    rw [String.toList_ofList]
    split
    · rename_i sign rest
      exact absurd (all '+' (by simp)) (by decide)
    · rfl
  rw [readPid, Option.bind_some, trim_digits all, unsigned, parseWith_digits nonempty all]
  split <;> rfl

theorem isDigit_pid (pid : UInt32) : ∀ c ∈ Nat.toDigits 10 pid.toNat, IsDigit 10 c = true :=
  isDigit_toDigits (by decide) (by decide)

theorem readPid_toString (pid : UInt32) : readPid (some (toString pid)) = some pid := by
  have bound := pid.toNat_lt
  have value : ofDigits 10 (Nat.toDigits 10 pid.toNat) = pid.toNat :=
    ofDigits_toDigits (by decide) (by decide)
  have text : toString pid = String.ofList (Nat.toDigits 10 pid.toNat) := rfl
  rw [text, readPid_digits Nat.toDigits_ne_nil (isDigit_pid pid), value, if_neg (by omega),
    UInt32.ofNat_toNat]

/-- What an interrupted write leaves names another process, or none. -/
theorem readPid_cut (pid : UInt32) (written : Nat) :
    readPid (some (String.ofList ((toString pid).toList.dropLast.take written))) ≠ some pid := by
  have text : (toString pid).toList = Nat.toDigits 10 pid.toNat := String.toList_ofList
  rw [text]
  generalize front : (Nat.toDigits 10 pid.toNat).dropLast.take written = digits
  have initial : digits <+: (Nat.toDigits 10 pid.toNat).dropLast := front ▸ List.take_prefix _ _
  obtain ⟨rest, whole⟩ := initial.trans (List.dropLast_prefix _)
  have all : ∀ c ∈ digits, IsDigit 10 c = true := by
    intro c member
    apply isDigit_pid pid
    rw [← whole]
    exact List.mem_append_left _ member
  by_cases nonempty : digits = []
  · subst nonempty
    have nothing : readPid (some (String.ofList [])) = none := by decide
    simp [nothing]
  · have bound := pid.toNat_lt
    have short : digits.length < (Nat.toDigits 10 pid.toNat).length := by
      have le := initial.length_le
      have pos := List.length_pos_iff.mpr (@Nat.toDigits_ne_nil pid.toNat 10)
      rw [List.length_dropLast] at le
      omega
    have value : ofDigits 10 digits * 10 ^ rest.length + ofDigits 10 rest = pid.toNat := by
      rw [← ofDigits_append, whole]
      exact ofDigits_toDigits (by decide) (by decide)
    have more : 10 ≤ 10 ^ rest.length := by
      apply Nat.le_self_pow
      rw [← whole, List.length_append] at short
      omega
    have smaller : ofDigits 10 digits < pid.toNat := by
      rcases Nat.eq_zero_or_pos (ofDigits 10 digits) with zero | pos
      · rw [zero]
        by_contra none
        have null : pid.toNat = 0 := by omega
        have one : (Nat.toDigits 10 0).length = 1 := by decide
        rw [null, one] at short
        exact nonempty (List.length_eq_zero_iff.mp (by omega))
      · have grown := Nat.mul_le_mul_left (ofDigits 10 digits) more
        omega
    rw [readPid_digits nonempty all, if_neg (by omega)]
    intro same
    have same := congrArg UInt32.toNat (Option.some.inj same)
    rw [UInt32.toNat_ofNat_of_lt' (by change _ < 4294967296; omega)] at same
    omega

/-! The answer. -/

/-- What `spawn_daemon` answers is true in these cases and in no others. -/
theorem truthful_iff (o : Outcomes) (pidPath logPath : String) (pidFile : Option String) :
    Truthful (spawnDaemon o pidPath logPath pidFile) ↔ Reported o pidFile := by
  unfold spawnDaemon
  cases started : startChild o logPath with
  | error chain =>
    constructor
    · intro _ child log clone exe spawned
      rw [startChild_ok.mpr ⟨log, clone, exe, spawned⟩] at started
      cases started
    · intro _ child none
      cases none
  | ok child =>
    obtain ⟨log, clone, exe, spawned⟩ := startChild_ok.mp started
    simp only [Reported, log, clone, exe, spawned, true_implies, Except.ok.injEq, forall_eq']
    cases o.write with
    | done =>
      simp only [writePid, isAlive_child, Bool.not_true, Bool.false_eq_true, if_false]
      simp [Truthful, readPid_toString]
    | notOpened error => simp [writePid, Truthful]
    | cut written error => simp [writePid, Truthful, readPid_cut]

/-- The child exits at once; its entry is still there after the sleep. -/
def sampleExited : Outcomes :=
  ⟨.ok (), .ok (), .ok (), .ok ⟨4242, some 1⟩, .done, 5, 0, .ok ()⟩

theorem zombie_reported_up : ¬ ∀ (o : Outcomes) (pidPath logPath : String)
    (pidFile : Option String), Truthful (spawnDaemon o pidPath logPath pidFile) := by
  intro claim
  obtain ⟨⟨child, started, -, running⟩, -⟩ := claim sampleExited "hyperion.pid" "hyperion.log" none
  cases started
  exact absurd running (by decide)

end HyperionVpn.Common
