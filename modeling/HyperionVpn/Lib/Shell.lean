import Mathlib

/-! Shell scripts of simple commands, one a line, with blanks between their words
and with comments. A word of ordinary characters stands for itself; what the shell
at hand makes of any other is a parameter. -/
namespace Shell

/-- The characters that the shell takes as they stand wherever they stand. -/
def Ordinary (c : Char) : Bool := c.isAlphanum || "_-./:,@%+=".toList.contains c

structure Plain (word : String) : Prop where
  nonempty : word.toList ≠ []
  ordinary : ∀ c ∈ word.toList, Ordinary c = true

def isBlank (c : Char) : Bool := c = ' ' || c = '\t'

/-- A comment begins at a word with this sign in front. -/
def isSign (word : String) : Bool := word.toList.head? = some '#'

def words (line : List Char) : List String :=
  ((line.splitOnP isBlank).filter (· ≠ [])).map String.ofList

/-- The words of a line's command, if there is one on it. -/
def lineCommands (line : List Char) : List (List String) :=
  let command := (words line).takeWhile (!isSign ·)
  if command = [] then [] else [command]

def commands (text : List Char) : List (List String) :=
  (text.splitOn '\n').flatMap lineCommands

section
variable (expand : String → Option (List String))

/-- What a word becomes: `expand` knows the variables, the files and the homes of
the users, and has none for what does not end where the word does (an open
quotation), or is no word at all (an operator). -/
def arguments (word : String) : Option (List String) :=
  if word.toList.all Ordinary then some [word] else expand word

def argumentsOf : List String → Option (List String)
  | [] => some []
  | word :: rest => do return (← arguments expand word) ++ (← argumentsOf rest)

/-- Commands one after the other; one that yields `none` fails and leaves the
state as it is. After `set -e` the first that fails ends the script, and a line
that is not read as a command ends it always. -/
def run (exec : List String → σ → Option σ) (errexit : Bool) :
    List (List String) → σ → Except σ σ
  | [], s => .ok s
  | words :: rest, s =>
    match argumentsOf expand words with
    | none => .error s
    | some [] => run exec errexit rest s
    | some command =>
      if command = ["set", "-e"] then run exec true rest s
      else
        match exec command s with
        | some t => run exec errexit rest t
        | none => if errexit then .error s else run exec errexit rest s

/-- What a script leaves: `ok` if it ran to its end. -/
def sh (exec : List String → σ → Option σ) (text : String) (s : σ) : Except σ σ :=
  run expand exec false (commands text.toList) s

/-- Where the word stands in a command, it becomes this one argument. -/
structure Becomes (word argument : String) : Prop where
  sign : isSign word = false
  only : arguments expand word = some [argument]

end

/-! Words. -/

theorem plain_iff {word : String} :
    Plain word ↔ word.toList ≠ [] ∧ ∀ c ∈ word.toList, Ordinary c = true :=
  ⟨fun plain => ⟨plain.nonempty, plain.ordinary⟩, fun ⟨nonempty, ordinary⟩ => ⟨nonempty, ordinary⟩⟩

theorem Plain.mem {word : String} (plain : Plain word) {c : Char} (special : Ordinary c = false) :
    c ∉ word.toList := by
  intro member
  have ordinary := plain.ordinary c member
  rw [special] at ordinary
  cases ordinary

theorem Plain.append {a b : String} (first : Plain a) (ordinary : ∀ c ∈ b.toList, Ordinary c = true) :
    Plain (a ++ b) := by
  constructor
  · rw [String.toList_append]
    exact List.append_ne_nil_of_left_ne_nil first.nonempty _
  · intro c member
    rw [String.toList_append] at member
    rcases List.mem_append.mp member with left | right
    · exact first.ordinary c left
    · exact ordinary c right

/-- The shell does not part the word. -/
structure Unbroken (word : String) : Prop where
  nonempty : word.toList ≠ []
  blank : ∀ c ∈ word.toList, isBlank c = false
  line : '\n' ∉ word.toList

theorem Plain.unbroken {word : String} (plain : Plain word) : Unbroken word := by
  refine ⟨plain.nonempty, ?_, plain.mem (by decide)⟩
  intro c member
  have ordinary := plain.ordinary c member
  by_contra blank
  simp only [isBlank, Bool.not_eq_false, Bool.or_eq_true, decide_eq_true_eq] at blank
  rcases blank with rfl | rfl
  · exact absurd ordinary (by decide)
  · exact absurd ordinary (by decide)

theorem Plain.unsigned {word : String} (plain : Plain word) : isSign word = false := by
  rw [isSign, decide_eq_false_iff_not]
  intro sign
  exact plain.mem (c := '#') (by decide) (List.mem_of_head? sign)

theorem Plain.becomes {word : String} (plain : Plain word)
    (expand : String → Option (List String)) : Becomes expand word word :=
  ⟨plain.unsigned, if_pos (List.all_eq_true.mpr plain.ordinary)⟩

theorem words_single {word : String} (unbroken : Unbroken word) : words word.toList = [word] := by
  have whole : word.toList.splitOnP isBlank = [word.toList] :=
    List.splitOnP_eq_singleton fun c member => by simp [unbroken.blank c member]
  simp [words, whole, unbroken.nonempty]

theorem words_cons {word : String} (unbroken : Unbroken word) (rest : List Char) :
    words (word.toList ++ ' ' :: rest) = word :: words rest := by
  have split : (word.toList ++ ' ' :: rest).splitOnP isBlank =
      word.toList :: rest.splitOnP isBlank :=
    List.splitOnP_append_cons_of_forall_mem (fun c member => by simp [unbroken.blank c member])
      ' ' (by decide) rest
  simp [words, split, unbroken.nonempty]

/-- Words with blanks between them are the words of their line. -/
theorem words_intercalate {ws : List String} (unbroken : ∀ w ∈ ws, Unbroken w) :
    words (" ".intercalate ws).toList = ws := by
  induction ws with
  | nil => rfl
  | cons w ws ih =>
    rw [List.forall_mem_cons] at unbroken
    obtain ⟨first, others⟩ := unbroken
    cases ws with
    | nil => simpa using words_single first
    | cons next ws =>
      have text : (" ".intercalate (w :: next :: ws)).toList =
          w.toList ++ ' ' :: (" ".intercalate (next :: ws)).toList := by
        simp [String.intercalate_cons_cons]
      rw [text, words_cons first, ih others]

theorem intercalate_line {ws : List String} (unbroken : ∀ w ∈ ws, Unbroken w) :
    '\n' ∉ (" ".intercalate ws).toList := by
  induction ws with
  | nil => simp
  | cons w ws ih =>
    rw [List.forall_mem_cons] at unbroken
    obtain ⟨first, others⟩ := unbroken
    cases ws with
    | nil => simpa using first.line
    | cons next ws =>
      simp only [String.intercalate_cons_cons, String.toList_append, List.mem_append, not_or]
      exact ⟨⟨first.line, by decide⟩, ih others⟩

/-! Lines. -/

inductive Line where
  | comment (text : String)
  | command (words : List String)

namespace Line

def text : Line → String
  | comment text => "#" ++ text ++ "\n"
  | command words => " ".intercalate words ++ "\n"

def commands : Line → List (List String)
  | comment _ => []
  | command words =>
    let command := words.takeWhile (!isSign ·)
    if command = [] then [] else [command]

/-- The shell parts the line as it is meant. -/
def Readable : Line → Prop
  | comment text => '\n' ∉ text.toList
  | command words => ∀ w ∈ words, Unbroken w

end Line

/-- A line with the sign at its front is all comment. -/
theorem lineCommands_comment (text : List Char) : lineCommands ('#' :: text) = [] := by
  have front : ∃ rest, words ('#' :: text) = rest ∧ rest.takeWhile (!isSign ·) = [] := by
    refine ⟨_, rfl, ?_⟩
    rw [words, List.splitOnP_cons_eq_if_modifyHead]
    simp only [show isBlank '#' = false from by decide, Bool.false_eq_true, if_false]
    obtain ⟨piece, pieces, split⟩ := List.exists_cons_of_ne_nil (List.splitOnP_ne_nil isBlank text)
    rw [split]
    simp [isSign]
  obtain ⟨rest, same, none⟩ := front
  rw [lineCommands, same]
  simp [none]

theorem Line.Readable.read {line : Line} (readable : line.Readable) :
    ∃ body, line.text.toList = body ++ ['\n'] ∧ '\n' ∉ body ∧
      lineCommands body = line.commands := by
  cases line with
  | comment text =>
    have readable : '\n' ∉ text.toList := readable
    refine ⟨'#' :: text.toList, by simp [Line.text], ?_, lineCommands_comment _⟩
    simpa using readable
  | command words =>
    have readable : ∀ w ∈ words, Unbroken w := readable
    refine ⟨(" ".intercalate words).toList, by simp [Line.text], intercalate_line readable, ?_⟩
    simp only [lineCommands, words_intercalate readable, Line.commands]

theorem commands_append (front rest : List Char) :
    commands (front ++ '\n' :: rest) = commands front ++ commands rest := by
  rw [commands, List.splitOn_append_cons_self, List.flatMap_append, commands, commands]

theorem commands_line {body : List Char} (line : '\n' ∉ body) : commands body = lineCommands body := by
  rw [commands, List.splitOn_eq_singleton line, List.flatMap_singleton]

/-- A text that starts with readable lines is read as the commands on them, and
what is read of the rest. -/
theorem commands_text {lines : List Line} (readable : ∀ line ∈ lines, line.Readable)
    (rest : List Char) :
    commands ((String.join (lines.map Line.text)).toList ++ rest) =
      lines.flatMap Line.commands ++ commands rest := by
  induction lines with
  | nil => simp
  | cons line lines ih =>
    rw [List.forall_mem_cons] at readable
    obtain ⟨body, text, newline, read⟩ := readable.1.read
    have whole : (String.join ((line :: lines).map Line.text)).toList ++ rest =
        body ++ '\n' :: ((String.join (lines.map Line.text)).toList ++ rest) := by
      simp [String.join_cons, text]
    rw [whole, commands_append, commands_line newline, read, ih readable.2, List.flatMap_cons, List.append_assoc]

theorem commands_nil : commands [] = [] := by
  simp [commands, lineCommands, words]

/-! Runs. -/

section
variable {expand : String → Option (List String)}

theorem argumentsOf_append (ws vs : List String) : argumentsOf expand (ws ++ vs) =
    (argumentsOf expand ws).bind fun front => (argumentsOf expand vs).map (front ++ ·) := by
  induction ws with
  | nil => simp [argumentsOf]
  | cons w ws ih =>
    simp only [List.cons_append, argumentsOf, ih]
    cases arguments expand w with
    | none => rfl
    | some first =>
      cases argumentsOf expand ws with
      | none => rfl
      | some others => cases argumentsOf expand vs <;> simp

theorem argumentsOf_plain {ws : List String} (plain : ∀ w ∈ ws, Plain w) :
    argumentsOf expand ws = some ws := by
  induction ws with
  | nil => rfl
  | cons w ws ih =>
    rw [List.forall_mem_cons] at plain
    simp [argumentsOf, (plain.1.becomes expand).only, ih plain.2]

variable {exec : List String → σ → Option σ}

/-- What a line does once `set -e` stands. -/
def lineEffect (expand : String → Option (List String)) (exec : List String → σ → Option σ)
    (s : σ) (words : List String) : Option σ :=
  match argumentsOf expand words with
  | none => none
  | some [] => some s
  | some command => if command = ["set", "-e"] then some s else exec command s

/-- After `set -e` a script runs to its end if no line of it fails. -/
theorem run_errexit {cmds : List (List String)} (s t : σ) :
    run expand exec true cmds s = .ok t ↔ cmds.foldlM (lineEffect expand exec) s = some t := by
  induction cmds generalizing s with
  | nil => simp [run]
  | cons words rest ih =>
    rw [run, List.foldlM_cons, lineEffect]
    split
    · simp
    · simpa using ih s
    · rename_i command nonempty read
      split
      · simpa using ih s
      · cases exec command s with
        | none => simp
        | some next => simpa using ih next

/-- What every command keeps holds of all that a script leaves. -/
theorem run_invariant {inv : σ → Prop}
    (step : ∀ command s t, exec command s = some t → inv s → inv t) {cmds : List (List String)}
    {errexit : Bool} {s t : σ} (ran : run expand exec errexit cmds s = .ok t) (before : inv s) :
    inv t := by
  induction cmds generalizing errexit s with
  | nil =>
    cases ran
    exact before
  | cons words rest ih =>
    rw [run] at ran
    split at ran
    · cases ran
    · exact ih ran before
    · split at ran
      · exact ih ran before
      · split at ran
        · rename_i next done
          exact ih ran (step _ _ _ done before)
        · split at ran
          · cases ran
          · exact ih ran before

/-- A script of readable lines, with `set -e` the first command. -/
theorem sh_errexit (header : String) {lines : List Line} (line : '\n' ∉ header.toList)
    (readable : ∀ line ∈ lines, line.Readable) (rest : List Char) (text : String)
    (same : text.toList = (String.join ((.comment header :: .command ["set", "-e"] :: lines).map
      Line.text)).toList ++ rest) (s t : σ) :
    sh expand exec text s = .ok t ↔
      (lines.flatMap Line.commands ++ commands rest).foldlM (lineEffect expand exec) s = some t := by
  have plain : ∀ w ∈ ["set", "-e"], Plain w := by simp [plain_iff, Ordinary]
  have all : ∀ line ∈ .comment header :: .command ["set", "-e"] :: lines, line.Readable := by
    simp only [List.forall_mem_cons]
    exact ⟨line, fun w member => (plain w member).unbroken, readable⟩
  have first : Line.commands (.command ["set", "-e"]) = [["set", "-e"]] := by
    simp [Line.commands, isSign]
  have literal : argumentsOf expand ["set", "-e"] = some ["set", "-e"] := argumentsOf_plain plain
  have none : Line.commands (.comment header) = [] := rfl
  rw [sh, same, commands_text all, ← run_errexit, List.flatMap_cons, List.flatMap_cons, first, none]
  simp [run, literal]

end
end Shell
