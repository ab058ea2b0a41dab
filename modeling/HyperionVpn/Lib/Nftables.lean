import HyperionVpn.Lib.Ipv4
import HyperionVpn.Lib.KeyMap

/-! Packet filters in the language of nftables, as far as they have base chains,
verdicts, and timed sets of sources: the texts, the tables that they make, and
what becomes of a packet. What a timed set is, is left to whoever uses them. -/
namespace Nftables
open Net Text

/-! The texts. -/

inductive Token where
  | word (s : String)
  | opened
  | closed
  /-- A semicolon, or the end of a line. -/
  | ended
  deriving DecidableEq, Repr

def symbol (c : Char) : Option Token :=
  if c = '\x7b' then some .opened
  else if c = '\x7d' then some .closed
  else if c = ';' ∨ c = '\n' then some .ended
  else none

def flush (word : List Char) : List Token :=
  if word = [] then [] else [.word (String.ofList word)]

/-- The tokens of a text, the first word of which has begun. -/
def tokensFrom (word : List Char) : List Char → List Token
  | [] => flush word
  | c :: rest =>
    if c = ' ' then flush word ++ tokensFrom [] rest
    else
      match symbol c with
      | some token => flush word ++ token :: tokensFrom [] rest
      | none => tokensFrom (word ++ [c]) rest

def tokens (text : String) : List Token := tokensFrom [] text.toList

/-- A statement, or one that ends in a block of others. -/
inductive Item where
  | statement (words : List String)
  | block (head : List String) (body : List Item)

def finish (words : List String) : List Item :=
  if words = [] then [] else [.statement words]

/-- The stack holds the heads of the open blocks, each with the items before it. -/
def readItems : List Token → List (List String × List Item) → List Item → List String →
    Option (List Item)
  | [], [], items, words => some (items ++ finish words)
  | [], _ :: _, _, _ => none
  | .word s :: rest, stack, items, words => readItems rest stack items (words ++ [s])
  | .ended :: rest, stack, items, words => readItems rest stack (items ++ finish words) []
  | .opened :: rest, stack, items, words => readItems rest ((words, items) :: stack) [] []
  | .closed :: rest, (head, before) :: stack, items, words =>
    readItems rest stack (before ++ [.block head (items ++ finish words)]) []
  | .closed :: _, [], _, _ => none

def readText (text : String) : Option (List Item) := readItems (tokens text) [] [] []

/-! The rules. -/

inductive CtState where
  | new
  | established
  | related
  | invalid
  deriving DecidableEq, Repr

inductive Verdict where
  | accept
  | drop
  deriving DecidableEq, Repr

inductive Match where
  | ctState (states : List CtState)
  | iif (name : String)
  | ipSaddr (set : String)
  | tcpDport (port : Nat)
  deriving DecidableEq, Repr

structure Rule where
  matches_ : List Match
  verdict : Verdict
  deriving DecidableEq, Repr

structure Chain where
  hook : Option String
  policy : Verdict
  rules : List Rule
  deriving DecidableEq, Repr

def readCtState : String → Option CtState
  | "new" => some .new
  | "established" => some .established
  | "related" => some .related
  | "invalid" => some .invalid
  | _ => none

def readCtStates (s : String) : Option (List CtState) :=
  (s.toList.splitOn ',').mapM fun state => readCtState (String.ofList state)

def readSetName (s : String) : Option String :=
  match s.toList with
  | '@' :: name => some (String.ofList name)
  | _ => none

def readPort : String → Option Nat := parseWith (readNumber 10 none true 65535)

def readRule : List String → Option Rule
  | ["accept"] => some ⟨[], .accept⟩
  | ["drop"] => some ⟨[], .drop⟩
  | "ct" :: "state" :: states :: rest => do
    let states ← readCtStates states
    let rule ← readRule rest
    return { rule with matches_ := .ctState states :: rule.matches_ }
  | "iif" :: name :: rest => do
    let rule ← readRule rest
    return { rule with matches_ := .iif name :: rule.matches_ }
  | "ip" :: "saddr" :: set :: rest => do
    let set ← readSetName set
    let rule ← readRule rest
    return { rule with matches_ := .ipSaddr set :: rule.matches_ }
  | "tcp" :: "dport" :: port :: rest => do
    let port ← readPort port
    let rule ← readRule rest
    return { rule with matches_ := .tcpDport port :: rule.matches_ }
  | _ => none

/-- What a line of a chain does to it. -/
def Chain.extend (c : Chain) : Item → Option Chain
  | .statement ["type", "filter", "hook", hook, "priority", _] => some { c with hook := some hook }
  | .statement ["policy", "accept"] => some { c with policy := .accept }
  | .statement ["policy", "drop"] => some { c with policy := .drop }
  | .statement words => (readRule words).map fun rule => { c with rules := c.rules ++ [rule] }
  | .block _ _ => none

/-! The tables of the `inet` family. -/

structure Table (σ : Type) where
  sets : KeyMap String σ
  chains : KeyMap String Chain

abbrev Kernel (σ : Type) := KeyMap String (Table σ)

section commands

variable {σ : Type} (empty : σ) (add : σ → Ipv4Addr → Nat → σ)

/-- What is there already is kept, and added to. -/
def Table.declare (t : Table σ) : Item → Option (Table σ)
  | .block ["set", name] [.statement ["type", "ipv4_addr"], .statement ["flags", "timeout"]] =>
    some { t with sets := t.sets.insert name ((t.sets.lookup name).getD empty) }
  | .block ["chain", name] body => do
    let chain ← body.foldlM Chain.extend ((t.chains.lookup name).getD ⟨none, .accept, []⟩)
    return { t with chains := t.chains.insert name chain }
  | _ => none

/-- A timeout of no time is none at all, and not for a timed set. -/
def readSeconds (s : String) : Option Nat :=
  if s.toList.getLast? = some 's' then
    (parseWith (readNumber 10 none true (2 ^ 64 - 1)) (String.ofList s.toList.dropLast)).filter (0 < ·)
  else none

/-- One command of `nft`. -/
def command (k : Kernel σ) : Item → Option (Kernel σ)
  | .block ["table", "inet", name] body => do
    let t ← body.foldlM (Table.declare empty) ((k.lookup name).getD ⟨∅, ∅⟩)
    return k.insert name t
  | .block ["add", "element", "inet", table, set] [.statement [ip, "timeout", time]] => do
    let t ← k.lookup table
    let elements ← t.sets.lookup set
    let ip ← Ipv4Addr.parse ip
    let seconds ← readSeconds time
    return k.insert table { t with sets := t.sets.insert set (add elements ip seconds) }
  | _ => none

/-- `nft` takes all of its text or nothing of it. -/
def nft (text : String) (k : Kernel σ) : Option (Kernel σ) := do
  (← readText text).foldlM (command empty add) k

end commands

/-! The packets that come in. -/

structure Incoming where
  iif : String
  ctState : CtState
  /-- `none` for an IPv6 packet. -/
  source : Option Ipv4Addr
  /-- `none` for one that is not TCP. -/
  tcpDport : Option UInt16
  deriving DecidableEq, Repr

section verdicts

variable {σ : Type} (contains : String → Ipv4Addr → Prop)

def Match.Holds (p : Incoming) : Match → Prop
  | .ctState states => p.ctState ∈ states
  | .iif name => p.iif = name
  | .ipSaddr set => ∃ ip ∈ p.source, contains set ip
  | .tcpDport port => ∃ dport ∈ p.tcpDport, dport.toNat = port

/-- The first rule that matches decides, or else the policy does. -/
inductive Decides (p : Incoming) (policy : Verdict) : List Rule → Verdict → Prop where
  | policy : Decides p policy [] policy
  | here {rule : Rule} {rules : List Rule} (all : ∀ m ∈ rule.matches_, m.Holds contains p) :
      Decides p policy (rule :: rules) rule.verdict
  | later {rule : Rule} {rules : List Rule} {v : Verdict}
      (not : ¬ ∀ m ∈ rule.matches_, m.Holds contains p) (rest : Decides p policy rules v) :
      Decides p policy (rule :: rules) v

/-- Every base chain of the hook has to accept a packet. -/
def Kernel.Admits (member : σ → Ipv4Addr → Prop) (k : Kernel σ) (hook : String) (p : Incoming) : Prop :=
  ∀ name t, k.lookup name = some t → ∀ chainName c, t.chains.lookup chainName = some c →
    c.hook = some hook →
    Decides (fun set ip => ∃ elements ∈ t.sets.lookup set, member elements ip) p c.policy c.rules .accept

end verdicts

variable {contains : String → Ipv4Addr → Prop} {p : Incoming} {policy v : Verdict} {rule : Rule}
  {rules : List Rule}

/-- A list of rules that only accept, before a policy to drop. -/
theorem decides_accept_iff (accepts : ∀ rule ∈ rules, rule.verdict = .accept) :
    Decides contains p .drop rules .accept ↔ ∃ rule ∈ rules, ∀ m ∈ rule.matches_, m.Holds contains p := by
  induction rules with
  | nil =>
    constructor
    · intro decided
      cases decided
    · rintro ⟨rule, member, -⟩
      cases member
  | cons rule rules ih =>
    rw [List.forall_mem_cons] at accepts
    have rest := ih accepts.2
    simp only [List.mem_cons, exists_eq_or_imp]
    constructor
    · intro decided
      generalize verdict : Verdict.accept = v at decided
      cases decided with
      | here all => exact .inl all
      | later not after => exact .inr (rest.mp (verdict ▸ after))
    · rintro (all | found)
      · exact accepts.1 ▸ .here all
      · by_cases all : ∀ m ∈ rule.matches_, m.Holds contains p
        · exact accepts.1 ▸ .here all
        · exact .later all (rest.mpr found)

/-! Words in texts. -/

/-- A word that needs no quotes, and begins nothing else. -/
structure Plain (word : String) : Prop where
  nonempty : word.toList ≠ []
  ordinary : ∀ c ∈ word.toList, (c.isAlphanum || "_-./".toList.contains c) = true

theorem ordinary_no_symbol {c : Char} (ordinary : (c.isAlphanum || "_-./".toList.contains c) = true) :
    c ≠ ' ' ∧ symbol c = none := by
  have other {d : Char} (special : (d.isAlphanum || "_-./".toList.contains d) = false) : c ≠ d := by
    rintro rfl
    rw [special] at ordinary
    cases ordinary
  refine ⟨other (by decide), ?_⟩
  rw [symbol, if_neg (other (by decide)), if_neg (other (by decide)), if_neg]
  exact not_or.mpr ⟨other (by decide), other (by decide)⟩

theorem tokensFrom_ordinary {s : List Char}
    (ordinary : ∀ c ∈ s, (c.isAlphanum || "_-./".toList.contains c) = true) (word rest : List Char) :
    tokensFrom word (s ++ rest) = tokensFrom (word ++ s) rest := by
  induction s generalizing word with
  | nil => simp
  | cons c s ih =>
    rw [List.forall_mem_cons] at ordinary
    obtain ⟨blank, none⟩ := ordinary_no_symbol ordinary.1
    rw [List.cons_append, tokensFrom, if_neg blank, none]
    simpa using ih ordinary.2 (word ++ [c])

theorem flush_plain {word : String} (plain : Plain word) : flush word.toList = [.word word] := by
  rw [flush, if_neg plain.nonempty, String.ofList_toList]

theorem tokensFrom_blank (word rest : List Char) :
    tokensFrom word (" ".toList ++ rest) = flush word ++ tokensFrom [] rest := rfl

/-- A plain word before a blank. -/
theorem tokensFrom_word {word : String} (plain : Plain word) (rest : List Char) :
    tokensFrom [] (word.toList ++ (" ".toList ++ rest)) = .word word :: tokensFrom [] rest := by
  rw [tokensFrom_ordinary plain.ordinary, List.nil_append, tokensFrom_blank, flush_plain plain]
  rfl

end Nftables
