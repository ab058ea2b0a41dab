import HyperionVpn.Lib.Nftables
import HyperionVpn.Lib.PolicyRouting
import HyperionVpn.Server.Firewall

/-! The ruleset that `print-firewall` writes, and the commands that the daemon adds
to it, as nft takes them. -/
namespace HyperionVpn
open Net Nftables

def baseRuleset (table set : String) (tunnelPort : UInt16) : String :=
  s!"table inet {table} \x7b\n  " ++
  s!"set {set} \x7b type ipv4_addr; flags timeout; \x7d\n  " ++
  "chain input \x7b\n    " ++
  "type filter hook input priority 0; policy drop;\n    " ++
  "ct state established,related accept\n    " ++
  "iif lo accept\n    " ++
  s!"ip saddr @{set} tcp dport {tunnelPort} accept\n  " ++
  "\x7d\n\x7d\n"

namespace Ruleset

variable {table set : String}

theorem ordinary_of_digit {c : Char} (digit : Text.IsDigit 10 c = true) :
    (c.isAlphanum || "_-./".toList.contains c) = true := by
  have range := Text.isDigit_decimal digit
  have isDigit : c.isDigit = true := by
    simp only [Char.isDigit, Bool.and_eq_true, decide_eq_true_eq]
    exact range
  simp [Char.isAlphanum, isDigit]

theorem plain_decimal {n : Nat} : Plain (String.ofList (Nat.toDigits 10 n)) := by
  constructor
  · simp
  · intro c member
    rw [String.toList_ofList] at member
    exact ordinary_of_digit (Text.isDigit_toDigits (by decide) (by decide) c member)

theorem port_text (port : UInt16) : toString port = String.ofList (Nat.toDigits 10 port.toNat) := rfl

/-! Its lines, each before any other text. -/

theorem tokens_table (rest : List Char) : tokensFrom [] ("table inet ".toList ++ rest) =
    [.word "table", .word "inet"] ++ tokensFrom [] rest := rfl

theorem tokens_opened (rest : List Char) : tokensFrom [] ("\x7b\n  ".toList ++ rest) =
    [.opened, .ended] ++ tokensFrom [] rest := rfl

theorem tokens_set (rest : List Char) : tokensFrom [] ("set ".toList ++ rest) =
    [.word "set"] ++ tokensFrom [] rest := rfl

theorem tokens_flags (rest : List Char) :
    tokensFrom [] ("\x7b type ipv4_addr; flags timeout; \x7d\n  ".toList ++ rest) =
      [.opened, .word "type", .word "ipv4_addr", .ended, .word "flags", .word "timeout", .ended,
       .closed, .ended] ++ tokensFrom [] rest := rfl

theorem tokens_chain (rest : List Char) : tokensFrom [] ("chain input \x7b\n    ".toList ++ rest) =
    [.word "chain", .word "input", .opened, .ended] ++ tokensFrom [] rest := rfl

theorem tokens_policy (rest : List Char) :
    tokensFrom [] ("type filter hook input priority 0; policy drop;\n    ".toList ++ rest) =
      [.word "type", .word "filter", .word "hook", .word "input", .word "priority", .word "0", .ended,
       .word "policy", .word "drop", .ended, .ended] ++ tokensFrom [] rest := rfl

theorem tokens_state (rest : List Char) :
    tokensFrom [] ("ct state established,related accept\n    ".toList ++ rest) =
      [.word "ct", .word "state", .word "established,related", .word "accept", .ended] ++
        tokensFrom [] rest := by
  simp [tokensFrom, symbol, flush]

theorem tokens_lo (rest : List Char) : tokensFrom [] ("iif lo accept\n    ".toList ++ rest) =
    [.word "iif", .word "lo", .word "accept", .ended] ++ tokensFrom [] rest := rfl

theorem tokens_saddr (rest : List Char) : tokensFrom [] ("ip saddr @".toList ++ rest) =
    [.word "ip", .word "saddr"] ++ tokensFrom ['@'] rest := rfl

theorem tokens_member (plain : Plain set) (rest : List Char) :
    tokensFrom ['@'] (set.toList ++ (" ".toList ++ rest)) = .word ("@" ++ set) :: tokensFrom [] rest := by
  have name : String.ofList ('@' :: set.toList) = "@" ++ set := by
    rw [← String.toList_inj]
    simp
  rw [tokensFrom_ordinary plain.ordinary, tokensFrom_blank, List.singleton_append, flush,
    if_neg (by simp), name]
  rfl

theorem tokens_dport (rest : List Char) : tokensFrom [] ("tcp dport ".toList ++ rest) =
    [.word "tcp", .word "dport"] ++ tokensFrom [] rest := rfl

theorem tokens_closed : tokensFrom [] "accept\n  \x7d\n\x7d\n".toList =
    [.word "accept", .ended, .closed, .ended, .closed, .ended] := rfl

theorem baseRuleset_join (table set : String) (port : UInt16) : baseRuleset table set port =
    String.join ["table inet ", table, " \x7b\n  ", "set ", set,
      " \x7b type ipv4_addr; flags timeout; \x7d\n  ", "chain input \x7b\n    ",
      "type filter hook input priority 0; policy drop;\n    ",
      "ct state established,related accept\n    ", "iif lo accept\n    ", "ip saddr @", set,
      " tcp dport ", toString port, " accept\n  ", "\x7d\n\x7d\n"] := by
  have text (s : String) : toString s = s := rfl
  have last : "\x7d\n\x7d\n" ++ String.join [] = "\x7d\n\x7d\n" := rfl
  unfold baseRuleset
  simp only [String.join_cons, String.append_assoc]
  simp only [text]
  rw [last]

theorem toList_join (l : List String) : (String.join l).toList = l.flatMap String.toList := by
  induction l with
  | nil => rfl
  | cons s l ih => rw [String.join_cons, String.toList_append, ih, List.flatMap_cons]

theorem tokens_baseRuleset (tablePlain : Plain table) (setPlain : Plain set) (port : UInt16) :
    tokens (baseRuleset table set port) =
      [.word "table", .word "inet", .word table, .opened, .ended,
       .word "set", .word set, .opened, .word "type", .word "ipv4_addr", .ended, .word "flags",
       .word "timeout", .ended, .closed, .ended,
       .word "chain", .word "input", .opened, .ended,
       .word "type", .word "filter", .word "hook", .word "input", .word "priority", .word "0", .ended,
       .word "policy", .word "drop", .ended, .ended,
       .word "ct", .word "state", .word "established,related", .word "accept", .ended,
       .word "iif", .word "lo", .word "accept", .ended,
       .word "ip", .word "saddr", .word ("@" ++ set), .word "tcp", .word "dport",
       .word (toString port), .word "accept", .ended, .closed, .ended, .closed, .ended] := by
  have portPlain : Plain (toString port) := port_text port ▸ plain_decimal
  rw [tokens, baseRuleset_join, toList_join]
  simp only [List.flatMap_cons, List.flatMap_nil, List.append_nil]
  have opened : " \x7b\n  ".toList = " ".toList ++ "\x7b\n  ".toList := rfl
  have flags : " \x7b type ipv4_addr; flags timeout; \x7d\n  ".toList =
      " ".toList ++ "\x7b type ipv4_addr; flags timeout; \x7d\n  ".toList := rfl
  have dport : " tcp dport ".toList = " ".toList ++ "tcp dport ".toList := rfl
  have last : " accept\n  ".toList ++ "\x7d\n\x7d\n".toList =
      " ".toList ++ "accept\n  \x7d\n\x7d\n".toList := rfl
  rw [opened, flags, dport, last]
  simp only [List.append_assoc]
  rw [tokens_table, tokensFrom_word tablePlain, tokens_opened, tokens_set,
    tokensFrom_word setPlain, tokens_flags, tokens_chain, tokens_policy, tokens_state, tokens_lo,
    tokens_saddr, tokens_member setPlain, tokens_dport, tokensFrom_word portPlain, tokens_closed]
  rfl

def inputItems (set : String) (port : UInt16) : List Item :=
  [.statement ["type", "filter", "hook", "input", "priority", "0"], .statement ["policy", "drop"],
   .statement ["ct", "state", "established,related", "accept"], .statement ["iif", "lo", "accept"],
   .statement ["ip", "saddr", "@" ++ set, "tcp", "dport", toString port, "accept"]]

theorem read_baseRuleset (tablePlain : Plain table) (setPlain : Plain set) (port : UInt16) :
    readText (baseRuleset table set port) = some [.block ["table", "inet", table]
      [.block ["set", set] [.statement ["type", "ipv4_addr"], .statement ["flags", "timeout"]],
       .block ["chain", "input"] (inputItems set port)]] := by
  rw [readText, tokens_baseRuleset tablePlain setPlain]
  rfl

/-- The chain that it makes. -/
def inputChain (set : String) (port : UInt16) : Chain where
  hook := some "input"
  policy := .drop
  rules := [⟨[.ctState [.established, .related]], .accept⟩, ⟨[.iif "lo"], .accept⟩,
    ⟨[.ipSaddr set, .tcpDport port.toNat], .accept⟩]

theorem readPort_toString (port : UInt16) : readPort (toString port) = some port.toNat := by
  rw [port_text, readPort, Text.parseWith_toDigits 10 (by decide) (by decide) true]
  have bound := port.toNat_lt
  omega

theorem readRule_member (set : String) (port : UInt16) :
    readRule ["ip", "saddr", "@" ++ set, "tcp", "dport", toString port, "accept"] =
      some ⟨[.ipSaddr set, .tcpDport port.toNat], .accept⟩ := by
  have name : readSetName ("@" ++ set) = some set := by
    simp [readSetName]
  simp [readRule, name, readPort_toString]

theorem extend_input (set : String) (port : UInt16) :
    (inputItems set port).foldlM Chain.extend ⟨none, .accept, []⟩ = some (inputChain set port) := by
  have state : readRule ["ct", "state", "established,related", "accept"] =
      some ⟨[.ctState [.established, .related]], .accept⟩ := by decide +kernel
  have lo : readRule ["iif", "lo", "accept"] = some ⟨[.iif "lo"], .accept⟩ := rfl
  simp [inputItems, inputChain, Chain.extend, state, lo, readRule_member, List.foldlM]

/-- What loading it into a kernel without the table makes. -/
theorem nft_baseRuleset {kernel : Kernel NftSet} {add : NftSet → Ipv4Addr → Nat → NftSet}
    (tablePlain : Plain table) (setPlain : Plain set) (port : UInt16) (fresh : table ∉ kernel) :
    nft ∅ add (baseRuleset table set port) kernel =
      some (kernel.insert table ⟨AList.insert set ∅ ∅, AList.insert "input" (inputChain set port) ∅⟩) := by
  have absent : kernel.lookup table = none := AList.lookup_eq_none.mpr fresh
  rw [nft, read_baseRuleset tablePlain setPlain]
  simp [command, Table.declare, absent, extend_input, List.foldlM]

/-! The command for one source. -/

theorem plain_display (ip : Ipv4Addr) : Plain ip.display := by
  constructor
  · simp [Ipv4Addr.display_toList]
  · intro c member
    rcases Ipv4Addr.mem_display member with digit | rfl
    · exact ordinary_of_digit digit
    · decide

theorem seconds_text (n : Nat) : toString n = String.ofList (Nat.toDigits 10 n) := rfl

theorem plain_seconds (n : Nat) : Plain (toString n ++ "s") := by
  rw [seconds_text]
  constructor
  · simp
  · intro c member
    rw [String.toList_append] at member
    rcases List.mem_append.mp member with digits | unit
    · exact plain_decimal.ordinary c digits
    · obtain rfl := List.mem_singleton.mp unit
      decide

theorem readSeconds_text {n : Nat} (positive : 0 < n) (bound : n < 2 ^ 64) :
    readSeconds (toString n ++ "s") = some n := by
  have text : (toString n ++ "s").toList = Nat.toDigits 10 n ++ ['s'] := by
    simp
  rw [readSeconds, text, List.getLast?_concat, if_pos rfl, List.dropLast_concat,
    Text.parseWith_toDigits 10 (by decide) (by decide) true (by omega)]
  simp [positive]

theorem addElementArgs_join (fw : Firewall) (ip : Ipv4Addr) : " ".intercalate (fw.addElementArgs ip) =
    String.join ["add ", "element ", "inet ", fw.table, " ", fw.set, " ", "\x7b ", ip.display, " ",
      "timeout ", toString fw.ttlSecs.toNat ++ "s", " ", "\x7d"] := by
  rw [← String.toList_inj]
  simp [Firewall.addElementArgs, String.intercalate_cons_cons, String.join_cons]

theorem readText_addElement {fw : Firewall} (tablePlain : Plain fw.table) (setPlain : Plain fw.set)
    (ip : Ipv4Addr) : readText (" ".intercalate (fw.addElementArgs ip)) =
      some [.block ["add", "element", "inet", fw.table, fw.set]
        [.statement [ip.display, "timeout", toString fw.ttlSecs.toNat ++ "s"]]] := by
  have add (rest : List Char) : tokensFrom [] ("add ".toList ++ rest) =
      .word "add" :: tokensFrom [] rest := rfl
  have element (rest : List Char) : tokensFrom [] ("element ".toList ++ rest) =
      .word "element" :: tokensFrom [] rest := rfl
  have inet (rest : List Char) : tokensFrom [] ("inet ".toList ++ rest) =
      .word "inet" :: tokensFrom [] rest := rfl
  have opened (rest : List Char) : tokensFrom [] ("\x7b ".toList ++ rest) =
      .opened :: tokensFrom [] rest := rfl
  have timeout (rest : List Char) : tokensFrom [] ("timeout ".toList ++ rest) =
      .word "timeout" :: tokensFrom [] rest := rfl
  have closed : tokensFrom [] ("\x7d".toList ++ []) = [.closed] := rfl
  rw [readText, tokens, addElementArgs_join, toList_join]
  simp only [List.flatMap_cons, List.flatMap_nil]
  rw [add, element, inet, tokensFrom_word tablePlain, tokensFrom_word setPlain, opened,
    tokensFrom_word (plain_display ip), timeout, tokensFrom_word (plain_seconds _), closed]
  rfl

theorem nft_addElement {kernel : Kernel NftSet} {add : NftSet → Ipv4Addr → Nat → NftSet}
    {fw : Firewall} (tablePlain : Plain fw.table) (setPlain : Plain fw.set)
    (positive : 0 < fw.ttlSecs.toNat) {t : Table NftSet} {elements : NftSet}
    (table : kernel.lookup fw.table = some t) (set : t.sets.lookup fw.set = some elements)
    (ip : Ipv4Addr) : nft ∅ add (" ".intercalate (fw.addElementArgs ip)) kernel =
      some (kernel.insert fw.table
        { t with sets := t.sets.insert fw.set (add elements ip fw.ttlSecs.toNat) }) := by
  have seconds := readSeconds_text positive fw.ttlSecs.toNat_lt
  rw [nft, readText_addElement tablePlain setPlain]
  generalize toString fw.ttlSecs.toNat ++ "s" = time at seconds ⊢
  simp [command, table, set, Ipv4Addr.parse_display, seconds, List.foldlM]

end Ruleset
end HyperionVpn
