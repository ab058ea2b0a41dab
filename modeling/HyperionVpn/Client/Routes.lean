import HyperionVpn.Lib.PolicyRouting
import HyperionVpn.Lib.Shell

/-! The script that `print-routes` writes. Its commands are the ones that are
read here from its text, and they do what they should for the lists of servers
without a repeated and without an IPv6 address. -/
namespace HyperionVpn.Client
open Net Shell

/-- The addresses come out of a hash map, in any order. -/
structure RouteParams where
  serverIps : List IpAddr
  dev : String
  mark : UInt32
  table : UInt32
  priority : UInt32
  down : Bool

/-- `{:#x}`. -/
def alternateHex (n : UInt32) : String := "0x" ++ String.ofList (Nat.toDigits 16 n.toNat)

def script (p : RouteParams) : String :=
  "#!/bin/sh\nset -e\n" ++
    if p.down then
      "# Hyperion L3 TUN routing — teardown\n" ++
        String.join (p.serverIps.map fun ip =>
          s!"ip rule del to {ip.display}/32 not fwmark {alternateHex p.mark} lookup {p.table} priority {p.priority}\n" ++
          s!"ip route del {ip.display}/32 dev {p.dev} table {p.table}\n")
    else
      s!"# Hyperion L3 TUN routing — route each server IP via '{p.dev}', except the tunnel's own\n" ++
        s!"# (SO_MARK {alternateHex p.mark}) sockets, which keep the physical route.\n" ++
        String.join (p.serverIps.map fun ip =>
          s!"ip route add {ip.display}/32 dev {p.dev} table {p.table}\n" ++
          s!"ip rule add to {ip.display}/32 not fwmark {alternateHex p.mark} lookup {p.table} priority {p.priority}\n")

/-! Its lines. -/

namespace RouteParams

def routeWords (p : RouteParams) (action : String) (ip : IpAddr) : List String :=
  ["ip", "route", action, ip.display ++ "/32", "dev", p.dev, "table", toString p.table]

def ruleWords (p : RouteParams) (action : String) (ip : IpAddr) : List String :=
  ["ip", "rule", action, "to", ip.display ++ "/32", "not", "fwmark", alternateHex p.mark,
    "lookup", toString p.table, "priority", toString p.priority]

/-- The first comment of the up script, with the device's name in it. -/
def remark (p : RouteParams) : String :=
  " Hyperion L3 TUN routing — route each server IP via '" ++ p.dev ++ "', except the tunnel's own"

theorem remark_eq (p : RouteParams) : p.remark =
    " Hyperion L3 TUN routing — route each server IP via '" ++ p.dev ++
      "', except the tunnel's own" := rfl

def markRemark (p : RouteParams) : String :=
  " (SO_MARK " ++ alternateHex p.mark ++ ") sockets, which keep the physical route."

theorem markRemark_eq (p : RouteParams) : p.markRemark =
    " (SO_MARK " ++ alternateHex p.mark ++ ") sockets, which keep the physical route." := rfl

def remarks (p : RouteParams) : List Line :=
  if p.down then [.comment " Hyperion L3 TUN routing — teardown"]
  else [.comment p.remark, .comment p.markRemark]

def serverWords (p : RouteParams) (ip : IpAddr) : List (List String) :=
  if p.down then [p.ruleWords "del" ip, p.routeWords "del" ip]
  else [p.routeWords "add" ip, p.ruleWords "add" ip]

def lines (p : RouteParams) : List Line :=
  p.remarks ++ (p.serverIps.flatMap p.serverWords).map Line.command

theorem script_eq (p : RouteParams) : script p =
    String.join ((.comment "!/bin/sh" :: .command ["set", "-e"] :: p.lines).map Line.text) := by
  have servers : ∀ ips : List IpAddr,
      String.join (((ips.flatMap p.serverWords).map Line.command).map Line.text) =
        String.join (ips.map fun ip =>
          String.join (((p.serverWords ip).map Line.command).map Line.text)) := by
    intro ips
    induction ips with
    | nil => rfl
    | cons ip ips ih =>
      simp only [List.flatMap_cons, List.map_append, String.join_append, List.map_cons,
        String.join_cons, ih]
  simp only [lines, List.map_append, List.map_cons, String.join_cons, String.join_append, servers]
  rw [← String.toList_inj]
  unfold script remarks serverWords
  cases p.down
  · simp [String.join_cons, List.flatMap_map, Line.text, ruleWords, routeWords, toString,
      remark_eq, markRemark_eq]
  · simp [String.join_cons, List.flatMap_map, Line.text, ruleWords, routeWords, toString]

/-! Every line is readable. -/

theorem ordinary_of_digit {c : Char} (digit : Text.IsDigit 16 c = true) : Ordinary c = true := by
  have inside {low high : Char} (between : low ≤ c ∧ c ≤ high) :
      (decide (low.val ≤ c.val) && decide (c.val ≤ high.val)) = true := by
    simp only [Bool.and_eq_true, decide_eq_true_eq]
    exact between
  rw [Ordinary, Char.isAlphanum, Char.isAlpha]
  rcases Text.isDigit_range digit with digit | lower | upper
  · have : c.isDigit = true := inside digit
    simp [this]
  · have : c.isLower = true := inside lower
    simp [this]
  · have : c.isUpper = true := decide_eq_true upper
    simp [this]

theorem ordinary_of_inAddress {c : Char} (member : InAddress c) : Ordinary c = true := by
  rcases member with digit | rfl | rfl
  · exact ordinary_of_digit digit
  · decide
  · decide

theorem toString_eq (n : UInt32) : toString n = String.ofList (Nat.toDigits 10 n.toNat) := rfl

theorem plain_decimal (n : UInt32) : Plain (toString n) := by
  rw [toString_eq]
  constructor
  · simp
  · intro c member
    rw [String.toList_ofList] at member
    have digit : Text.IsDigit 10 c = true :=
      Text.isDigit_toDigits (by decide) (by decide) c member
    exact ordinary_of_digit (isDigit_of_decimal digit)

theorem plain_alternateHex (n : UInt32) : Plain (alternateHex n) := by
  have zero : Plain "0x" := by simp [plain_iff, Ordinary]
  apply zero.append
  intro c member
  rw [String.toList_ofList] at member
  exact ordinary_of_digit (Text.isDigit_toDigits (by decide) (by decide) c member)

theorem plain_address (ip : IpAddr) : Plain (ip.display ++ "/32") := by
  constructor
  · simp
  · intro c member
    rw [String.toList_append, List.mem_append] at member
    rcases member with address | len
    · exact ordinary_of_inAddress (IpAddr.mem_display address)
    · simp at len
      rcases len with rfl | rfl | rfl <;> decide

theorem plain_words (p : RouteParams) {action : String} (known : Plain action) (ip : IpAddr) :
    (∀ w ∈ ["ip", "route", action, ip.display ++ "/32", "dev"], Plain w) ∧
      (∀ w ∈ ["table", toString p.table], Plain w) ∧ ∀ w ∈ p.ruleWords action ip, Plain w := by
  have fixed : ∀ w ∈ ["ip", "route", "rule", "to", "dev", "table", "not", "fwmark", "lookup",
      "priority"], Plain w := by simp [plain_iff, Ordinary]
  simp only [List.forall_mem_cons] at fixed
  simp only [ruleWords, List.forall_mem_cons, fixed, known, plain_address, plain_decimal,
    plain_alternateHex, List.not_mem_nil, false_implies, implies_true, and_self]

theorem routeWords_eq (p : RouteParams) (action : String) (ip : IpAddr) : p.routeWords action ip =
    ["ip", "route", action, ip.display ++ "/32", "dev"] ++ p.dev :: ["table", toString p.table] := rfl

theorem plain_add : Plain "add" := by simp [plain_iff, Ordinary]

theorem plain_del : Plain "del" := by simp [plain_iff, Ordinary]

/-- The words of a server's lines, and what is known of them. -/
theorem mem_serverWords {p : RouteParams} {words : List String} {ip : IpAddr}
    (member : words ∈ p.serverWords ip) : ∃ action, Plain action ∧
      (words = p.routeWords action ip ∨ words = p.ruleWords action ip) := by
  unfold serverWords at member
  split at member <;> simp only [List.mem_cons, List.not_mem_nil, or_false] at member
  · rcases member with rfl | rfl
    · exact ⟨"del", plain_del, .inr rfl⟩
    · exact ⟨"del", plain_del, .inl rfl⟩
  · rcases member with rfl | rfl
    · exact ⟨"add", plain_add, .inl rfl⟩
    · exact ⟨"add", plain_add, .inr rfl⟩

theorem unbroken_serverWords {p : RouteParams} (dev : Unbroken p.dev) {words : List String}
    {ip : IpAddr} (member : words ∈ p.serverWords ip) : ∀ w ∈ words, Unbroken w := by
  obtain ⟨action, known, same⟩ := mem_serverWords member
  obtain ⟨front, back, rule⟩ := p.plain_words known ip
  intro w there
  rcases same with rfl | rfl
  · rw [routeWords_eq] at there
    rcases List.mem_append.mp there with early | late
    · exact (front w early).unbroken
    · rcases List.mem_cons.mp late with rfl | later
      · exact dev
      · exact (back w later).unbroken
  · exact (rule w there).unbroken

theorem readable_remark {p : RouteParams} (line : '\n' ∉ p.dev.toList) :
    (Line.comment p.remark).Readable := by
  simp [Line.Readable, remark_eq, line]

theorem readable_markRemark (p : RouteParams) : (Line.comment p.markRemark).Readable := by
  have mark := (plain_alternateHex p.mark).mem (c := '\n') (by decide)
  simp [Line.Readable, markRemark_eq, mark]

theorem readable_remarks {p : RouteParams} (line : p.down = false → '\n' ∉ p.dev.toList) :
    ∀ line ∈ p.remarks, line.Readable := by
  unfold remarks
  split
  · simp [Line.Readable]
  · rename_i up
    simp only [List.forall_mem_cons, List.not_mem_nil, false_implies, implies_true, and_true]
    exact ⟨readable_remark (line (by simpa using up)), readable_markRemark p⟩

theorem readable {p : RouteParams} (dev : Unbroken p.dev) : ∀ line ∈ p.lines, line.Readable := by
  intro line member
  rcases List.mem_append.mp member with remark | command
  · exact readable_remarks (fun _ => dev.line) line remark
  · obtain ⟨command, there, rfl⟩ := List.mem_map.mp command
    obtain ⟨ip, -, here⟩ := List.mem_flatMap.mp there
    exact unbroken_serverWords dev here

/-! What the commands do. -/

def route (p : RouteParams) (ip : IpAddr) : Route := ⟨ip.network 32, p.dev, p.table⟩

def rule (p : RouteParams) (ip : IpAddr) : Rule :=
  ⟨ip.width, true, some (ip.network 32), some p.mark, p.table, p.priority⟩

def serverEntries (p : RouteParams) (ip : IpAddr) : List RoutingEntry :=
  if p.down then [.rule (p.rule ip), .route (p.route ip)]
  else [.route (p.route ip), .rule (p.rule ip)]

def entries (p : RouteParams) : List RoutingEntry := p.serverIps.flatMap p.serverEntries

def change (p : RouteParams) (net : Network) (entry : RoutingEntry) : Option Network :=
  if p.down then net.del entry else net.add entry

section
variable {expand : String → Option (List String)} {links : Links}

/-- A line of words, once they are expanded; a comment ends it. -/
def effect (expand : String → Option (List String)) (links : Links) (net : Network)
    (words : List String) : Option Network :=
  lineEffect expand (ip links) net (words.takeWhile (!isSign ·))

theorem takeWhile_plain {words : List String} (plain : ∀ w ∈ words, Plain w)
    (rest : List String) : (words ++ rest).takeWhile (!isSign ·) =
      words ++ rest.takeWhile (!isSign ·) :=
  List.takeWhile_append_of_pos fun w member => by simp [(plain w member).unsigned]

theorem effect_rule {p : RouteParams} {action : String} (known : Plain action) (a : IpAddr)
    (net : Network) : effect expand links net (p.ruleWords action a) =
      changeEntry action (.rule (p.rule a)) net := by
  have plain := (p.plain_words known a).2.2
  have whole := takeWhile_plain plain []
  rw [List.append_nil, List.takeWhile_nil, List.append_nil] at whole
  rw [effect, whole, lineEffect, argumentsOf_plain plain]
  simp only [ruleWords, List.cons.injEq, String.reduceEq, false_and, if_false, ip,
    parsePrefix_display, toString_eq, parseU32_decimal, alternateHex, parseU32_hexadecimal,
    Option.bind_eq_bind, Option.bind_some]
  rfl

theorem ip_route (p : RouteParams) (action dev : String) (a : IpAddr) (net : Network) :
    ip links (["ip", "route", action, a.display ++ "/32", "dev"] ++ dev :: ["table", toString p.table])
      net = if links.has dev then changeEntry action (.route ⟨a.network 32, dev, p.table⟩) net
        else none := by
  simp only [ip, List.cons_append, List.nil_append, parsePrefix_display, toString_eq, parseU32_decimal,
    Option.bind_eq_bind, Option.bind_some]

/-- The line on a route with the arguments that stand for the device's word. -/
theorem effect_expanded {p : RouteParams} (sign : isSign p.dev = false) {action : String}
    (known : Plain action) (a : IpAddr) (net : Network) :
    effect expand links net (p.routeWords action a) = (arguments expand p.dev).bind fun devs =>
      ip links (["ip", "route", action, a.display ++ "/32", "dev"] ++ devs ++
        ["table", toString p.table]) net := by
  obtain ⟨front, back, -⟩ := p.plain_words known a
  have whole := takeWhile_plain back []
  rw [List.append_nil, List.takeWhile_nil, List.append_nil] at whole
  rw [effect, routeWords_eq, takeWhile_plain front,
    List.takeWhile_cons_of_pos (by simp [sign]), whole, lineEffect, argumentsOf_append,
    argumentsOf_plain front, argumentsOf, argumentsOf_plain back]
  cases arguments expand p.dev with
  | none => rfl
  | some devs => simp

theorem effect_route {p : RouteParams} {dev : String} (becomes : Becomes expand p.dev dev)
    {action : String} (known : Plain action) (a : IpAddr) (net : Network) :
    effect expand links net (p.routeWords action a) =
      if links.has dev then changeEntry action (.route ⟨a.network 32, dev, p.table⟩) net
      else none := by
  rw [effect_expanded becomes.sign known, becomes.only, Option.bind_some, ← ip_route]
  rfl

/-- Whatever the shell makes of the device's word, it is one device that there is. -/
theorem becomes_of_effect {p : RouteParams} {a : IpAddr} {net after : Network}
    (changed : effect expand links net (p.routeWords "add" a) = some after) :
    ∃ dev, Becomes expand p.dev dev ∧ links.has dev = true := by
  cases sign : isSign p.dev with
  | true =>
    obtain ⟨front, -, -⟩ := p.plain_words plain_add a
    rw [effect, routeWords_eq, takeWhile_plain front,
      List.takeWhile_cons_of_neg (by simp [sign]), List.append_nil, lineEffect,
      argumentsOf_plain front] at changed
    simp [ip] at changed
  | false =>
    have expanded := changed
    rw [effect_expanded sign plain_add, Option.bind_eq_some_iff] at expanded
    obtain ⟨devs, read, made⟩ := expanded
    obtain ⟨dev, rfl⟩ := ip_route_device made
    have becomes : Becomes expand p.dev dev := ⟨sign, read⟩
    rw [effect_route becomes plain_add] at changed
    refine ⟨dev, becomes, ?_⟩
    by_contra missing
    simp [missing] at changed

theorem serverWords_foldlM {p : RouteParams} {dev : String} (becomes : Becomes expand p.dev dev)
    (has : links.has dev = true) (a : IpAddr) (net : Network) :
    (p.serverWords a).foldlM (effect expand links) net =
      (({ p with dev } : RouteParams).serverEntries a).foldlM
        ({ p with dev } : RouteParams).change net := by
  have add (entry : RoutingEntry) (net : Network) : changeEntry "add" entry net = net.add entry := rfl
  have del (entry : RoutingEntry) (net : Network) : changeEntry "del" entry net = net.del entry := rfl
  unfold serverWords serverEntries change
  cases p.down <;>
    simp [effect_route becomes plain_add, effect_route becomes plain_del, effect_rule plain_add,
      effect_rule plain_del, has, add, del, route, rule]

/-- If all lines are read as they are meant, each route and rule is changed in turn. -/
theorem sh_lines {p : RouteParams} (readable : ∀ line ∈ p.lines, line.Readable)
    (before after : Network) :
    sh expand (ip links) (script p) before = .ok after ↔
      (p.serverIps.flatMap p.serverWords).foldlM (effect expand links) before = some after := by
  have lines (words : List (List String))
      (there : ∀ ws ∈ words, ∃ ip, ws ∈ p.serverWords ip) (net : Network) :
      (words.flatMap fun ws => Line.commands (.command ws)).foldlM
        (lineEffect expand (ip links)) net = words.foldlM (effect expand links) net := by
    induction words generalizing net with
    | nil => rfl
    | cons ws words ih =>
      rw [List.forall_mem_cons] at there
      obtain ⟨ip, member⟩ := there.1
      have first : ∃ rest, ws = "ip" :: rest := by
        obtain ⟨action, -, rfl | rfl⟩ := mem_serverWords member <;> exact ⟨_, rfl⟩
      obtain ⟨rest, rfl⟩ := first
      have command : Line.commands (.command ("ip" :: rest)) =
          [("ip" :: rest).takeWhile (!isSign ·)] := by
        simp [Line.commands, isSign]
      rw [List.flatMap_cons, command, List.singleton_append, List.foldlM_cons, List.foldlM_cons]
      exact congrArg _ (funext fun net => ih there.2 net)
  have commands : p.lines.flatMap Line.commands =
      (p.serverIps.flatMap p.serverWords).flatMap fun ws => Line.commands (.command ws) := by
    have silent : p.remarks.flatMap Line.commands = [] := by
      unfold remarks
      split <;> rfl
    rw [RouteParams.lines, List.flatMap_append, silent, List.nil_append, List.flatMap_map]
  rw [sh_errexit "!/bin/sh" (by decide) readable [] _
    (by rw [List.append_nil, script_eq]), commands_nil, List.append_nil, commands, lines]
  intro ws member
  obtain ⟨ip, -, here⟩ := List.mem_flatMap.mp member
  exact ⟨ip, here⟩

/-- It does to the device that the word becomes what its entries tell, one by one. -/
theorem sh_script {p : RouteParams} (unbroken : Unbroken p.dev) {dev : String}
    (becomes : Becomes expand p.dev dev) (has : links.has dev = true) (before after : Network) :
    sh expand (ip links) (script p) before = .ok after ↔
      ({ p with dev } : RouteParams).entries.foldlM ({ p with dev } : RouteParams).change before =
        some after := by
  have folds : ∀ (ips : List IpAddr) (net : Network),
      (ips.flatMap p.serverWords).foldlM (effect expand links) net =
        (ips.flatMap ({ p with dev } : RouteParams).serverEntries).foldlM
          ({ p with dev } : RouteParams).change net := by
    intro ips
    induction ips with
    | nil => exact fun _ => rfl
    | cons a ips ih =>
      intro net
      simp only [List.flatMap_cons, List.foldlM_append, serverWords_foldlM becomes has, ih]
  rw [sh_lines (readable unbroken), folds, entries]

end
end RouteParams
end HyperionVpn.Client
