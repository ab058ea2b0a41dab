import HyperionVpn.Lib.SocketAddr

/-! Routing by policy: routes in numbered tables, rules that send packets to a
table, and the `ip` commands that add them and take them away. -/
namespace Net

namespace Ipv6Addr

def toNat (ip : Ipv6Addr) : Nat := ip.segments.foldl (fun n segment => n * 65536 + segment.toNat) 0

/-- An address at the end of a text reads as it does before a bracket. -/
def parse (s : String) : Option Ipv6Addr :=
  match read (s.toList ++ [']']) with
  | some (ip, [']']) => some ip
  | _ => none

end Ipv6Addr

/-- The addresses whose first `len` bits are these. -/
structure Prefix where
  width : Nat
  len : Nat
  high : Nat
  deriving DecidableEq, Repr

namespace IpAddr

def width : IpAddr → Nat
  | v4 _ => 32
  | v6 _ => 128

def toNat : IpAddr → Nat
  | v4 ip => ip.toNat
  | v6 ip => ip.toNat

/-- `ip/len`. -/
def network (ip : IpAddr) (len : Nat) : Prefix := ⟨ip.width, len, ip.toNat / 2 ^ (ip.width - len)⟩

def display : IpAddr → String
  | v4 ip => ip.display
  | v6 ip => ip.display

/-- A colon tells the families apart. -/
def parse (s : String) : Option IpAddr :=
  if ':' ∈ s.toList then (Ipv6Addr.parse s).map v6 else (Ipv4Addr.parse s).map v4

end IpAddr

def Prefix.Covers (p : Prefix) (ip : IpAddr) : Prop := ip.network p.len = p

instance (p : Prefix) (ip : IpAddr) : Decidable (p.Covers ip) :=
  inferInstanceAs (Decidable (_ = _))

structure Packet where
  dst : IpAddr
  mark : UInt32

structure Route where
  dst : Prefix
  dev : String
  table : UInt32
  deriving DecidableEq

/-- A rule `[not] [to dst] [fwmark mark] lookup table` for the addresses of one width. -/
structure Rule where
  width : Nat
  inverted : Bool
  dst : Option Prefix
  mark : Option UInt32
  table : UInt32
  priority : UInt32
  deriving DecidableEq

/-- What `not` turns around: the mark that comes after it, or the whole of the
rule's selector. -/
inductive Negation where
  | mark
  | selector
  deriving DecidableEq, Repr

namespace Rule

def To (rule : Rule) (packet : Packet) : Prop := ∀ p ∈ rule.dst, p.Covers packet.dst

def Marked (rule : Rule) (packet : Packet) : Prop := ∀ mark ∈ rule.mark, packet.mark = mark

def Selects (negation : Negation) (rule : Rule) (packet : Packet) : Prop :=
  rule.width = packet.dst.width ∧
    match negation with
    | .mark => rule.To packet ∧ (rule.Marked packet ↔ rule.inverted = false)
    | .selector => (rule.To packet ∧ rule.Marked packet) ↔ rule.inverted = false

instance (rule : Rule) (packet : Packet) : Decidable (rule.To packet) :=
  inferInstanceAs (Decidable (∀ p ∈ rule.dst, p.Covers packet.dst))

instance (rule : Rule) (packet : Packet) : Decidable (rule.Marked packet) :=
  inferInstanceAs (Decidable (∀ mark ∈ rule.mark, packet.mark = mark))

instance (negation : Negation) (rule : Rule) (packet : Packet) :
    Decidable (rule.Selects negation packet) :=
  match negation with
  | .mark => inferInstanceAs (Decidable (_ ∧ _ ∧ (_ ↔ _)))
  | .selector => inferInstanceAs (Decidable (_ ∧ (_ ∧ _ ↔ _)))

end Rule

/-- The devices that there are. None has an empty name, or one with white space in it. -/
structure Links where
  has : String → Bool
  solid : ∀ name, has name = true →
    name.toList ≠ [] ∧ ∀ c ∈ name.toList, c ≠ ' ' ∧ c ≠ '\t' ∧ c ≠ '\n'

/-- A route is known by its table and its prefix. The rules stand by their priority,
and those of one priority as they were added. -/
@[ext]
structure Network where
  routes : UInt32 × Prefix → Option String
  rules : List Rule
  sorted : rules.Pairwise (·.priority ≤ ·.priority)

inductive RoutingEntry where
  | route (route : Route)
  | rule (rule : Rule)
  deriving DecidableEq

/-- The result for the greatest number, up to this one, that has one. -/
def greatest (f : Nat → Option α) : Nat → Option α
  | 0 => f 0
  | n + 1 => (f (n + 1)).or (greatest f n)

/-- The rules up to a priority, and those after it. -/
def ahead (priority : UInt32) (rules : List Rule) : List Rule :=
  rules.takeWhile (·.priority ≤ priority)

def behind (priority : UInt32) (rules : List Rule) : List Rule :=
  rules.dropWhile (·.priority ≤ priority)

theorem ahead_append_behind (priority : UInt32) (rules : List Rule) :
    ahead priority rules ++ behind priority rules = rules :=
  List.takeWhile_append_dropWhile

theorem ahead_le {priority : UInt32} {rules : List Rule} {rule : Rule}
    (member : rule ∈ ahead priority rules) : rule.priority ≤ priority := by
  have holds := List.mem_takeWhile_imp member
  exact of_decide_eq_true holds

theorem lt_behind {priority : UInt32} {rules : List Rule}
    (sorted : rules.Pairwise (·.priority ≤ ·.priority)) {rule : Rule}
    (member : rule ∈ behind priority rules) : priority < rule.priority := by
  induction rules with
  | nil => cases member
  | cons first rest ih =>
    rw [List.pairwise_cons] at sorted
    by_cases before : first.priority ≤ priority
    · rw [behind, List.dropWhile_cons_of_pos (by simpa using before)] at member
      exact ih sorted.2 member
    · rw [behind, List.dropWhile_cons_of_neg (by simpa using before)] at member
      have above : priority < first.priority := UInt32.not_le.mp before
      rcases List.mem_cons.mp member with rfl | later
      · exact above
      · exact UInt32.lt_of_lt_of_le above (sorted.1 rule later)

section
variable {priority : UInt32} {rules news : List Rule} (own : ∀ rule ∈ news, rule.priority = priority)
include own

/-- Rules of the priority, after those that are there. -/
theorem sorted_amid (sorted : rules.Pairwise (·.priority ≤ ·.priority)) :
    (ahead priority rules ++ news ++ behind priority rules).Pairwise (·.priority ≤ ·.priority) := by
  have later : ∀ rule ∈ behind priority rules, priority ≤ rule.priority :=
    fun rule member => UInt32.le_of_lt (lt_behind sorted member)
  have parts := sorted
  rw [← ahead_append_behind priority rules, List.pairwise_append] at parts
  obtain ⟨front, back, between⟩ := parts
  rw [List.append_assoc, List.pairwise_append, List.pairwise_append]
  refine ⟨front, ⟨?_, back, ?_⟩, ?_⟩
  · apply List.pairwise_of_forall_mem_list
    intro a first b second
    rw [own a first, own b second]
    exact UInt32.le_refl _
  · intro a first b second
    rw [own a first]
    exact later b second
  · intro a first b second
    rcases List.mem_append.mp second with new | old
    · rw [own b new]
      exact ahead_le first
    · exact between a first b old

theorem ahead_amid : ahead priority (ahead priority rules ++ news ++ behind priority rules) =
    ahead priority rules ++ news := by
  have none : (behind priority rules).takeWhile (·.priority ≤ priority) = [] := by
    induction rules with
    | nil => rfl
    | cons first rest ih =>
      by_cases before : first.priority ≤ priority
      · rw [behind, List.dropWhile_cons_of_pos (by simpa using before)]
        exact ih
      · rw [behind, List.dropWhile_cons_of_neg (by simpa using before),
          List.takeWhile_cons_of_neg (by simpa using before)]
  rw [ahead, List.takeWhile_append_of_pos, none, List.append_nil]
  intro rule member
  rcases List.mem_append.mp member with old | new
  · simpa using ahead_le old
  · simp [own rule new]

theorem behind_amid : behind priority (ahead priority rules ++ news ++ behind priority rules) =
    behind priority rules := by
  have whole := ahead_append_behind priority (ahead priority rules ++ news ++ behind priority rules)
  rw [ahead_amid own] at whole
  exact List.append_cancel_left whole

end

namespace Network

/-- No route and no rule. -/
def empty : Network := ⟨fun _ => none, [], .nil⟩

/-! Packets. -/

/-- The device of the longest prefix in the table. -/
def route (net : Network) (table : UInt32) (ip : IpAddr) : Option String :=
  greatest (fun len => net.routes (table, ip.network len)) ip.width

/-- Where the rule takes the packet, if it selects it and its table has a route. -/
def taken (negation : Negation) (net : Network) (packet : Packet) (rule : Rule) :
    Option (UInt32 × String) :=
  if rule.Selects negation packet then (net.route rule.table packet.dst).map (rule.table, ·) else none

/-- The table in which the packet is found, and the device to which it is sent. -/
def lookup (negation : Negation) (net : Network) (packet : Packet) : Option (UInt32 × String) :=
  net.rules.findSome? (net.taken negation packet)

/-! Changes. -/

/-- There is no second route to a prefix in a table. -/
def addRoute (net : Network) (route : Route) : Option Network :=
  if net.routes (route.table, route.dst) = none then
    some { net with routes := Function.update net.routes (route.table, route.dst) (some route.dev) }
  else none

def delRoute (net : Network) (route : Route) : Option Network :=
  if net.routes (route.table, route.dst) = some route.dev then
    some { net with routes := Function.update net.routes (route.table, route.dst) none }
  else none

/-- There is no second rule like one that is there. -/
def addRule (net : Network) (rule : Rule) : Option Network :=
  if rule ∈ net.rules then none
  else some { net with
    rules := ahead rule.priority net.rules ++ [rule] ++ behind rule.priority net.rules
    sorted := sorted_amid (by simp) net.sorted }

def delRule (net : Network) (rule : Rule) : Option Network :=
  if rule ∈ net.rules then some { net with
    rules := net.rules.erase rule
    sorted := net.sorted.sublist List.erase_sublist }
  else none

def add (net : Network) : RoutingEntry → Option Network
  | .route route => net.addRoute route
  | .rule rule => net.addRule rule

def del (net : Network) : RoutingEntry → Option Network
  | .route route => net.delRoute route
  | .rule rule => net.delRule rule

end Network

/-! The commands. -/

/-- A number in decimal, or in hexadecimal after `0x`. -/
def parseU32 (s : String) : Option UInt32 :=
  match s.toList with
  | '0' :: 'x' :: digits => (Text.parseWith (Text.readNumber 16 none true 4294967295)
      (String.ofList digits)).map UInt32.ofNat
  | _ => (Text.parseWith (Text.readNumber 10 none false 4294967295) s).map UInt32.ofNat

def parsePrefix (s : String) : Option Prefix :=
  match s.toList.splitOn '/' with
  | [address, len] => do
    let ip ← IpAddr.parse (String.ofList address)
    let len ← Text.parseWith (Text.readNumber 10 none false ip.width) (String.ofList len)
    return ip.network len
  | _ => none

def changeEntry (action : String) (entry : RoutingEntry) (net : Network) : Option Network :=
  if action = "add" then net.add entry else if action = "del" then net.del entry else none

/-- The commands on routes and rules, in the forms whose meaning is known here. -/
def ip (links : Links) (command : List String) (net : Network) : Option Network :=
  match command with
  | ["ip", "route", action, dst, "dev", dev, "table", table] => do
    let dst ← parsePrefix dst
    let table ← parseU32 table
    if links.has dev then changeEntry action (.route ⟨dst, dev, table⟩) net else none
  | ["ip", "rule", action, "to", dst, "not", "fwmark", mark, "lookup", table, "priority",
      priority] => do
    let dst ← parsePrefix dst
    let mark ← parseU32 mark
    let table ← parseU32 table
    let priority ← parseU32 priority
    changeEntry action (.rule ⟨dst.width, true, some dst, some mark, table, priority⟩) net
  | _ => none

/-! Texts of addresses. -/

/-- The characters of an address. -/
def InAddress (c : Char) : Prop := Text.IsDigit 16 c = true ∨ c = '.' ∨ c = ':'

theorem isDigit_of_decimal {c : Char} (digit : Text.IsDigit 10 c = true) :
    Text.IsDigit 16 c = true := by
  simp only [Text.IsDigit, Text.toDigit, Option.isSome_iff_exists] at digit ⊢
  grind

theorem Ipv4Addr.mem_display {ip : Ipv4Addr} {c : Char} (member : c ∈ ip.display.toList) :
    Text.IsDigit 10 c = true ∨ c = '.' := by
  have digits {n : UInt8} (member : c ∈ octet n) : Text.IsDigit 10 c = true :=
    Text.isDigit_toDigits (by decide) (by decide) c member
  simp only [display_toList, List.mem_append, List.mem_cons] at member
  rcases member with a | rfl | b | rfl | c | rfl | d
  · exact .inl (digits a)
  · exact .inr rfl
  · exact .inl (digits b)
  · exact .inr rfl
  · exact .inl (digits c)
  · exact .inr rfl
  · exact .inl (digits d)

namespace Ipv6Addr

theorem mem_hex {segment : UInt16} {c : Char} (member : c ∈ hex segment) :
    Text.IsDigit 16 c = true :=
  Text.isDigit_toDigits (by decide) (by decide) c member

theorem mem_fmtSubslice {chunk : List UInt16} {c : Char}
    (member : c ∈ (fmtSubslice chunk).toList) : InAddress c := by
  cases chunk with
  | nil => simp [fmtSubslice] at member
  | cons segment chunk =>
    rw [fmtSubslice_cons, List.mem_append] at member
    rcases member with first | others
    · exact .inl (mem_hex first)
    · obtain ⟨segment, -, here⟩ := List.mem_flatMap.mp others
      rcases List.mem_cons.mp here with rfl | digit
      · exact .inr (.inr rfl)
      · exact .inl (mem_hex digit)

theorem colon_mem_fmtSubslice (first second : UInt16) (chunk : List UInt16) :
    ':' ∈ (fmtSubslice (first :: second :: chunk)).toList := by
  rw [fmtSubslice_cons]
  simp [tailText]

theorem colon_mem_display (ip : Ipv6Addr) : ':' ∈ ip.display.toList := by
  unfold display
  split
  · simp
  · dsimp only
    split
    · simp
    · obtain ⟨segments, eight⟩ := ip
      obtain ⟨first, rest, rfl⟩ := List.exists_cons_of_length_eq_add_one eight
      obtain ⟨second, rest, rfl⟩ := List.exists_cons_of_length_eq_add_one (Nat.succ.inj eight)
      exact colon_mem_fmtSubslice first second rest

theorem mem_display {ip : Ipv6Addr} {c : Char} (member : c ∈ ip.display.toList) : InAddress c := by
  have colon : InAddress ':' := .inr (.inr rfl)
  have letter : InAddress 'f' := .inl (by decide)
  unfold display at member
  split at member
  · rw [String.toList_append, List.mem_append] at member
    rcases member with front | embedded
    · simp at front
      rcases front with rfl | rfl | rfl <;> assumption
    · rcases Ipv4Addr.mem_display embedded with digit | dot
      · exact .inl (isDigit_of_decimal digit)
      · exact .inr (.inl dot)
  · dsimp only at member
    split at member
    · simp only [String.toList_append, List.mem_append] at member
      rcases member with (head | gap) | tail
      · exact mem_fmtSubslice head
      · simp at gap
        rwa [gap]
      · exact mem_fmtSubslice tail
    · exact mem_fmtSubslice member

theorem parse_display (ip : Ipv6Addr) : parse ip.display = some ip := by
  simp only [parse, read_display ip (stops_bracket [])]

end Ipv6Addr

namespace IpAddr

theorem mem_display {ip : IpAddr} {c : Char} (member : c ∈ ip.display.toList) : InAddress c := by
  cases ip with
  | v4 ip =>
    rcases Ipv4Addr.mem_display member with digit | dot
    · exact .inl (isDigit_of_decimal digit)
    · exact .inr (.inl dot)
  | v6 ip => exact Ipv6Addr.mem_display member

theorem parse_display (ip : IpAddr) : parse ip.display = some ip := by
  cases ip with
  | v4 ip =>
    have colon : ':' ∉ ip.display.toList := by
      intro member
      rcases Ipv4Addr.mem_display member with digit | dot
      · exact absurd digit (by decide)
      · exact absurd dot (by decide)
    simp [parse, display, colon, ip.parse_display]
  | v6 ip => simp [parse, display, ip.colon_mem_display, ip.parse_display]

end IpAddr

/-! What the commands read back. -/

theorem parseU32_decimal (n : UInt32) :
    parseU32 (String.ofList (Nat.toDigits 10 n.toNat)) = some n := by
  have bound := n.toNat_lt
  have number := Text.parseWith_toDigits 10 (by decide) (by decide) false
    (Nat.le_of_lt_succ bound)
  unfold parseU32
  split
  · rename_i digits text
    rw [String.toList_ofList] at text
    have member : 'x' ∈ Nat.toDigits 10 n.toNat := by simp [text]
    have digit : Text.IsDigit 10 'x' = true :=
      Text.isDigit_toDigits (by decide) (by decide) 'x' member
    exact absurd digit (by decide)
  · simp [number]

theorem parseU32_hexadecimal (n : UInt32) :
    parseU32 ("0x" ++ String.ofList (Nat.toDigits 16 n.toNat)) = some n := by
  have bound := n.toNat_lt
  have number := Text.parseWith_toDigits 16 (by decide) (by decide) true
    (Nat.le_of_lt_succ bound)
  have text : ("0x" ++ String.ofList (Nat.toDigits 16 n.toNat)).toList =
      '0' :: 'x' :: Nat.toDigits 16 n.toNat := by simp
  simp [parseU32, text, number]

theorem parsePrefix_display (ip : IpAddr) :
    parsePrefix (ip.display ++ "/32") = some (ip.network 32) := by
  have slash : '/' ∉ ip.display.toList := by
    intro member
    rcases IpAddr.mem_display member with digit | dot | colon
    · exact absurd digit (by decide)
    · exact absurd dot (by decide)
    · exact absurd colon (by decide)
  have text : (ip.display ++ "/32").toList = ip.display.toList ++ '/' :: ['3', '2'] := by simp
  have split : (ip.display ++ "/32").toList.splitOn '/' = [ip.display.toList, ['3', '2']] := by
    rw [text, List.splitOn_append_cons_self_of_not_mem slash]
    rfl
  have len : Text.parseWith (Text.readNumber 10 none false ip.width) (String.ofList ['3', '2']) =
      some 32 := by
    have wide : 32 ≤ ip.width := by cases ip <;> simp [IpAddr.width]
    have digits : ['3', '2'] = Nat.toDigits 10 32 := by decide
    rw [digits]
    exact Text.parseWith_toDigits 10 (by decide) (by decide) false wide
  simp only [parsePrefix, split, String.ofList_toList, ip.parse_display, Option.bind_eq_bind,
    Option.bind_some, len]
  rfl

/-! Lookups. -/

theorem greatest_eq_none {f : Nat → Option α} {n : Nat} :
    greatest f n = none ↔ ∀ k ≤ n, f k = none := by
  induction n with
  | zero => simp [greatest]
  | succ n ih =>
    rw [greatest, Option.or_eq_none_iff, ih]
    constructor
    · rintro ⟨top, below⟩ k le
      rcases Nat.lt_or_eq_of_le le with lt | rfl
      · exact below k (Nat.le_of_lt_succ lt)
      · exact top
    · intro none
      exact ⟨none _ (Nat.le_refl _), fun k le => none k (Nat.le_succ_of_le le)⟩

theorem greatest_top {f : Nat → Option α} {n : Nat} {a : α} (top : f n = some a) :
    greatest f n = some a := by
  cases n with
  | zero => exact top
  | succ n => rw [greatest, top, Option.some_or]

theorem greatest_congr {f g : Nat → Option α} {n : Nat} (same : ∀ k ≤ n, f k = g k) :
    greatest f n = greatest g n := by
  induction n with
  | zero => exact same 0 (Nat.le_refl 0)
  | succ n ih =>
    rw [greatest, greatest, same (n + 1) (Nat.le_refl _), ih fun k le => same k (Nat.le_succ_of_le le)]

theorem greatest_mem {f : Nat → Option α} {n : Nat} {a : α} (found : greatest f n = some a) :
    ∃ k, f k = some a := by
  induction n with
  | zero => exact ⟨0, found⟩
  | succ n ih =>
    rw [greatest, Option.or_eq_some_iff] at found
    rcases found with here | ⟨-, below⟩
    · exact ⟨n + 1, here⟩
    · exact ih below

namespace Network

/-- A device to which packets are sent is that of a route. -/
theorem route_mem {net : Network} {table : UInt32} {ip : IpAddr} {dev : String}
    (found : net.route table ip = some dev) : ∃ key, net.routes key = some dev := by
  obtain ⟨len, there⟩ := greatest_mem found
  exact ⟨_, there⟩

theorem taken_eq_some {negation : Negation} {net : Network} {packet : Packet} {rule : Rule}
    {table : UInt32} {dev : String} : net.taken negation packet rule = some (table, dev) ↔
      rule.Selects negation packet ∧ rule.table = table ∧ net.route table packet.dst = some dev := by
  rw [taken]
  split
  · rename_i selects
    rw [Option.map_eq_some_iff]
    constructor
    · rintro ⟨found, there, same⟩
      cases same
      exact ⟨selects, rfl, there⟩
    · rintro ⟨-, rfl, there⟩
      exact ⟨dev, there, rfl⟩
  · rename_i other
    simp [other]

theorem findSome_taken {negation : Negation} {net : Network} {packet : Packet} {rules : List Rule}
    {found : UInt32 × String} (there : rules.findSome? (net.taken negation packet) = some found) :
    net.route found.1 packet.dst = some found.2 := by
  obtain ⟨rule, -, taken⟩ := List.exists_of_findSome?_eq_some there
  exact (taken_eq_some.mp taken).2.2

/-- Rules to one table take the packets that one of them selects and the table routes. -/
theorem findSome_taken_table {negation : Negation} {net : Network} {packet : Packet}
    {rules : List Rule} {table : UInt32} (own : ∀ rule ∈ rules, rule.table = table) :
    rules.findSome? (net.taken negation packet) =
      if ∃ rule ∈ rules, rule.Selects negation packet then
        (net.route table packet.dst).map (table, ·)
      else none := by
  induction rules with
  | nil => simp
  | cons rule rules ih =>
    rw [List.forall_mem_cons] at own
    obtain ⟨rfl, others⟩ := own
    rw [List.findSome?_cons, ih others, taken]
    by_cases selects : rule.Selects negation packet
    · cases net.route rule.table packet.dst <;> simp [selects]
    · simp [selects]

/-- Only the routes to its address matter to where a packet is taken. -/
theorem taken_congr {negation : Negation} {net other : Network} {packet : Packet}
    (same : ∀ table, net.route table packet.dst = other.route table packet.dst) :
    net.taken negation packet = other.taken negation packet := by
  funext rule
  rw [taken, taken, same]

end Network

/-! Commands. -/

/-- Only devices that there are have routes. -/
def Linked (links : Links) (net : Network) : Prop :=
  ∀ key dev, net.routes key = some dev → links.has dev = true

theorem addRoute_eq_some {net after : Network} {route : Route} :
    net.addRoute route = some after ↔ net.routes (route.table, route.dst) = none ∧
      after = { net with
        routes := Function.update net.routes (route.table, route.dst) (some route.dev) } := by
  rw [Network.addRoute]
  split
  · rename_i new
    simp [new, eq_comm]
  · rename_i known
    simp [known]

theorem addRule_eq_some {net after : Network} {rule : Rule} :
    net.addRule rule = some after ↔ rule ∉ net.rules ∧ after.routes = net.routes ∧
      after.rules = ahead rule.priority net.rules ++ [rule] ++ behind rule.priority net.rules := by
  rw [Network.addRule]
  split
  · rename_i known
    simp [known]
  · rename_i new
    simp [new, Network.ext_iff, eq_comm]

theorem linked_changeEntry {links : Links} {action : String} {entry : RoutingEntry}
    {net after : Network} (changed : changeEntry action entry net = some after)
    (named : ∀ route, entry = .route route → links.has route.dev = true)
    (linked : Linked links net) : Linked links after := by
  unfold changeEntry at changed
  split at changed
  · cases entry with
    | route route =>
      obtain ⟨-, rfl⟩ := addRoute_eq_some.mp changed
      intro key dev there
      dsimp only at there
      rw [Function.update_apply] at there
      split at there
      · cases there
        exact named route rfl
      · exact linked key dev there
    | rule rule =>
      simp only [Network.add, Network.addRule] at changed
      split at changed
      · cases changed
      · cases changed
        exact linked
  split at changed
  · cases entry with
    | route route =>
      simp only [Network.del, Network.delRoute] at changed
      split at changed
      · cases changed
        intro key dev there
        dsimp only at there
        rw [Function.update_apply] at there
        split at there
        · cases there
        · exact linked key dev there
      · cases changed
    | rule rule =>
      simp only [Network.del, Network.delRule] at changed
      split at changed
      · cases changed
        exact linked
      · cases changed
  · cases changed

theorem linked_ip {links : Links} {command : List String} {net after : Network}
    (changed : ip links command net = some after) (linked : Linked links net) :
    Linked links after := by
  unfold ip at changed
  split at changed
  · simp only [Option.bind_eq_bind, Option.bind_eq_some_iff] at changed
    obtain ⟨dst, -, table, -, changed⟩ := changed
    split at changed
    · rename_i known
      exact linked_changeEntry changed (fun route same => by cases same; exact known) linked
    · cases changed
  · simp only [Option.bind_eq_bind, Option.bind_eq_some_iff] at changed
    obtain ⟨dst, -, mark, -, table, -, priority, -, changed⟩ := changed
    exact linked_changeEntry changed (fun route same => by cases same) linked
  · cases changed

/-- A command on a route has one device. -/
theorem ip_route_device {links : Links} {action dst table : String} {devs : List String}
    {net after : Network}
    (changed : ip links (["ip", "route", action, dst, "dev"] ++ devs ++ ["table", table]) net =
      some after) : ∃ dev, devs = [dev] := by
  unfold ip at changed
  split at changed
  · rename_i dev _ same
    simp only [List.cons_append, List.nil_append, List.cons.injEq, true_and] at same
    obtain ⟨-, -, same⟩ := same
    have length := congrArg List.length same
    simp only [List.length_append, List.length_cons, List.length_nil] at length
    exact List.length_eq_one_iff.mp (by omega)
  · rename_i same
    simp at same
  · cases changed

/-! Host routes. -/

/-- With 32 bits, an IPv4 prefix is one address. -/
theorem network_v4 {a : Ipv4Addr} {b : IpAddr} :
    b.network 32 = (IpAddr.v4 a).network 32 ↔ b = .v4 a := by
  constructor
  · intro same
    cases b with
    | v4 b =>
      simp only [IpAddr.network, IpAddr.width, IpAddr.toNat, Nat.sub_self, pow_zero, Nat.div_one,
        Prefix.mk.injEq, true_and] at same
      rw [Ipv4Addr.toNat_injective same]
    | v6 b => simp [IpAddr.network, IpAddr.width] at same
  · rintro rfl
    rfl

/-- With 32 bits, an IPv6 prefix is never one address. -/
theorem network_v6 (a : Ipv6Addr) :
    ∃ b : IpAddr, b ≠ .v6 a ∧ b.network 32 = (IpAddr.v6 a).network 32 := by
  obtain ⟨segments, eight⟩ := a
  rcases List.eq_nil_or_concat segments with rfl | ⟨front, last, rfl⟩
  · simp at eight
  · refine ⟨.v6 ⟨front ++ [last + 1], by simpa using eight⟩, by simp, ?_⟩
    have low := last.toNat_lt
    have other := (last + 1).toNat_lt
    simp only [IpAddr.network, IpAddr.width, IpAddr.toNat, Ipv6Addr.toNat,
      List.concat_eq_append, List.foldl_append,
      List.foldl_cons, List.foldl_nil, Prefix.mk.injEq, true_and]
    omega

end Net
