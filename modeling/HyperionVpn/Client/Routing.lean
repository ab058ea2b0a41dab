import HyperionVpn.Client.Routes

/-! What the scripts of `print-routes` do to a network, and when they do what
they are for. -/
namespace HyperionVpn.Client
open Net Shell

namespace RouteParams

def up (p : RouteParams) : RouteParams := { p with down := false }

/-- Another invocation sees the same servers in an order of its own. -/
def takeDown (p : RouteParams) (order : List IpAddr) : RouteParams :=
  { p with serverIps := order, down := true }

/-- The up script runs to its end. After it the packets to the servers without the
mark are looked up in the table and sent to the device, and all others as before.
The down script, for the same servers in any order, takes back what it did. -/
def Exact (expand : String → Option (List String)) (links : Links) (negation : Negation)
    (p : RouteParams) (before : Network) : Prop :=
  ∃ after, sh expand (ip links) (script p.up) before = .ok after ∧
    (∀ packet, after.lookup negation packet =
      if packet.dst ∈ p.serverIps ∧ packet.mark ≠ p.mark then some (p.table, p.dev)
      else before.lookup negation packet) ∧
    ∀ order, order.Perm p.serverIps →
      sh expand (ip links) (script (p.takeDown order)) after = .ok before

/-- None of the entries is there. -/
structure New (p : RouteParams) (before : Network) : Prop where
  route : ∀ a ∈ p.serverIps, before.routes (p.table, a.network 32) ≠ some p.dev
  rule : ∀ a ∈ p.serverIps, p.rule a ∉ before.rules

/-! The networks that the scripts go through. -/

def ruleTo (p : RouteParams) (dst : Prefix) : Rule :=
  ⟨dst.width, true, some dst, some p.mark, p.table, p.priority⟩

def prefixes (p : RouteParams) : List Prefix := p.serverIps.map (·.network 32)

/-- The routes to the prefixes, over those that are there. -/
def routed (p : RouteParams) (before : Network) (dsts : List Prefix) : Network :=
  { before with routes := fun key =>
      if key.1 = p.table ∧ key.2 ∈ dsts then some p.dev else before.routes key }

/-- The rules too. -/
def installed (p : RouteParams) (before : Network) (dsts : List Prefix) : Network :=
  { p.routed before dsts with
    rules := ahead p.priority before.rules ++ dsts.map p.ruleTo ++ behind p.priority before.rules
    sorted := sorted_amid (by simp [ruleTo]) before.sorted }

theorem ruleTo_injective (p : RouteParams) : Function.Injective p.ruleTo := by
  intro a b same
  simp only [ruleTo, Rule.mk.injEq, Option.some.injEq] at same
  exact same.2.2.1

theorem rule_eq (p : RouteParams) (a : IpAddr) : p.rule a = p.ruleTo (a.network 32) := rfl

theorem installed_nil (p : RouteParams) (before : Network) : p.installed before [] = before := by
  ext key
  · simp [installed, routed]
  · simp [installed, ahead_append_behind]

section
variable {p : RouteParams} {before after : Network} {dsts : List Prefix}

/-- Nothing of the server is there, be it a route to another device. -/
def Free (p : RouteParams) (before : Network) (a : IpAddr) : Prop :=
  before.routes (p.table, a.network 32) = none ∧ p.rule a ∉ before.rules

theorem installed_routes (a : IpAddr) : (p.installed before dsts).routes (p.table, a.network 32) =
    if a.network 32 ∈ dsts then some p.dev else before.routes (p.table, a.network 32) := by
  simp [installed, routed]

theorem rule_mem_installed (a : IpAddr) : p.rule a ∈ (p.installed before dsts).rules ↔
    a.network 32 ∈ dsts ∨ p.rule a ∈ before.rules := by
  have own : p.rule a ∈ dsts.map p.ruleTo ↔ a.network 32 ∈ dsts := by
    rw [rule_eq, List.mem_map_of_injective p.ruleTo_injective]
  have there : p.rule a ∈ before.rules ↔
      p.rule a ∈ ahead p.priority before.rules ∨ p.rule a ∈ behind p.priority before.rules := by
    rw [← List.mem_append, ahead_append_behind]
  rw [there]
  simp only [installed, List.mem_append, own]
  tauto

/-! Up. -/

theorem update_installed (a : IpAddr) :
    Function.update (p.installed before dsts).routes (p.table, a.network 32) (some p.dev) =
      (p.installed before (dsts ++ [a.network 32])).routes := by
  funext key
  rw [Function.update_apply]
  simp only [installed, routed, List.mem_append, List.mem_singleton, Prod.ext_iff]
  split
  · rename_i here
    simp [here]
  · rename_i other
    congr 1
    simp only [eq_iff_iff]
    tauto

theorem insert_installed (a : IpAddr) :
    ahead p.priority (p.installed before dsts).rules ++ [p.rule a] ++
        behind p.priority (p.installed before dsts).rules =
      (p.installed before (dsts ++ [a.network 32])).rules := by
  have own : ∀ rule ∈ dsts.map p.ruleTo, rule.priority = p.priority := by simp [ruleTo]
  rw [show (p.installed before dsts).rules = ahead p.priority before.rules ++ dsts.map p.ruleTo ++
    behind p.priority before.rules from rfl, ahead_amid own, behind_amid own]
  simp [installed, rule_eq]

theorem add_server (a : IpAddr) :
    (p.up.serverEntries a).foldlM Network.add (p.installed before dsts) = some after ↔
      a.network 32 ∉ dsts ∧ p.Free before a ∧
        after = p.installed before (dsts ++ [a.network 32]) := by
  have entries : p.up.serverEntries a =
      [.route ⟨a.network 32, p.dev, p.table⟩, .rule (p.rule a)] := rfl
  have vacant : (p.installed before dsts).routes (p.table, a.network 32) = none ↔
      a.network 32 ∉ dsts ∧ before.routes (p.table, a.network 32) = none := by
    rw [installed_routes]
    split <;> simp_all
  rw [entries]
  simp only [List.foldlM_cons, List.foldlM_nil, bind_pure, Network.add, Option.bind_eq_bind,
    Option.bind_eq_some_iff, addRoute_eq_some, addRule_eq_some, update_installed]
  constructor
  · rintro ⟨_, ⟨none, rfl⟩, fresh, routes, rules⟩
    obtain ⟨apart, none⟩ := vacant.mp none
    rw [rule_mem_installed, not_or] at fresh
    refine ⟨apart, ⟨none, fresh.2⟩, ?_⟩
    ext1
    · exact routes
    · exact rules.trans (insert_installed a)
  · rintro ⟨apart, ⟨none, fresh⟩, rfl⟩
    refine ⟨_, ⟨vacant.mpr ⟨apart, none⟩, rfl⟩, ?_, rfl, (insert_installed a).symm⟩
    rw [rule_mem_installed, not_or]
    exact ⟨apart, fresh⟩

theorem add_servers {ips : List IpAddr} (once : dsts.Nodup) :
    (ips.flatMap p.up.serverEntries).foldlM Network.add (p.installed before dsts) = some after ↔
      (dsts ++ ips.map (·.network 32)).Nodup ∧ (∀ a ∈ ips, p.Free before a) ∧
        after = p.installed before (dsts ++ ips.map (·.network 32)) := by
  induction ips generalizing dsts with
  | nil => simp [once, eq_comm]
  | cons a ips ih =>
    have whole : dsts ++ (a :: ips).map (·.network 32) =
        dsts ++ [a.network 32] ++ ips.map (·.network 32) := by simp
    rw [List.flatMap_cons, List.foldlM_append, whole, List.forall_mem_cons]
    simp only [Option.bind_eq_bind, Option.bind_eq_some_iff, add_server]
    constructor
    · rintro ⟨_, ⟨apart, free, rfl⟩, rest⟩
      have next : (dsts ++ [a.network 32]).Nodup := by
        rw [← List.concat_eq_append]
        exact once.concat apart
      obtain ⟨nodup, others, same⟩ := (ih next).mp rest
      exact ⟨nodup, ⟨free, others⟩, same⟩
    · rintro ⟨nodup, ⟨free, others⟩, same⟩
      have next := (List.nodup_append.mp nodup).1
      have apart : a.network 32 ∉ dsts := by
        intro member
        exact (List.nodup_append.mp next).2.2 _ member _ (List.mem_singleton_self _) rfl
      exact ⟨_, ⟨apart, free, rfl⟩, (ih next).mpr ⟨nodup, others, same⟩⟩

/-! Down. -/

theorem del_server {order : List IpAddr} {a : IpAddr} (once : dsts.Nodup)
    (member : a.network 32 ∈ dsts) (free : p.Free before a) :
    ((p.takeDown order).serverEntries a).foldlM Network.del (p.installed before dsts) =
      some (p.installed before (dsts.erase (a.network 32))) := by
  have entries : (p.takeDown order).serverEntries a =
      [.rule (p.rule a), .route ⟨a.network 32, p.dev, p.table⟩] := rfl
  have there : p.rule a ∈ (p.installed before dsts).rules := (rule_mem_installed a).mpr (.inl member)
  have route : (p.installed before dsts).routes (p.table, a.network 32) = some p.dev := by
    rw [installed_routes, if_pos member]
  have rules : (p.installed before dsts).rules.erase (p.rule a) =
      (p.installed before (dsts.erase (a.network 32))).rules := by
    have old : p.rule a ∉ ahead p.priority before.rules := by
      intro early
      exact free.2 (List.takeWhile_subset _ early)
    have own : p.rule a ∈ dsts.map p.ruleTo := List.mem_map_of_mem member
    simp only [installed, List.append_assoc]
    rw [List.erase_append_right _ old, List.erase_append_left _ own, rule_eq,
      List.map_erase p.ruleTo_injective]
  have routes : Function.update (p.installed before dsts).routes (p.table, a.network 32) none =
      (p.installed before (dsts.erase (a.network 32))).routes := by
    funext key
    rw [Function.update_apply]
    simp only [installed, routed, once.mem_erase_iff]
    split
    · rename_i here
      simp [here, free.1]
    · rename_i other
      rw [Prod.ext_iff] at other
      congr 1
      simp only [eq_iff_iff]
      tauto
  rw [entries]
  simp only [List.foldlM_cons, List.foldlM_nil, bind_pure, Network.del, Network.delRule,
    Option.bind_eq_bind, if_pos there, Option.bind_some, Network.delRoute, if_pos route,
    Option.some.injEq]
  ext1
  · exact routes
  · exact rules

theorem del_servers {order ips : List IpAddr} (once : dsts.Nodup)
    (perm : (ips.map (·.network 32)).Perm dsts) (free : ∀ a ∈ ips, p.Free before a) :
    (ips.flatMap (p.takeDown order).serverEntries).foldlM Network.del (p.installed before dsts) =
      some before := by
  induction ips generalizing dsts with
  | nil =>
    rw [List.nil_perm.mp perm, installed_nil]
    rfl
  | cons a ips ih =>
    rw [List.map_cons, List.cons_perm_iff_perm_erase] at perm
    rw [List.forall_mem_cons] at free
    rw [List.flatMap_cons, List.foldlM_append, del_server once perm.1 free.1]
    exact ih (once.erase _) perm.2 free.2

end

/-! Packets. -/

/-- What the rules up to the priority make of a packet. -/
def early (negation : Negation) (p : RouteParams) (net : Network) (packet : Packet) :
    Option (UInt32 × String) :=
  (ahead p.priority net.rules).findSome? (net.taken negation packet)

/-- Some rule of the script has this packet. -/
def Reached (negation : Negation) (p : RouteParams) (packet : Packet) : Prop :=
  ∃ a ∈ p.serverIps, (p.rule a).Selects negation packet

instance (negation : Negation) (p : RouteParams) (packet : Packet) :
    Decidable (p.Reached negation packet) :=
  inferInstanceAs (Decidable (∃ a ∈ p.serverIps, _))

/-- What the scripts need of a network besides: no other route to a server in the
table; no rule up to the priority that finds packets without the mark in another
table; no rule by which those with the mark come upon the new routes; and no
route in the table for other packets that a rule of the script has, unless they
have it before or are found earlier. -/
structure Clear (negation : Negation) (p : RouteParams) (before : Network) : Prop where
  vacant : ∀ a ∈ p.serverIps, before.routes (p.table, a.network 32) = none
  unmarked : ∀ a ∈ p.serverIps, ∀ mark, mark ≠ p.mark → ∀ found,
    p.early negation (p.routed before p.prefixes) ⟨a, mark⟩ = some found → found.1 = p.table
  marked : ∀ a ∈ p.serverIps, (p.routed before p.prefixes).lookup negation ⟨a, p.mark⟩ =
    before.lookup negation ⟨a, p.mark⟩
  others : ∀ packet, packet.dst ∉ p.serverIps → p.Reached negation packet →
    ∀ dev, before.route p.table packet.dst = some dev →
      p.early negation before packet ≠ none ∨
        before.lookup negation packet = some (p.table, dev)

section
variable {negation : Negation} {p : RouteParams} {before : Network} {packet : Packet}

theorem to_rule {a : IpAddr} : (p.rule a).To packet ↔ packet.dst.network 32 = a.network 32 := by
  simp only [Rule.To, rule, Option.mem_some_iff, forall_eq']
  rfl

theorem selects_unmarked {a : IpAddr} (same : packet.dst.network 32 = a.network 32)
    (unmarked : packet.mark ≠ p.mark) : (p.rule a).Selects negation packet := by
  refine ⟨(congrArg Prefix.width same).symm, ?_⟩
  cases negation with
  | mark =>
    refine ⟨to_rule.mpr same, ?_⟩
    simp [rule, Rule.Marked, unmarked]
  | selector => simp [rule, Rule.Marked, unmarked]

/-- The rules of the script come after the ones up to their priority. -/
theorem lookup_installed (dsts : List Prefix) :
    (p.installed before dsts).lookup negation packet =
      (p.early negation (p.routed before dsts) packet).or
        (((dsts.map p.ruleTo).findSome? ((p.routed before dsts).taken negation packet)).or
          ((behind p.priority before.rules).findSome? ((p.routed before dsts).taken negation packet))) := by
  rw [Network.lookup, ← List.findSome?_append, early, ← List.findSome?_append, ← List.append_assoc]
  rfl

theorem lookup_routed (dsts : List Prefix) : (p.routed before dsts).lookup negation packet =
    (p.early negation (p.routed before dsts) packet).or
      ((behind p.priority before.rules).findSome? ((p.routed before dsts).taken negation packet)) := by
  have rules : (p.routed before dsts).rules =
      ahead p.priority before.rules ++ behind p.priority before.rules :=
    (ahead_append_behind _ _).symm
  rw [Network.lookup, rules, List.findSome?_append]
  rfl

theorem findSome_prefixes (net : Network) :
    (p.prefixes.map p.ruleTo).findSome? (net.taken negation packet) =
      if p.Reached negation packet then (net.route p.table packet.dst).map (p.table, ·)
      else none := by
  have reached : (∃ rule ∈ p.prefixes.map p.ruleTo, rule.Selects negation packet) ↔
      p.Reached negation packet := by
    simp [prefixes, Reached, rule_eq]
  have own : ∀ rule ∈ p.prefixes.map p.ruleTo, rule.table = p.table := by simp [ruleTo]
  rw [Network.findSome_taken_table own]
  simp only [reached]

/-- No rule has the packets with the mark that go to a server. -/
theorem unreached (single : negation = .selector → p.serverIps.length ≤ 1) {b : IpAddr}
    (listed : b ∈ p.serverIps) : ¬ p.Reached negation ⟨b, p.mark⟩ := by
  rintro ⟨a, member, -, selects⟩
  cases negation with
  | mark => simp [rule, Rule.Marked] at selects
  | selector =>
    have only : b = a := by
      have short := single rfl
      rcases ips : p.serverIps with _ | ⟨x, _ | ⟨y, rest⟩⟩
      · simp [ips] at member
      · simp only [ips, List.mem_singleton] at member listed
        rw [member, listed]
      · simp [ips] at short
    have whole : (p.rule a).To ⟨b, p.mark⟩ ∧ (p.rule a).Marked ⟨b, p.mark⟩ :=
      ⟨to_rule.mpr (by rw [only]), by simp [rule, Rule.Marked]⟩
    simp [whole, show (p.rule a).inverted = true from rfl] at selects

/-- One address to a server, and none of them IPv6. -/
structure Hosts (p : RouteParams) : Prop where
  once : p.serverIps.Nodup
  v4 : ∀ a ∈ p.serverIps, ∃ v4, a = .v4 v4

namespace Hosts
variable (hosts : Hosts p)
include hosts

theorem same {a b : IpAddr} (member : a ∈ p.serverIps) (same : b.network 32 = a.network 32) :
    b = a := by
  obtain ⟨v4, rfl⟩ := hosts.v4 a member
  exact network_v4.mp same

theorem nodup : p.prefixes.Nodup :=
  hosts.once.map_on fun _ _ _ second same => hosts.same second same

theorem mem {b : IpAddr} {len : Nat} : b.network len ∈ p.prefixes ↔ len = 32 ∧ b ∈ p.serverIps := by
  constructor
  · intro member
    obtain ⟨a, listed, same⟩ := List.mem_map.mp member
    obtain rfl : 32 = len := congrArg Prefix.len same
    obtain rfl := hosts.same listed same.symm
    exact ⟨rfl, listed⟩
  · rintro ⟨rfl, listed⟩
    exact List.mem_map_of_mem listed

/-- The new routes are longest for the servers, and not there for others. -/
theorem route (table : UInt32) (ip : IpAddr) : (p.routed before p.prefixes).route table ip =
    if table = p.table ∧ ip ∈ p.serverIps then some p.dev else before.route table ip := by
  split
  · rename_i own
    obtain ⟨rfl, listed⟩ := own
    have width : ip.width = 32 := by
      obtain ⟨v4, rfl⟩ := hosts.v4 ip listed
      rfl
    apply greatest_top
    rw [width]
    exact if_pos ⟨rfl, hosts.mem.mpr ⟨rfl, listed⟩⟩
  · rename_i other
    apply greatest_congr
    intro len _
    apply if_neg
    rintro ⟨here, member⟩
    exact other ⟨here, (hosts.mem.mp member).2⟩

/-- Other packets are taken by the rules that are there as before. -/
theorem taken_other (unlisted : packet.dst ∉ p.serverIps) :
    (p.routed before p.prefixes).taken negation packet = before.taken negation packet := by
  apply Network.taken_congr
  intro table
  rw [hosts.route, if_neg fun own => unlisted own.2]

theorem early_other (unlisted : packet.dst ∉ p.serverIps) :
    p.early negation (p.routed before p.prefixes) packet = p.early negation before packet := by
  rw [early, early, hosts.taken_other unlisted]
  rfl

theorem lookup_other (unlisted : packet.dst ∉ p.serverIps) :
    (p.routed before p.prefixes).lookup negation packet = before.lookup negation packet := by
  rw [Network.lookup, Network.lookup, hosts.taken_other unlisted]
  rfl

end Hosts

/-- If the up script installs its entries, it sends where it should exactly from
the networks that are clear. -/
theorem lookups_iff (hosts : p.Hosts) (single : negation = .selector → p.serverIps.length ≤ 1)
    (vacant : ∀ a ∈ p.serverIps, before.routes (p.table, a.network 32) = none) :
    (∀ packet, (p.installed before p.prefixes).lookup negation packet =
      if packet.dst ∈ p.serverIps ∧ packet.mark ≠ p.mark then some (p.table, p.dev)
      else before.lookup negation packet) ↔ p.Clear negation before := by
  constructor
  · intro exact_
    refine ⟨vacant, ?_, ?_, ?_⟩
    · intro a listed mark unmarked found early
      have sent := exact_ ⟨a, mark⟩
      rw [if_pos ⟨listed, unmarked⟩, lookup_installed, early, Option.some_or] at sent
      rw [Option.some.inj sent]
    · intro a listed
      have kept := exact_ ⟨a, p.mark⟩
      rw [if_neg (by simp), lookup_installed, findSome_prefixes,
        if_neg (unreached single listed), Option.none_or, ← lookup_routed] at kept
      exact kept
    · intro packet unlisted reached dev there
      have kept := exact_ packet
      rw [if_neg fun own => unlisted own.1, lookup_installed, findSome_prefixes, if_pos reached,
        hosts.route, if_neg fun own => unlisted own.2, there, hosts.early_other unlisted] at kept
      by_cases late : p.early negation before packet = none
      · rw [late] at kept
        exact .inr kept.symm
      · exact .inl late
  · intro clear packet
    rw [lookup_installed, findSome_prefixes]
    by_cases listed : packet.dst ∈ p.serverIps
    · by_cases marked : packet.mark = p.mark
      · obtain ⟨dst, mark⟩ := packet
        obtain rfl : mark = p.mark := marked
        rw [if_neg (unreached single listed), Option.none_or, ← lookup_routed,
          if_neg fun own => own.2 rfl]
        exact clear.marked dst listed
      · have reached : p.Reached negation packet := ⟨_, listed, selects_unmarked rfl marked⟩
        rw [if_pos reached, hosts.route, if_pos ⟨rfl, listed⟩, if_pos ⟨listed, marked⟩]
        cases early : p.early negation (p.routed before p.prefixes) packet with
        | none => rfl
        | some found =>
          have table := clear.unmarked _ listed _ marked found early
          have device := Network.findSome_taken early
          rw [table, hosts.route, if_pos ⟨rfl, listed⟩] at device
          rw [Option.some_or, ← table, Option.some.inj device]
    · have route : (p.routed before p.prefixes).route p.table packet.dst =
          before.route p.table packet.dst := by
        rw [hosts.route, if_neg fun own => listed own.2]
      rw [route, if_neg fun own : packet.dst ∈ p.serverIps ∧ _ => listed own.1,
        ← hosts.lookup_other listed, lookup_routed]
      by_cases reached : p.Reached negation packet
      · rw [if_pos reached]
        cases there : before.route p.table packet.dst with
        | none => simp
        | some dev =>
          have settled := clear.others packet listed reached dev there
          rw [← hosts.lookup_other listed, lookup_routed, ← hosts.early_other listed] at settled
          cases early : p.early negation (p.routed before p.prefixes) packet with
          | some found => rfl
          | none =>
            rw [early] at settled
            rcases settled with late | same
            · exact absurd rfl late
            · rw [same]
              rfl
      · rw [if_neg reached, Option.none_or]

end

/-! The scripts. -/

section
variable {expand : String → Option (List String)} {links : Links} {negation : Negation}
  {p : RouteParams} {before after : Network}

theorem unbroken_of_has {name : String} (has : links.has name = true) : Unbroken name := by
  obtain ⟨nonempty, solid⟩ := links.solid name has
  refine ⟨nonempty, ?_, fun member => (solid _ member).2.2 rfl⟩
  intro c member
  obtain ⟨space, tab, -⟩ := solid c member
  simp [isBlank, space, tab]

/-- What the up script does to the device that the shell reads. -/
theorem sh_up (unbroken : Unbroken p.dev) {dev : String} (becomes : Becomes expand p.dev dev)
    (has : links.has dev = true) : sh expand (ip links) (script p.up) before = .ok after ↔
      p.prefixes.Nodup ∧ (∀ a ∈ p.serverIps, p.Free before a) ∧
        after = ({ p with dev } : RouteParams).installed before p.prefixes := by
  have unbroken : Unbroken p.up.dev := unbroken
  have whole : (p.serverIps.flatMap ({ p with dev } : RouteParams).up.serverEntries).foldlM
      Network.add (({ p with dev } : RouteParams).installed before []) = some after ↔ _ :=
    add_servers List.nodup_nil
  rw [installed_nil] at whole
  rw [sh_script unbroken becomes has]
  exact whole

theorem sh_down (has : links.has p.dev = true) (becomes : Becomes expand p.dev p.dev)
    (once : p.prefixes.Nodup) (free : ∀ a ∈ p.serverIps, p.Free before a) {order : List IpAddr}
    (perm : order.Perm p.serverIps) :
    sh expand (ip links) (script (p.takeDown order)) (p.installed before p.prefixes) = .ok before := by
  have unbroken : Unbroken (p.takeDown order).dev := unbroken_of_has has
  rw [sh_script unbroken becomes has]
  exact del_servers once (perm.map _) fun a member => free a (perm.mem_iff.mp member)

/-- Without servers there are comments only, but the name of the device may go on
after the first. -/
theorem sh_up_none (none : p.serverIps = []) :
    sh expand (ip links) (script p.up) before = .ok after ↔
      Shell.run expand (ip links) true (commands ("#" ++ p.remark).toList) before = .ok after := by
  have lines : p.up.lines = [.comment p.remark, .comment p.markRemark] := by
    have servers : p.up.serverIps = [] := none
    rw [RouteParams.lines, servers]
    rfl
  obtain ⟨body, text, newline, silent⟩ := (readable_markRemark p).read
  have rest : commands (("#" ++ p.remark).toList ++ '\n' :: (body ++ ['\n'])) =
      commands ("#" ++ p.remark).toList := by
    rw [commands_append, commands_append, commands_line newline, silent, commands_nil]
    simp [Line.commands]
  have whole : (script p.up).toList =
      (String.join ([.comment "!/bin/sh", .command ["set", "-e"]].map Line.text)).toList ++
        (("#" ++ p.remark).toList ++ '\n' :: (body ++ ['\n'])) := by
    rw [script_eq, lines, ← text]
    simp [String.join_cons, Line.text]
  rw [run_errexit, ← rest, sh_errexit "!/bin/sh" (by decide) (by simp) _ _ whole,
    List.flatMap_nil, List.nil_append]

theorem sh_down_none : sh expand (ip links) (script (p.takeDown [])) before = .ok after ↔
    before = after := by
  have readable : ∀ line ∈ (p.takeDown []).lines, line.Readable := by
    rw [RouteParams.lines]
    have servers : (p.takeDown []).serverIps = [] := rfl
    rw [servers, List.flatMap_nil, List.map_nil, List.append_nil]
    apply readable_remarks
    intro up
    cases up
  rw [sh_lines readable]
  simp [takeDown]

theorem commands_remark (line : '\n' ∉ p.dev.toList) :
    commands ("#" ++ p.remark).toList = [] := by
  have rest : '\n' ∉ p.remark.toList := readable_remark line
  have newline : '\n' ∉ '#' :: p.remark.toList := by simpa using rest
  have text : ("#" ++ p.remark).toList = '#' :: p.remark.toList := by simp
  rw [text, commands_line newline, lineCommands_comment]

theorem exact_none (none : p.serverIps = []) : Exact expand links negation p before ↔
    Shell.run expand (ip links) true (commands ("#" ++ p.remark).toList) before = .ok before := by
  constructor
  · rintro ⟨after, up, -, down⟩
    have same := sh_down_none.mp (down [] (by rw [none]))
    rw [sh_up_none none, same] at up
    exact up
  · intro idle
    refine ⟨before, (sh_up_none none).mpr idle, ?_, ?_⟩
    · simp [none]
    · intro order perm
      rw [none] at perm
      rw [List.perm_nil.mp perm]
      exact sh_down_none.mpr rfl

/-- What the servers and the device must be. The text of the device's name stands
in a comment too, and whatever it has after a line's end is not part of that. -/
structure Sound (expand : String → Option (List String)) (links : Links) (negation : Negation)
    (p : RouteParams) : Prop extends Hosts p where
  single : negation = .selector → p.serverIps.length ≤ 1
  device : p.serverIps ≠ [] → links.has p.dev = true ∧ Becomes expand p.dev p.dev
  remark : ∀ net, Shell.run expand (ip links) true (commands ("#" ++ p.remark).toList) net = .ok net

theorem Sound.exact_iff (sound : Sound expand links negation p) (new : p.New before) :
    Exact expand links negation p before ↔ p.Clear negation before := by
  by_cases none : p.serverIps = []
  · rw [exact_none none]
    simp only [sound.remark, true_iff]
    constructor <;> simp [none, Reached]
  · obtain ⟨has, becomes⟩ := sound.device none
    have unbroken := unbroken_of_has has
    constructor
    · rintro ⟨after, up, lookups, -⟩
      obtain ⟨-, free, rfl⟩ := (sh_up unbroken becomes has).mp up
      exact (lookups_iff sound.toHosts sound.single fun a listed => (free a listed).1).mp lookups
    · intro clear
      have free : ∀ a ∈ p.serverIps, p.Free before a :=
        fun a listed => ⟨clear.vacant a listed, new.rule a listed⟩
      exact ⟨_, (sh_up unbroken becomes has).mpr ⟨sound.toHosts.nodup, free, rfl⟩,
        (lookups_iff sound.toHosts sound.single clear.vacant).mpr clear,
        fun order perm => sh_down has becomes sound.toHosts.nodup free perm⟩

/-! The empty network asks for all of it. -/

theorem new_empty : p.New .empty := by
  constructor <;> simp [Network.empty]

theorem clear_empty : p.Clear negation .empty := by
  have lost (table : UInt32) (ip : IpAddr) : Network.empty.route table ip = none :=
    greatest_eq_none.mpr fun _ _ => rfl
  constructor
  · simp [Network.empty]
  · simp [early, routed, Network.empty, ahead]
  · simp [Network.lookup, routed, Network.empty]
  · simp [lost]

/-- Some route is to the device. -/
theorem Exact.routed (works : Exact expand links negation p .empty) (some_ : p.serverIps ≠ []) :
    ∃ after, sh expand (ip links) (script p.up) .empty = .ok after ∧
      ∃ key, after.routes key = some p.dev := by
  obtain ⟨after, up, lookups, -⟩ := works
  obtain ⟨a, listed⟩ := List.exists_mem_of_ne_nil _ some_
  have unmarked : p.mark + 1 ≠ p.mark := by simp
  have sent := lookups ⟨a, p.mark + 1⟩
  rw [if_pos ⟨listed, unmarked⟩] at sent
  exact ⟨after, up, Network.route_mem (Network.findSome_taken sent)⟩

theorem Exact.device (works : Exact expand links negation p .empty) (some_ : p.serverIps ≠ []) :
    links.has p.dev = true ∧ Becomes expand p.dev p.dev := by
  obtain ⟨after, up, key, there⟩ := works.routed some_
  have linked : Linked links after := by
    apply run_invariant (fun _ _ _ => linked_ip) up
    intro key dev there
    cases there
  have has := linked key p.dev there
  refine ⟨has, ?_⟩
  have unbroken : Unbroken p.up.dev := unbroken_of_has has
  have lines := up
  rw [sh_lines (readable unbroken)] at lines
  obtain ⟨a, rest, ips⟩ := List.exists_cons_of_ne_nil some_
  have first : p.up.serverIps.flatMap p.up.serverWords =
      p.up.routeWords "add" a :: p.up.ruleWords "add" a :: rest.flatMap p.up.serverWords := by
    rw [show p.up.serverIps = a :: rest from ips]
    rfl
  rw [first, List.foldlM_cons, Option.bind_eq_bind, Option.bind_eq_some_iff] at lines
  obtain ⟨next, changed, -⟩ := lines
  obtain ⟨dev, becomes, known⟩ := becomes_of_effect changed
  have becomes : Becomes expand p.dev dev := becomes
  obtain ⟨-, -, rfl⟩ := (sh_up unbroken becomes known).mp up
  have same : dev = p.dev := by
    simp only [installed, RouteParams.routed, Network.empty] at there
    split at there
    · exact Option.some.inj there
    · cases there
  rwa [same] at becomes

theorem lookup_reached {packet : Packet} (reached : p.Reached negation packet)
    {len : Nat} (le : len ≤ packet.dst.width) (member : packet.dst.network len ∈ p.prefixes) :
    (p.installed .empty p.prefixes).lookup negation packet ≠ none := by
  have route : (p.routed .empty p.prefixes).route p.table packet.dst ≠ none := by
    intro lost
    have there := greatest_eq_none.mp lost len le
    simp [RouteParams.routed, member] at there
  have early : p.early negation (p.routed .empty p.prefixes) packet = none := rfl
  rw [lookup_installed, findSome_prefixes, if_pos reached, early, Option.none_or]
  intro lost
  rw [Option.or_eq_none_iff, Option.map_eq_none_iff] at lost
  exact route lost.1

/-- What the script sends somewhere is what it should. -/
theorem Exact.listed (works : Exact expand links negation p .empty) (some_ : p.serverIps ≠ [])
    {packet : Packet} (reached : p.Reached negation packet) {len : Nat}
    (le : len ≤ packet.dst.width) (member : packet.dst.network len ∈ p.prefixes) :
    p.prefixes.Nodup ∧ packet.dst ∈ p.serverIps ∧ packet.mark ≠ p.mark := by
  obtain ⟨has, becomes⟩ := works.device some_
  obtain ⟨after, up, lookups, -⟩ := works
  obtain ⟨once, -, rfl⟩ := (sh_up (unbroken_of_has has) becomes has).mp up
  refine ⟨once, ?_⟩
  by_contra other
  have sent := lookups packet
  rw [if_neg other] at sent
  exact lookup_reached reached le member sent

theorem wide (a : IpAddr) : 32 ≤ a.width := by
  cases a <;> simp [IpAddr.width]

theorem Exact.hosts (works : Exact expand links negation p .empty) : p.Hosts := by
  by_cases some_ : p.serverIps = []
  · constructor <;> simp [some_]
  · have unmarked : p.mark + 1 ≠ p.mark := by simp
    have listed {a b : IpAddr} (member : a ∈ p.serverIps) (same : b.network 32 = a.network 32) :
        p.prefixes.Nodup ∧ b ∈ p.serverIps := by
      have reached : p.Reached negation ⟨b, p.mark + 1⟩ := ⟨a, member, selects_unmarked same unmarked⟩
      have own := works.listed some_ reached (wide b) (List.mem_map.mpr ⟨a, member, same.symm⟩)
      exact ⟨own.1, own.2.1⟩
    obtain ⟨a, member⟩ := List.exists_mem_of_ne_nil _ some_
    have once := (listed member rfl).1
    refine ⟨once.of_map, ?_⟩
    intro a member
    cases a with
    | v4 a => exact ⟨a, rfl⟩
    | v6 a =>
      -- The prefix of an IPv6 address holds others, and two in it would be one prefix twice.
      obtain ⟨b, other, same⟩ := network_v6 a
      exact absurd (List.inj_on_of_nodup_map once (listed member same).2 member same) other

/-- With a second server, the rule of the first has its marked packets. -/
theorem Exact.single (works : Exact expand links .selector p .empty) : p.serverIps.length ≤ 1 := by
  by_contra several
  obtain ⟨a, b, rest, ips⟩ : ∃ a b rest, p.serverIps = a :: b :: rest := by
    generalize p.serverIps = ips at several
    rcases ips with _ | ⟨a, _ | ⟨b, rest⟩⟩
    · simp at several
    · simp at several
    · exact ⟨a, b, rest, rfl⟩
  have hosts := works.hosts
  have first : a ∈ p.serverIps := by simp [ips]
  have second : b ∈ p.serverIps := by simp [ips]
  have apart : b.network 32 ≠ a.network 32 := by
    intro same
    have once := hosts.once
    rw [ips, hosts.same first same] at once
    simp at once
  have family : (p.rule a).width = b.width := by
    obtain ⟨x, rfl⟩ := hosts.v4 a first
    obtain ⟨y, rfl⟩ := hosts.v4 b second
    rfl
  have reached : p.Reached .selector ⟨b, p.mark⟩ := by
    refine ⟨a, first, family, ?_⟩
    simp [to_rule, apart, show (p.rule a).inverted = true from rfl]
  have listed := works.listed (by simp [ips]) reached (wide b) (List.mem_map_of_mem second)
  exact listed.2.2 rfl

/-- The scripts do what they should, from every network that is clear, for one
address to a server, none of them IPv6, and a device that there is and that the
shell reads as it is; and for one server only, if the whole selector is what `not`
turns around. For these they do it from no other network. -/
theorem scripts_exact_iff (expand : String → Option (List String)) (links : Links)
    (negation : Negation) (p : RouteParams) :
    ((∀ before, p.New before → p.Clear negation before → Exact expand links negation p before) ↔
      Sound expand links negation p) ∧
    (Sound expand links negation p → ∀ before, p.New before →
      (Exact expand links negation p before ↔ p.Clear negation before)) := by
  refine ⟨⟨?_, ?_⟩, fun sound before new => sound.exact_iff new⟩
  · intro works
    have empty := works .empty new_empty clear_empty
    refine ⟨empty.hosts, ?_, empty.device, ?_⟩
    · rintro rfl
      exact empty.single
    · intro net
      by_cases none : p.serverIps = []
      · apply (exact_none none).mp
        apply works net
        · constructor <;> simp [none]
        · constructor <;> simp [none, Reached]
      · have line := (unbroken_of_has (empty.device none).1).line
        rw [commands_remark line]
        rfl
  · intro sound before new clear
    exact (sound.exact_iff new).mpr clear

end

/-- The device of the tunnel is the only one. -/
def sampleLinks : Links := ⟨(· = "hyperion0"), by simp⟩

/-- All packets find the default route, in the main table. -/
def sampleMain : Network :=
  ⟨fun key => if key = (254, ⟨32, 0, 0⟩) then some "eth0" else none,
    [⟨32, false, none, none, 254, 32766⟩], List.pairwise_singleton _ _⟩

theorem sampleMain_rules : sampleMain.rules = [⟨32, false, none, none, 254, 32766⟩] := rfl

theorem sampleMain_route : sampleMain.route 254 (.v4 ⟨192, 0, 2, 1⟩) = some "eth0" := by
  have default : sampleMain.routes (254, (IpAddr.v4 ⟨192, 0, 2, 1⟩).network 0) = some "eth0" := by
    simp [sampleMain, IpAddr.network, IpAddr.width, IpAddr.toNat, Ipv4Addr.toNat]
  cases found : sampleMain.route 254 (.v4 ⟨192, 0, 2, 1⟩) with
  | none =>
    have lost := greatest_eq_none.mp found 0 (Nat.zero_le _)
    cases default.symm.trans lost
  | some dev =>
    obtain ⟨key, there⟩ := Network.route_mem found
    simp only [sampleMain] at there
    split at there
    · rw [there]
    · cases there

def sampleApart (priority : UInt32) : RouteParams :=
  ⟨[.v4 ⟨192, 0, 2, 1⟩, .v4 ⟨192, 0, 2, 2⟩], "hyperion0", 0x6879, 26745, priority, false⟩

/-- Ahead of the main table's rule, and after it. -/
theorem scripts_exact_iff_sample :
    Exact (fun _ => none) sampleLinks .mark (sampleApart 100) sampleMain ∧
      ¬ Exact (fun _ => none) sampleLinks .mark (sampleApart 40000) sampleMain := by
  have plain : Plain "hyperion0" := by simp [plain_iff, Ordinary]
  have sound (priority : UInt32) :
      Sound (fun _ => none) sampleLinks .mark (sampleApart priority) := by
    refine ⟨⟨?_, ?_⟩, by simp, fun _ => ⟨rfl, plain.becomes _⟩, ?_⟩
    · simp [sampleApart]
    · simp [sampleApart]
    · intro net
      rw [commands_remark plain.unbroken.line]
      rfl
  have new (priority : UInt32) : (sampleApart priority).New sampleMain := by
    constructor <;> simp [sampleApart, sampleMain, rule]
  have exact_iff (priority : UInt32) :=
    (scripts_exact_iff (fun _ => none) sampleLinks .mark (sampleApart priority)).2 (sound priority)
      sampleMain (new priority)
  have kept (priority : UInt32) (ip : IpAddr) :
      ((sampleApart priority).routed sampleMain (sampleApart priority).prefixes).route 254 ip =
        sampleMain.route 254 ip := by
    rw [(sound priority).toHosts.route, if_neg (by simp [sampleApart])]
  refine ⟨(exact_iff 100).mpr ⟨?_, ?_, ?_, ?_⟩, fun works => ?_⟩
  · simp [sampleApart, sampleMain]
  · intro a _ mark _ found there
    have front : ahead (sampleApart 100).priority sampleMain.rules = [] := rfl
    rw [early, routed, front] at there
    cases there
  · intro a _
    have rules : ((sampleApart 100).routed sampleMain (sampleApart 100).prefixes).rules =
        sampleMain.rules := rfl
    rw [Network.lookup, Network.lookup, rules]
    simp [sampleMain_rules, Network.taken, kept]
  · intro packet _ _ dev there
    have lost : sampleMain.route 26745 packet.dst = none :=
      greatest_eq_none.mpr fun len _ => by simp [sampleMain]
    cases lost.symm.trans there
  · have early : (sampleApart 40000).early .mark
        ((sampleApart 40000).routed sampleMain (sampleApart 40000).prefixes)
          ⟨.v4 ⟨192, 0, 2, 1⟩, 0⟩ = some (254, "eth0") := by
      have front : ahead (sampleApart 40000).priority ((sampleApart 40000).routed sampleMain
          (sampleApart 40000).prefixes).rules = sampleMain.rules := rfl
      rw [RouteParams.early, front]
      simp [sampleMain_rules, Network.taken, kept, Rule.Selects, Rule.To, Rule.Marked,
        IpAddr.width, sampleMain_route]
    have clear := (exact_iff 40000).mp works
    have found := clear.unmarked _ (by simp [sampleApart]) 0 (by simp [sampleApart]) _ early
    simp [sampleApart] at found

/-- Two servers of one host, on different ports. -/
def sampleShared : RouteParams :=
  ⟨[.v4 ⟨192, 0, 2, 1⟩, .v4 ⟨192, 0, 2, 1⟩], "hyperion0", 0x6879, 26745, 100, false⟩

/-- The second route of a shared host is there already. -/
theorem shared_host_stops_up : ¬ ∃ negation, ∀ p before, sampleLinks.has p.dev = true →
    p.New before → p.Clear negation before →
      Exact (fun _ => none) sampleLinks negation p before := by
  rintro ⟨negation, claim⟩
  have works := claim sampleShared .empty rfl new_empty clear_empty
  exact absurd works.hosts.once (by decide)

end RouteParams
end HyperionVpn.Client
