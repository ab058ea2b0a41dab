import HyperionVpn.Core.KnockBinding
import HyperionVpn.Core.SuperviseProofs
import HyperionVpn.Server.Spa

/-! The tables show the set that the gate is about. So nobody comes in who has not
knocked, and a client whose knock has come through does, for as long as it should. -/
namespace HyperionVpn.Spa
open Net Knock Machine Sniffer Nftables Ruleset
open Client (TunnelParams KnockSettings)

variable {crypto : Crypto} {k : KnockRuntime}

/-! What the sniffer sees of `nft`. -/

/-- A pass in which `nft` does what it is told, unless it refuses everything. -/
def plain (e : Arrival) : Tick :=
  ⟨e.received, e.now, fun _ =>
    match e.refusal with
    | some refusal => refusal.spawned
    | none => .exited true "exit status: 0"⟩

/-- A pass of the sniffer depends on `nft` by its answers for sources alone. -/
theorem iterate_congr {config : SnifferConfig} {s : Sniffer} {t t' : Tick}
    (received : t.received = t'.received) (now : t.now = t'.now)
    (nft : ∀ src, t.nft (config.firewall.addElementArgs src) = t'.nft (config.firewall.addElementArgs src)) :
    iterate crypto config s t = iterate crypto config s t' := by
  have allow (src : Ipv4Addr) : config.firewall.allow src t.nft = config.firewall.allow src t'.nft := by
    rw [Firewall.allow, nft, Firewall.allow]
  have granted (recentAllows : KeyMap Ipv4Addr UInt64) (src : Ipv4Addr) (k : Knock) :
      grant config recentAllows src k t = grant config recentAllows src k t' := by
    simp only [grant, now, allow]
  simp only [iterate, received, now, granted]

/-- The tables have the gate's members in the set of its table, behind its chain,
and are otherwise as they were. -/
structure Shows (k : KnockRuntime) (before : Kernel NftSet) (s : Spa) (g : Gate) : Prop where
  sniffer : s.sniffer = g.sniffer
  table : ∃ t, s.kernel.lookup k.table = some t ∧ t.sets.lookup k.set = some g.members ∧
    t.chains = AList.insert "input" (inputChain k.set k.tunnelPort) ∅
  others : ∀ name, name ≠ k.table → s.kernel.lookup name = before.lookup name

theorem shows_start {loadedAt : UInt64} {before : Kernel NftSet} {s : Spa} (usable : Usable k)
    (fresh : k.table ∉ before) (started : start crypto k loadedAt before = some s) :
    Shows k before s (Gate.new crypto k) := by
  rw [start, nftAt, nft_baseRuleset usable.table usable.set k.tunnelPort fresh] at started
  cases started
  refine ⟨rfl, ⟨_, AList.lookup_insert _, AList.lookup_insert _, rfl⟩, fun name other => ?_⟩
  exact AList.lookup_insert_ne other

/-- The set with one more member. -/
def added (k : KnockRuntime) (kernel : Kernel NftSet) (t : Table NftSet) (members : NftSet)
    (src : Ipv4Addr) (now : UInt64) : Kernel NftSet :=
  kernel.insert k.table
    { t with sets := t.sets.insert k.set (members.add src now.toNat k.ttlSecs.toNat) }

theorem spawn_args {kernel : Kernel NftSet} {t : Table NftSet} {members : NftSet} (usable : Usable k)
    (table : kernel.lookup k.table = some t) (set : t.sets.lookup k.set = some members)
    (e : Arrival) (src : Ipv4Addr) :
    spawn e kernel ((startSpa k).firewall.addElementArgs src) =
      match e.refusal with
      | some refusal => (refusal.spawned, kernel)
      | none => (.exited true "exit status: 0", added k kernel t members src e.now) := by
  have ran : nftAt e.now (" ".intercalate ((startSpa k).firewall.addElementArgs src)) kernel =
      some (added k kernel t members src e.now) :=
    @nft_addElement _ _ (startSpa k).firewall usable.table usable.set usable.ttl _ _ table set src
  unfold spawn
  cases e.refusal with
  | some refusal => rfl
  | none => rw [ran]

theorem tick_nft {before : Kernel NftSet} {s : Spa} {g : Gate} (usable : Usable k)
    (h : Shows k before s g) (e : Arrival) (src : Ipv4Addr) :
    (tick e s.kernel).nft ((startSpa k).firewall.addElementArgs src) =
      (plain e).nft ((startSpa k).firewall.addElementArgs src) := by
  obtain ⟨t, table, set, -⟩ := h.table
  simp only [tick, plain, spawn_args usable table set e src]
  cases e.refusal <;> rfl

theorem Shows.added {before : Kernel NftSet} {s : Spa} {g : Gate} {t : Table NftSet}
    (h : Shows k before s g)
    (chains : t.chains = AList.insert "input" (inputChain k.set k.tunnelPort) ∅) (sniffer : Sniffer)
    (src : Ipv4Addr) (now : UInt64) : Shows k before
      ⟨sniffer, Spa.added k s.kernel t g.members src now⟩
      ⟨sniffer, g.members.add src now.toNat k.ttlSecs.toNat⟩ where
  sniffer := rfl
  table := ⟨_, AList.lookup_insert _, AList.lookup_insert _, chains⟩
  others name other := (AList.lookup_insert_ne other).trans (h.others name other)

/-- A pass of the whole is a pass of the gate. -/
theorem step_refines {before : Kernel NftSet} {s s' : Spa} {g : Gate} {e : Arrival} {out : Outcome}
    (usable : Usable k) (h : Shows k before s g) (stepped : step crypto k s e = some (out, s')) :
    ∃ g', Gate.step crypto k g (plain e) = some (out, g') ∧ Shows k before s' g' := by
  obtain ⟨t, table, set, chains⟩ := h.table
  have same : iterate crypto (startSpa k) s.sniffer (tick e s.kernel) =
      iterate crypto (startSpa k) g.sniffer (plain e) := by
    rw [h.sniffer]
    exact iterate_congr rfl rfl (tick_nft usable h e)
  have kept (sniffer : Sniffer) : Shows k before ⟨sniffer, s.kernel⟩ ⟨sniffer, g.members⟩ :=
    ⟨rfl, h.table, h.others⟩
  unfold step at stepped
  rw [same] at stepped
  cases passed : iterate crypto (startSpa k) g.sniffer (plain e) with
  | none => simp [passed] at stepped
  | some result =>
    obtain ⟨out', sniffer⟩ := result
    simp only [passed, Option.bind_eq_bind, Option.bind_some] at stepped
    rw [Gate.step, passed]
    simp only [Option.bind_eq_bind, Option.bind_some]
    have passes := iterate_passes passed
    cases passes with
    | skipped _ | rejected _ _ =>
      cases stepped
      exact ⟨_, rfl, kept _⟩
    | @granted src payload kk v decision recentAllows _ _ granted =>
      cases granted with
      | otherPort _ | cooling _ _ =>
        cases stepped
        exact ⟨_, rfl, kept _⟩
      | allowed _ _ allowed =>
        simp only [spawn_args usable table set] at stepped
        cases refusal : e.refusal with
        | some why => cases why <;> simp [Firewall.allow, plain, refusal, Refusal.spawned] at allowed
        | none =>
          rw [refusal] at stepped
          cases stepped
          exact ⟨_, rfl, h.added chains _ src e.now⟩
      | allowFailed _ _ failed =>
        simp only [spawn_args usable table set] at stepped
        cases refusal : e.refusal with
        | some why =>
          rw [refusal] at stepped
          cases stepped
          exact ⟨_, rfl, kept _⟩
        | none => simp [Firewall.allow, plain, refusal] at failed

/-- A run of the whole, as one of the gate. -/
def gateTrace (tr : Trace) : Sniffer.Trace := tr.map fun e => (plain e.1, e.2)

theorem run_refines {before : Kernel NftSet} {s₀ s : Spa} {tr : Trace} (usable : Usable k)
    (h : Shows k before s₀ (Gate.new crypto k)) (run : Run (step crypto k) s₀ tr s) :
    ∃ g, Run (Gate.step crypto k) (Gate.new crypto k) (gateTrace tr) g ∧ Shows k before s g := by
  induction run with
  | nil => exact ⟨_, .nil, h⟩
  | snoc _ stepped ih =>
    obtain ⟨g, left, shows_⟩ := ih
    obtain ⟨g', passed, shows'⟩ := step_refines usable shows_ stepped
    rw [gateTrace, List.map_append]
    exact ⟨g', left.snoc passed, shows'⟩

/-! Who comes in. -/

/-- What the chain of the base ruleset lets through. -/
def Passes (k : KnockRuntime) (members : NftSet) (now : Nat) (p : Incoming) : Prop :=
  p.ctState = .established ∨ p.ctState = .related ∨ p.iif = "lo" ∨
    p.tcpDport = some k.tunnelPort ∧ ∃ src, p.source = some src ∧ members.Contains src now

theorem decides_input {contains : String → Ipv4Addr → Prop} {p : Incoming} (set : String)
    (port : UInt16) : Decides contains p .drop (inputChain set port).rules .accept ↔
      p.ctState = .established ∨ p.ctState = .related ∨ p.iif = "lo" ∨
        p.tcpDport = some port ∧ ∃ src, p.source = some src ∧ contains set src := by
  have dport : (∃ dport ∈ p.tcpDport, dport.toNat = port.toNat) ↔ p.tcpDport = some port := by
    constructor
    · rintro ⟨dport, is, same⟩
      rw [← UInt16.toNat_inj.mp same]
      exact is
    · exact fun is => ⟨port, is, rfl⟩
  rw [decides_accept_iff (by simp [inputChain])]
  simp only [inputChain, List.mem_cons, List.not_mem_nil, or_false, exists_eq_or_imp,
    exists_eq_left, forall_eq, forall_eq_or_imp, Match.Holds, dport, or_assoc]
  simp only [Option.mem_def]
  rw [and_comm]

theorem admits_iff {before : Kernel NftSet} {s : Spa} {g : Gate} (fresh : k.table ∉ before)
    (h : Shows k before s g) (now : Nat) (p : Incoming) :
    Admits s.kernel now p ↔ Admits before now p ∧ Passes k g.members now p := by
  obtain ⟨t, table, set, chains⟩ := h.table
  have member (ip : Ipv4Addr) : (∃ elements ∈ t.sets.lookup k.set, NftSet.Contains elements ip now) ↔
      g.members.Contains ip now := by
    rw [set]
    simp
  constructor
  · intro admitted
    constructor
    · intro name t' found
      apply admitted name t'
      rw [h.others name, found]
      rintro rfl
      exact fresh (AList.lookup_isSome.mp (Option.isSome_of_eq_some found))
    · have decided := admitted k.table t table "input" (inputChain k.set k.tunnelPort)
        (chains ▸ AList.lookup_insert _) rfl
      simpa only [Passes, member] using (decides_input k.set k.tunnelPort).mp decided
  · rintro ⟨others, passes⟩ name t' found chain c there hook
    by_cases ours : name = k.table
    · subst ours
      obtain rfl := Option.some.inj (table.symm.trans found)
      obtain ⟨rfl, rfl⟩ : chain = "input" ∧ inputChain k.set k.tunnelPort = c := by
        rw [chains] at there
        by_cases input : chain = "input"
        · subst input
          rw [AList.lookup_insert] at there
          exact ⟨rfl, Option.some.inj there⟩
        · rw [AList.lookup_insert_ne input] at there
          cases there
      apply (decides_input k.set k.tunnelPort).mpr
      simpa only [Passes, member] using passes
    · exact others name t' ((h.others name ours).symm.trans found) chain c there hook

/-- Every member was let in at some pass, and for so long. -/
theorem members_from {tr : Sniffer.Trace} {g : Gate} {src : Ipv4Addr} {expiry : Nat}
    (run : Run (Gate.step crypto k) (Gate.new crypto k) tr g)
    (found : g.members.lookup src = some expiry) :
    ∃ before tick out after m m', tr = before ++ (tick, out) :: after ∧
      Run (Gate.step crypto k) (Gate.new crypto k) before m ∧
      Gate.step crypto k m tick = some (out, m') ∧ out.Allowed src ∧
      expiry = tick.now.toNat + k.ttlSecs.toNat := by
  induction run generalizing expiry with
  | nil => simp [Gate.new] at found
  | @snoc tr m tick out m' left stepped ih =>
    have earlier (old : m.members.lookup src = some expiry) : ∃ before tick' out' after n n',
        tr ++ [(tick, out)] = before ++ (tick', out') :: after ∧
          Run (Gate.step crypto k) (Gate.new crypto k) before n ∧
          Gate.step crypto k n tick' = some (out', n') ∧ out'.Allowed src ∧
          expiry = tick'.now.toNat + k.ttlSecs.toNat := by
      obtain ⟨before, tick', out', after, n, n', rfl, start, passed, allowed, stay⟩ := ih old
      exact ⟨before, tick', out', after ++ [(tick, out)], n, n', by simp, start, passed, allowed, stay⟩
    rcases (Gate.step_spec stepped).2 with ⟨src', allowed, members⟩ | ⟨-, members⟩
    · rw [members] at found
      by_cases same : src = src'
      · subst same
        by_cases present : ∃ old, m.members.lookup src = some old ∧ tick.now.toNat < old
        · obtain ⟨old, was, ahead⟩ := present
          rw [NftSet.lookup_add_present was ahead] at found
          exact earlier (found ▸ was)
        · rw [NftSet.lookup_add_absent fun old was => Nat.not_lt.mp fun ahead => present ⟨old, was, ahead⟩]
            at found
          exact ⟨tr, tick, out, [], m, m', rfl, left, stepped, allowed, (Option.some.inj found).symm⟩
      · rw [NftSet.lookup_add_of_ne same] at found
        exact earlier found
    · exact earlier (members ▸ found)

/-- The verifier of a sniffer's runs. -/
structure Own (crypto : Crypto) (k : KnockRuntime) (v : KnockVerifier) : Prop where
  belongs : v.Belongs crypto k.psk k.serverPub
  window : v.replay.window = k.windowSecs

theorem run_own {tr : Sniffer.Trace} {g : Gate}
    (run : Run (Gate.step crypto k) (Gate.new crypto k) tr g) : Own crypto k g.sniffer.verifier := by
  refine (run_verifier (Gate.run_sniffer run)).invariant
    ⟨KnockVerifier.belongs_new crypto k.psk k.serverPub k.windowSecs, rfl⟩ ?_
  intro v c r v' own called
  refine ⟨own.belongs.call called, ?_⟩
  have kept (nonce : Nonce) : (v.replay.checkAndRecord nonce c.now).2.window = k.windowSecs := by
    rw [← own.window]
    unfold ReplayGuard.checkAndRecord
    dsimp only
    split
    · rfl
    split <;> rfl
  cases openKnock_iff.mp called with
  | rejected _ => exact own.window
  | replayed _ _ | accepted _ _ => exact kept _

/-- Whoever is let in has sent a knock that was sealed for this server and port
with the shared key, within the window. -/
theorem allowed_sealed {tr : Sniffer.Trace} {g g' : Gate} {tick : Tick} {out : Outcome}
    {src : Ipv4Addr} (run : Run (Gate.step crypto k) (Gate.new crypto k) tr g)
    (stepped : Gate.step crypto k g tick = some (out, g')) (allowed : out.Allowed src) :
    ∃ ts nonce, Delivers (startSpa k) tick src (sealAt crypto k.psk k.serverPub k.tunnelPort ts nonce) ∧
      Within k.windowSecs tick.now ts := by
  have own := run_own run
  have passed := iterate_passes (Gate.step_spec stepped).1
  generalize g'.sniffer = sniffer at passed
  cases passed with
  | skipped _ | rejected _ _ => exact allowed.elim
  | @granted src' payload kk v decision recentAllows delivered called granted =>
    cases granted with
    | otherPort _ | cooling _ _ | allowFailed _ _ _ => exact allowed.elim
    | allowed port _ _ =>
      obtain rfl : src' = src := allowed
      obtain ⟨nonce, ts, rfl, fresh, -⟩ := (opens_iff own.belongs).mp ⟨v, called⟩
      rw [port] at delivered
      exact ⟨ts, nonce, delivered, fresh_iff_within.mp (own.window ▸ fresh)⟩

/-- Over whatever other tables, a packet comes in that answers something or comes
from the host itself, or else it is for the tunnel port and from a source that has
knocked: with a packet that only the key and the server's own can make, fresh when
it came, and no longer ago than the time to live. -/
theorem only_knockers_enter (crypto : Crypto) (k : KnockRuntime) (usable : Usable k)
    (loadedAt : UInt64) (before : Kernel NftSet) (fresh : k.table ∉ before) (s₀ s : Spa) (tr : Trace)
    (started : start crypto k loadedAt before = some s₀) (run : Run (step crypto k) s₀ tr s)
    (now : Nat) (p : Incoming) (admitted : Admits s.kernel now p) :
    p.ctState = .established ∨ p.ctState = .related ∨ p.iif = "lo" ∨
      p.tcpDport = some k.tunnelPort ∧ ∃ src, p.source = some src ∧ ∃ e out ts nonce,
        (e, out) ∈ tr ∧ Delivers (startSpa k) (plain e) src
          (sealAt crypto k.psk k.serverPub k.tunnelPort ts nonce) ∧
        Within k.windowSecs e.now ts ∧ now < e.now.toNat + k.ttlSecs.toNat := by
  obtain ⟨g, gated, shows_⟩ := run_refines usable (shows_start usable fresh started) run
  obtain ⟨-, passes⟩ := (admits_iff fresh shows_ now p).mp admitted
  rcases passes with established | related | lo | ⟨port, src, source, expiry, found, present⟩
  · exact .inl established
  · exact .inr (.inl related)
  · exact .inr (.inr (.inl lo))
  · obtain ⟨earlier, tick, out, later, m, m', split, left, stepped, allowed, stay⟩ :=
      members_from gated found
    obtain ⟨ts, nonce, delivered, within⟩ := allowed_sealed left stepped allowed
    have member : (tick, out) ∈ gateTrace tr := split ▸ List.mem_append_right _ (.head _)
    obtain ⟨⟨e, out'⟩, old, same⟩ := List.mem_map.mp member
    cases same
    exact .inr (.inr (.inr ⟨port, src, source, e, out', ts, nonce, old, delivered, within, stay ▸ present⟩))

/-! A client of this server. -/

/-- The client is configured for the server, and shares its key. -/
structure Matched (k : KnockRuntime) (addr : SocketAddr) (params : TunnelParams) : Prop where
  psk : params.psk = k.psk
  serverPub : params.serverPubkey = k.serverPub
  port : addr.port = k.tunnelPort
  knockPort : ∀ settings ∈ params.knock, settings.port = k.knockPort

theorem knockTarget_port (addr : SocketAddr) (settings : KnockSettings) :
    (knockTarget addr settings).port = settings.port := by
  cases addr <;> rfl

/-- What a client sends is a knock as the server opens it. -/
theorem knock_sealed {addr : SocketAddr} {params : TunnelParams} {ctr : Supervisor.Trace}
    {v : Supervisor} {target : SocketAddr} {packet : List UInt8} (matched : Matched k addr params)
    (client : Run (Supervisor.step crypto addr params) (Supervisor.new params) ctr v)
    (knocked : .knock target packet ∈ Supervisor.actions ctr) :
    target.port = k.knockPort ∧
      ∃ ts nonce, packet = sealAt crypto k.psk k.serverPub k.tunnelPort ts nonce := by
  obtain ⟨earlier, later, split⟩ := List.append_of_mem knocked
  obtain ⟨-, settings, a, knocks, same⟩ := (Supervisor.run_follows client).conforms earlier _ later split
  simp only [Supervisor.sent, Supervisor.Action.knock.injEq] at same
  obtain ⟨rfl, rfl⟩ := same
  rw [knockTarget_port, matched.psk, matched.serverPub, matched.port]
  exact ⟨matched.knockPort settings knocks, a.timestamp, a.nonce, rfl⟩

theorem gateTrace_ordered {tr : Trace} (ordered : tr.Pairwise (fun a b => a.1.now ≤ b.1.now)) :
    Sniffer.Ordered (gateTrace tr) :=
  List.pairwise_map.mpr ordered

theorem gateTrace_succeeds {tr : Trace} (works : ∀ e ∈ tr, e.1.refusal = none) :
    Gate.NftSucceeds (gateTrace tr) := by
  intro e member args
  obtain ⟨e, old, rfl⟩ := List.mem_map.mp member
  simp only [plain, works e old]
  exact ⟨_, rfl⟩

theorem arrival_accepts {before : Kernel NftSet} {s₀ s : Spa} {earlier later : Trace} {e : Arrival}
    {out : Outcome} {src : Ipv4Addr} (usable : Usable k) (h : Shows k before s₀ (Gate.new crypto k))
    (run : Run (step crypto k) s₀ (earlier ++ (e, out) :: later) s)
    (ordered : (earlier ++ (e, out) :: later).Pairwise (fun a b => a.1.now ≤ b.1.now))
    (knocks : KnocksFrom crypto (startSpa k) (accepted (knocks (gateTrace earlier))) (plain e) src) :
    out.Accepts src := by
  obtain ⟨g, gated, -⟩ := run_refines usable h run
  rw [gateTrace, List.map_append, List.map_cons] at gated
  obtain ⟨m, m', left, stepped, -⟩ := gated.at_step
  refine (accepts_iff_knocks (Gate.run_sniffer left) ?_ (Gate.step_spec stepped).1 src).mpr knocks
  intro x member
  obtain ⟨x, old, rfl⟩ := List.mem_map.mp member
  exact (List.pairwise_append.mp ordered).2.2 x old (e, out) (.head _)

theorem accepted_admits {before : Kernel NftSet} {s₀ s : Spa} {tr : Trace} {e : Arrival}
    {out : Outcome} {src : Ipv4Addr} {now : Nat} {p : Incoming} (usable : Usable k)
    (fresh : k.table ∉ before) (h : Shows k before s₀ (Gate.new crypto k))
    (run : Run (step crypto k) s₀ tr s) (ordered : tr.Pairwise (fun a b => a.1.now ≤ b.1.now))
    (works : ∀ e ∈ tr, e.1.refusal = none) (timely : Gate.NeverLate crypto k (gateTrace tr))
    (member : (e, out) ∈ tr) (accepts : out.Accepts src) (soon : now < e.now.toNat + k.half)
    (source : p.source = some src) (dport : p.tcpDport = some k.tunnelPort)
    (others : Admits before now p) : Admits s.kernel now p := by
  obtain ⟨g, gated, shows_⟩ := run_refines usable h run
  have covered := Gate.run_covered gated (gateTrace_ordered ordered) (gateTrace_succeeds works) timely
  obtain ⟨expiry, found, enough⟩ := covered.knocked (plain e) out src
    (List.mem_map.mpr ⟨(e, out), member, rfl⟩) accepts
  have contained : g.members.Contains src now := ⟨expiry, found, lt_of_lt_of_le soon enough⟩
  exact (admits_iff fresh shows_ now p).mpr ⟨others, .inr (.inr (.inr ⟨dport, src, source, contained⟩))⟩

/-- Where a knock of a client arrives, its source comes in through the tunnel port
for half of the time to live, as far as other tables let it. -/
def LetsIn (k : KnockRuntime) (before : Kernel NftSet) (tr : Trace) (s : Spa)
    (port : UInt16) (packet : List UInt8) (ts : UInt64) (nonce : Nonce) : Prop :=
  ∀ earlier e out later frame src, tr = earlier ++ (e, out) :: later → e.received = .frame frame →
    Packet.parseEthernetIpv4Udp frame = some (some (src, port, packet)) →
    Within k.windowSecs e.now ts →
    (∀ t, (nonce, t) ∈ accepted (knocks (gateTrace earlier)) →
      k.windowSecs.toNat < e.now.toNat - t.toNat) →
    ((accepted (knocks (gateTrace earlier))).filter (live k.windowSecs e.now)).length < 4096 →
    ∀ now p, now < e.now.toNat + k.half → p.source = some src → p.tcpDport = some k.tunnelPort →
      Admits before now p → Admits s.kernel now p

/-- What a supervisor of a client sends to knock, lets it in if it gets there in
time, with a nonce that is new, and is no knock of a member about to be removed. -/
theorem knock_lets_in (crypto : Crypto) (k : KnockRuntime) (usable : Usable k) (addr : SocketAddr)
    (params : TunnelParams) (matched : Matched k addr params) (ctr : Supervisor.Trace) (v : Supervisor)
    (client : Run (Supervisor.step crypto addr params) (Supervisor.new params) ctr v)
    (target : SocketAddr) (packet : List UInt8) (knocked : .knock target packet ∈ Supervisor.actions ctr)
    (loadedAt : UInt64) (before : Kernel NftSet) (fresh : k.table ∉ before) (s₀ s : Spa) (tr : Trace)
    (started : start crypto k loadedAt before = some s₀) (run : Run (step crypto k) s₀ tr s)
    (ordered : tr.Pairwise (fun a b => a.1.now ≤ b.1.now)) (works : ∀ e ∈ tr, e.1.refusal = none)
    (timely : Gate.NeverLate crypto k (gateTrace tr)) :
    (∃ ts nonce, packet = sealAt crypto k.psk k.serverPub k.tunnelPort ts nonce) ∧
      ∀ ts nonce, packet = sealAt crypto k.psk k.serverPub k.tunnelPort ts nonce →
        LetsIn k before tr s target.port packet ts nonce := by
  obtain ⟨port, sealed⟩ := knock_sealed matched client knocked
  refine ⟨sealed, ?_⟩
  rw [port]
  rintro ts nonce same earlier e out later frame src rfl received parsed within unseen room now p soon source dport others
  have shows_ := shows_start usable fresh started
  have accepts : out.Accepts src := by
    apply arrival_accepts usable shows_ run ordered
    exact ⟨frame, packet, ts, nonce, received, parsed, same, fresh_iff_within.mpr within, unseen, room⟩
  exact accepted_admits usable fresh shows_ run ordered works timely
    (List.mem_append_right _ (.head _)) accepts soon source dport others

/-! A knock that takes five seconds to come. -/

theorem run_exists (crypto : Crypto) (k : KnockRuntime) (s : Spa) (arrivals : List Arrival) :
    ∃ tr s', Run (step crypto k) s tr s' ∧ tr.map Prod.fst = arrivals := by
  have total : ∀ (m : Spa) (e : Arrival), True → ∃ out m', step crypto k m e = some (out, m') ∧ True := by
    intro m e _
    obtain ⟨out, sniffer, passed⟩ := iterate_total crypto (startSpa k) m.sniffer (tick e m.kernel)
    rw [step, passed]
    simp only [Option.bind_eq_bind, Option.bind_some]
    split <;> exact ⟨_, _, rfl, trivial⟩
  obtain ⟨tr, s', run, same, -⟩ := Run.exists_of_total s trivial total arrivals
  exact ⟨tr, s', run, same⟩

def sampleRuntime : KnockRuntime :=
  ⟨7000, 8443, ⟨.replicate 32 2⟩, ⟨.replicate 32 1⟩, 30, "hyperion", "knock_allow", 60⟩

def samplePacket : List UInt8 :=
  sealAt .transparent sampleRuntime.psk sampleRuntime.serverPub 8443 1700000000 (.replicate 12 9)

def sampleArrival : Arrival := ⟨.frame (sampleFrame 7000 samplePacket), 1700000005, none⟩

def sampleIncoming : Incoming := ⟨"eth0", .new, some Gate.sampleSource, some 8443⟩

theorem sampleRuntime_usable : Usable sampleRuntime where
  table := ⟨by decide, by simp [sampleRuntime, Char.isAlphanum]⟩
  set := ⟨by decide, by simp [sampleRuntime, Char.isAlphanum]⟩
  ttl := by decide

theorem sampleArrival_parsed : Packet.parseEthernetIpv4Udp (sampleFrame 7000 samplePacket) =
    some (some (Gate.sampleSource, 7000, samplePacket)) := by
  decide +kernel

theorem admits_empty (now : Nat) (p : Incoming) : Admits ∅ now p := by
  intro name t found
  cases found

theorem sample_start : ∃ s₀, start .transparent sampleRuntime 1699999000 ∅ = some s₀ := by
  rw [start, nftAt, nft_baseRuleset sampleRuntime_usable.table sampleRuntime_usable.set _
    (AList.notMem_empty _)]
  exact ⟨_, rfl⟩

theorem sample_single {tr : Trace} (inputs : tr.map Prod.fst = [sampleArrival]) :
    ∃ out, tr = [(sampleArrival, out)] := by
  match tr with
  | [] | _ :: _ :: _ => simp at inputs
  | [(e, out)] =>
    obtain rfl : e = sampleArrival := by simpa using inputs
    exact ⟨out, rfl⟩

theorem sample_timely (out : Outcome) :
    Gate.NeverLate .transparent sampleRuntime (gateTrace [(sampleArrival, out)]) := by
  intro before tick out after g src expiry split run
  obtain rfl : before = [] := by
    rcases List.append_eq_singleton_iff.mp split.symm with ⟨empty, -⟩ | ⟨-, empty⟩
    · exact empty
    · cases empty
  rw [run.nil_inv]
  intro _ found
  simp [Gate.new] at found

theorem sample_within : Within 30 1700000005 1700000000 := by
  unfold Within
  decide

theorem knock_lets_in_sample : ∃ ctr v s₀ s tr,
    Run (Supervisor.step .transparent Supervisor.sampleAddr Supervisor.sampleParams)
        (Supervisor.new Supervisor.sampleParams) ctr v ∧
      .knock (.v4 ⟨192, 0, 2, 1⟩ 7000) samplePacket ∈ Supervisor.actions ctr ∧
      start .transparent sampleRuntime 1699999000 ∅ = some s₀ ∧
      Run (step .transparent sampleRuntime) s₀ tr s ∧ tr.map Prod.fst = [sampleArrival] ∧
      Admits s.kernel 1700000034 sampleIncoming := by
  obtain ⟨⟨ctr, v⟩, h, knocked⟩ : ∃ result,
      exec (Supervisor.step .transparent Supervisor.sampleAddr Supervisor.sampleParams)
        (Supervisor.new Supervisor.sampleParams) Supervisor.sampleDropped = some result ∧
        .knock (.v4 ⟨192, 0, 2, 1⟩ 7000) samplePacket ∈ Supervisor.actions result.1 :=
    ⟨_, rfl, .head _⟩
  obtain ⟨client, -⟩ := exec_run h
  obtain ⟨s₀, started⟩ := sample_start
  obtain ⟨tr, s, run, inputs⟩ := run_exists .transparent sampleRuntime s₀ [sampleArrival]
  obtain ⟨out, rfl⟩ := sample_single inputs
  obtain ⟨-, opens⟩ := knock_lets_in .transparent sampleRuntime sampleRuntime_usable
    Supervisor.sampleAddr Supervisor.sampleParams ⟨rfl, rfl, rfl, fun _ is => by cases is; rfl⟩ ctr v client
    _ _ knocked 1699999000 ∅ (AList.notMem_empty _) s₀ s _ started run (List.pairwise_singleton _ _)
    (fun e member => by cases List.mem_singleton.mp member; rfl) (sample_timely out)
  refine ⟨ctr, v, s₀, s, _, client, knocked, started, run, rfl, ?_⟩
  exact opens 1700000000 (.replicate 12 9) rfl [] sampleArrival out [] _ Gate.sampleSource rfl rfl
    sampleArrival_parsed sample_within (fun _ member => by cases member) (by simp [gateTrace, knocks, accepted])
    1700000034 sampleIncoming (by decide) rfl rfl (admits_empty _ _)

theorem only_knockers_enter_sample : ∃ s₀ s tr,
    start .transparent sampleRuntime 1699999000 ∅ = some s₀ ∧
      Run (step .transparent sampleRuntime) s₀ tr s ∧ tr.map Prod.fst = [sampleArrival] ∧
      Admits s.kernel 1700000034 sampleIncoming ∧ ∃ e out ts nonce, (e, out) ∈ tr ∧
        Delivers (startSpa sampleRuntime) (plain e) Gate.sampleSource
          (sealAt .transparent sampleRuntime.psk sampleRuntime.serverPub 8443 ts nonce) ∧
        Within 30 e.now ts ∧ 1700000034 < e.now.toNat + 60 := by
  obtain ⟨s₀, started⟩ := sample_start
  obtain ⟨tr, s, run, inputs⟩ := run_exists .transparent sampleRuntime s₀ [sampleArrival]
  obtain ⟨out, rfl⟩ := sample_single inputs
  have ordered := List.pairwise_singleton (fun a b : Arrival × Outcome => a.1.now ≤ b.1.now)
    (sampleArrival, out)
  have shows_ := shows_start sampleRuntime_usable (AList.notMem_empty _) started
  have accepts : out.Accepts Gate.sampleSource := by
    refine arrival_accepts sampleRuntime_usable shows_
      (show Run _ _ ([] ++ (sampleArrival, out) :: []) s from run) ordered ?_
    exact ⟨_, samplePacket, 1700000000, .replicate 12 9, rfl, sampleArrival_parsed, rfl,
      fresh_iff_within.mpr sample_within, (fun _ member => by cases member),
      by simp [gateTrace, knocks, accepted]⟩
  have admitted : Admits s.kernel 1700000034 sampleIncoming :=
    accepted_admits sampleRuntime_usable (AList.notMem_empty _) shows_ run ordered
      (fun e member => by cases List.mem_singleton.mp member; rfl) (sample_timely out) (.head _)
      accepts (by decide) rfl rfl (admits_empty _ _)
  refine ⟨s₀, s, _, started, run, rfl, admitted, ?_⟩
  rcases only_knockers_enter .transparent sampleRuntime sampleRuntime_usable 1699999000 ∅
    (AList.notMem_empty _) s₀ s _ started run 1700000034 sampleIncoming admitted with
    established | related | lo | ⟨-, src, source, knocked⟩
  · cases established
  · cases related
  · exact absurd lo (by decide)
  · cases source
    exact knocked

end HyperionVpn.Spa
