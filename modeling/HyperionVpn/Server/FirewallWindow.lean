import HyperionVpn.Server.SnifferRuns

/-! The sniffer together with the firewall set it writes to. The set's timeout,
the cooldown and the replay window run against one nondecreasing clock. -/
namespace HyperionVpn
open Net Knock Machine Sniffer

structure KnockRuntime where
  knockPort : UInt16
  tunnelPort : UInt16
  psk : Psk
  serverPub : PublicKey
  windowSecs : UInt64
  table : String
  set : String
  ttlSecs : UInt64

/-- The sniffer that `start_spa` spawns. -/
def startSpa (k : KnockRuntime) : SnifferConfig where
  knockPort := k.knockPort
  tunnelPort := k.tunnelPort
  psk := k.psk
  serverPub := k.serverPub
  windowSecs := k.windowSecs
  allowCooldownSecs := max (k.ttlSecs / 2) 1
  firewall := ⟨k.table, k.set, k.ttlSecs⟩

/-- Half of the time to live, the stay that a knock is meant to buy. -/
def KnockRuntime.half (k : KnockRuntime) : Nat := k.ttlSecs.toNat / 2

theorem startSpa_cooldown (k : KnockRuntime) :
    (startSpa k).allowCooldownSecs.toNat = max k.half 1 := by
  rw [startSpa, Word.max_toNat]
  simp [KnockRuntime.half]

structure Gate where
  sniffer : Sniffer
  members : NftSet

namespace Gate

variable (crypto : Crypto) (k : KnockRuntime)

def new : Gate := ⟨Sniffer.new crypto (startSpa k), ∅⟩

/-- A pass of the sniffer with the effect of its `nft` command. -/
def step (g : Gate) (tick : Tick) : Option (Outcome × Gate) := do
  let (out, sniffer) ← iterate crypto (startSpa k) g.sniffer tick
  match out with
  | .knock src _ (.allowed _) =>
    return (out, ⟨sniffer, g.members.add src tick.now.toNat k.ttlSecs.toNat⟩)
  | _ => return (out, ⟨sniffer, g.members⟩)

/-- Every start of `nft` succeeds. -/
def NftSucceeds (tr : Sniffer.Trace) : Prop :=
  ∀ e ∈ tr, ∀ args, ∃ status, e.1.nft args = .exited true status

/-- From every accepted knock on, its source is a member for half of the time
to live, as far as that has passed. -/
def Open (tr : Sniffer.Trace) (g : Gate) : Prop :=
  ∀ tick out src u, (tick, out) ∈ tr → out.Accepts src → (∀ e ∈ tr, e.1.now.toNat ≤ u) →
    u < tick.now.toNat + k.half → g.members.Contains src u

/-- The source was a member at every moment of the run it should have been. -/
def AlwaysOpen (tr : Sniffer.Trace) : Prop :=
  ∀ before after g, tr = before ++ after → Run (step crypto k) (new crypto k) before g →
    Open k before g

/-- No valid knock of a source arrives while the source is a member with less
than half of the time to live left. -/
def NeverLate (tr : Sniffer.Trace) : Prop :=
  ∀ before tick out after g src expiry, tr = before ++ (tick, out) :: after →
    Run (step crypto k) (new crypto k) before g →
    KnocksFrom crypto (startSpa k) (accepted (knocks before)) tick src →
    g.members.lookup src = some expiry → tick.now.toNat < expiry →
    tick.now.toNat + k.half ≤ expiry

variable {crypto : Crypto} {k : KnockRuntime}

theorem step_spec {g g' : Gate} {tick : Tick} {out : Outcome}
    (h : step crypto k g tick = some (out, g')) :
    iterate crypto (startSpa k) g.sniffer tick = some (out, g'.sniffer) ∧
      ((∃ src, out.Allowed src ∧
          g'.members = g.members.add src tick.now.toNat k.ttlSecs.toNat) ∨
        ((∀ src, ¬ out.Allowed src) ∧ g'.members = g.members)) := by
  obtain ⟨⟨out', sniffer⟩, passed, rest⟩ := Option.bind_eq_some_iff.mp h
  dsimp only at rest
  split at rest <;> cases rest
  · exact ⟨passed, .inl ⟨_, rfl, rfl⟩⟩
  · rename_i other
    refine ⟨passed, .inr ⟨fun src allowed => ?_, rfl⟩⟩
    unfold Outcome.Allowed at allowed
    split at allowed
    · exact other _ _ _ rfl
    · exact allowed

theorem run_sniffer {tr : Sniffer.Trace} {g : Gate} (run : Run (step crypto k) (new crypto k) tr g) :
    Run (iterate crypto (startSpa k)) (Sniffer.new crypto (startSpa k)) tr g.sniffer := by
  induction run with
  | nil => exact .nil
  | snoc _ stepped ih => exact ih.snoc (step_spec stepped).1

/-- A pass never shortens the stay of any source. -/
theorem members_le {g g' : Gate} {tick : Tick} {out : Outcome} {src : Ipv4Addr} {expiry : Nat}
    (stepped : step crypto k g tick = some (out, g'))
    (found : g.members.lookup src = some expiry) :
    ∃ later, g'.members.lookup src = some later ∧ expiry ≤ later := by
  rcases (step_spec stepped).2 with ⟨src', -, members⟩ | ⟨-, members⟩ <;> rw [members]
  · exact NftSet.lookup_add_le found
  · exact ⟨expiry, found, le_rfl⟩

/-- A member stays one with its expiry unchanged: the set ignores additions. -/
theorem members_present {g g' : Gate} {tick : Tick} {out : Outcome} {src : Ipv4Addr} {expiry : Nat}
    (stepped : step crypto k g tick = some (out, g'))
    (found : g.members.lookup src = some expiry) (present : tick.now.toNat < expiry) :
    g'.members.lookup src = some expiry := by
  rcases (step_spec stepped).2 with ⟨src', -, members⟩ | ⟨-, members⟩ <;> rw [members]
  · by_cases same : src = src'
    · subst same
      exact NftSet.lookup_add_present found present
    · exact (NftSet.lookup_add_of_ne same).trans found
  · exact found

theorem members_allowed {g g' : Gate} {tick : Tick} {out : Outcome} {src : Ipv4Addr}
    (stepped : step crypto k g tick = some (out, g')) (allowed : out.Allowed src)
    (absent : ∀ expiry, g.members.lookup src = some expiry → expiry ≤ tick.now.toNat) :
    g'.members.lookup src = some (tick.now.toNat + k.ttlSecs.toNat) := by
  rcases (step_spec stepped).2 with ⟨src', allowed', members⟩ | ⟨other, -⟩
  · obtain rfl : src' = src := by
      cases out with
      | skipped => exact allowed.elim
      | knock s payload decision =>
        cases decision <;> first | exact allowed.elim | exact allowed'.symm.trans allowed
    rw [members]
    exact NftSet.lookup_add_absent absent
  · exact absurd allowed (other src)

/-- Every knock accepted so far has its half of the time to live, and so has
every allow that the cooldown table remembers. -/
structure Covered (k : KnockRuntime) (tr : Sniffer.Trace) (g : Gate) : Prop where
  knocked : ∀ tick out src, (tick, out) ∈ tr → out.Accepts src →
    ∃ expiry, g.members.lookup src = some expiry ∧ tick.now.toNat + k.half ≤ expiry
  remembered : ∀ src t, g.sniffer.recentAllows.lookup src = some t →
    ∃ expiry, g.members.lookup src = some expiry ∧ t.toNat + k.half ≤ expiry

/-- An accepted knock that is not late is covered: whether the allow call is
made or skipped, the element has half of its time to live left. -/
theorem knock_covered {tr : Sniffer.Trace} {g g' : Gate} {tick : Tick} {out : Outcome}
    {src : Ipv4Addr} (h : Covered k tr g) (stepped : step crypto k g tick = some (out, g'))
    (succeeds : ∀ args, ∃ status, tick.nft args = .exited true status) (accepts : out.Accepts src)
    (punctual : ∀ expiry, g.members.lookup src = some expiry → tick.now.toNat < expiry →
      tick.now.toNat + k.half ≤ expiry) :
    ∃ expiry, g'.members.lookup src = some expiry ∧ tick.now.toNat + k.half ≤ expiry := by
  have passed := (step_spec stepped).1
  by_cases present : ∃ expiry, g.members.lookup src = some expiry ∧ tick.now.toNat < expiry
  · obtain ⟨expiry, found, ahead⟩ := present
    exact ⟨expiry, members_present stepped found ahead, punctual expiry found ahead⟩
  have absent : ∀ expiry, g.members.lookup src = some expiry → expiry ≤ tick.now.toNat :=
    fun expiry found => Nat.not_lt.mp fun ahead => present ⟨expiry, found, ahead⟩
  by_cases hot : Cooling (startSpa k) g.sniffer.recentAllows src tick.now
  · obtain ⟨t, found, within⟩ := hot
    rw [recent_iff, startSpa_cooldown] at within
    obtain ⟨expiry, held, enough⟩ := h.remembered src t found
    have expired := absent expiry held
    obtain ⟨later, held', longer⟩ := members_le stepped held
    -- Only a time to live below two seconds lets a cooldown outlast it.
    exact ⟨later, held', by omega⟩
  · have calls := (callsAllow_iff passed src).mpr ⟨accepts, hot⟩
    have allowed := allowed_of_succeeds passed succeeds calls
    exact ⟨_, members_allowed stepped allowed absent, by unfold KnockRuntime.half; omega⟩

theorem accepts_of_allowed {out : Outcome} {src : Ipv4Addr} (allowed : out.Allowed src) :
    out.Accepts src := by
  cases out with
  | skipped => exact allowed.elim
  | knock s payload decision => cases decision <;> first | exact allowed.elim | exact allowed

theorem covered_step {tr : Sniffer.Trace} {g g' : Gate} {tick : Tick} {out : Outcome}
    (h : Covered k tr g) (stepped : step crypto k g tick = some (out, g'))
    (succeeds : ∀ args, ∃ status, tick.nft args = .exited true status)
    (punctual : ∀ src expiry, out.Accepts src → g.members.lookup src = some expiry →
      tick.now.toNat < expiry → tick.now.toNat + k.half ≤ expiry) :
    Covered k (tr ++ [(tick, out)]) g' where
  knocked := by
    intro tick' out' src member accepts
    rcases List.mem_append.mp member with old | new
    · obtain ⟨expiry, found, enough⟩ := h.knocked tick' out' src old accepts
      obtain ⟨later, found', longer⟩ := members_le stepped found
      exact ⟨later, found', by omega⟩
    · cases List.mem_singleton.mp new
      exact knock_covered h stepped succeeds accepts (fun _ => punctual src _ accepts)
  remembered := by
    intro src t found
    rcases recentAllows_step (step_spec stepped).1 found with ⟨allowed, rfl⟩ | old
    · have accepts := accepts_of_allowed allowed
      exact knock_covered h stepped succeeds accepts (fun _ => punctual src _ accepts)
    · obtain ⟨expiry, held, enough⟩ := h.remembered src t old
      obtain ⟨later, held', longer⟩ := members_le stepped held
      exact ⟨later, held', by omega⟩

theorem run_covered {tr : Sniffer.Trace} {g : Gate} (run : Run (step crypto k) (new crypto k) tr g)
    (ordered : Sniffer.Ordered tr) (succeeds : NftSucceeds tr) (timely : NeverLate crypto k tr) :
    Covered k tr g := by
  induction run with
  | nil =>
    constructor
    · intro tick out src member
      contradiction
    · intro src t found
      simp [new, Sniffer.new] at found
  | @snoc tr g tick out g' left stepped ih =>
    obtain ⟨ordered, earlier⟩ := Sniffer.ordered_snoc ordered
    have timely' : NeverLate crypto k tr := by
      rintro before tick' out' after m src expiry rfl
      exact timely before tick' out' (after ++ [(tick, out)]) m src expiry (by simp)
    have before := ih ordered (fun e he => succeeds e (by simp [he])) timely'
    refine covered_step before stepped (succeeds (tick, out) (by simp)) ?_
    intro src expiry accepts found ahead
    have knocks := (accepts_iff_knocks (run_sniffer left) earlier (step_spec stepped).1 src).mp accepts
    exact timely tr tick out [] g src expiry rfl left knocks found ahead

theorem Covered.open {tr : Sniffer.Trace} {g : Gate} (h : Covered k tr g) : Open k tr g := by
  intro tick out src u member accepts _ within
  obtain ⟨expiry, found, enough⟩ := h.knocked tick out src member accepts
  exact ⟨expiry, found, by omega⟩

/-- A run keeps every accepted knock's source a member for its half of the time
to live, at every moment, exactly if no knock comes late. -/
theorem always_open_iff_never_late (crypto : Crypto) (k : KnockRuntime) (tr : Sniffer.Trace)
    (g : Gate) (run : Run (step crypto k) (new crypto k) tr g) (ordered : Sniffer.Ordered tr)
    (succeeds : NftSucceeds tr) : AlwaysOpen crypto k tr ↔ NeverLate crypto k tr := by
  constructor
  · rintro held before tick out after m src expiry rfl left knocks found ahead
    by_contra late
    obtain ⟨m₁, m₂, left₁, stepped, -⟩ := run.at_step
    obtain ⟨-, rfl⟩ := left.functional left₁ rfl
    obtain ⟨-, -, cross⟩ := List.pairwise_append.mp ordered
    have earlier : ∀ e ∈ before, e.1.now ≤ tick.now := fun e he => cross e he (tick, out) (by simp)
    have accepts :=
      (accepts_iff_knocks (run_sniffer left) earlier (step_spec stepped).1 src).mpr knocks
    -- The late knock leaves the element as it is, so at its expiry the source is out.
    have passed : ∀ e ∈ before ++ [(tick, out)], e.1.now.toNat ≤ expiry := by
      intro e he
      rcases List.mem_append.mp he with old | new
      · have := UInt64.le_iff_toNat_le.mp (earlier e old)
        omega
      · rw [List.mem_singleton.mp new]
        exact ahead.le
    obtain ⟨expiry', found', present⟩ := held (before ++ [(tick, out)]) after m₂ (by simp)
      (left.snoc stepped) tick out src expiry (by simp) accepts passed (by omega)
    cases (members_present stepped found ahead).symm.trans found'
    omega
  · rintro timely before after m rfl left
    obtain ⟨ordered, -, -⟩ := List.pairwise_append.mp ordered
    refine (run_covered left ordered (fun e he => succeeds e (by simp [he])) ?_).open
    rintro before' tick out after' m' src expiry rfl
    exact timely before' tick out (after' ++ after) m' src expiry (by simp)

/-! With a minute to live, a client knocks twice within it, forty seconds apart. -/

def sampleRuntime : KnockRuntime :=
  ⟨8443, 8443, samplePsk, sampleServer, 30, "hyperion", "knock_allow", 60⟩

def sampleSource : Ipv4Addr := ⟨203, 0, 113, 7⟩

def sampleKnocks : List Tick :=
  [sampleTick 1000 (sampleFrame 8443 (sealAt .transparent samplePsk sampleServer 8443 1000
    (.replicate 12 1))),
   sampleTick 1040 (sampleFrame 8443 (sealAt .transparent samplePsk sampleServer 8443 1040
    (.replicate 12 2)))]

/-- Which knocks of the source were accepted, and its expiry afterwards. -/
def sampleReport : Option (List Bool × Option Nat) :=
  (exec (step .transparent sampleRuntime) (new .transparent sampleRuntime) sampleKnocks).map
    fun (tr, g) => (tr.map fun e => decide (e.2.Accepts sampleSource), g.members.lookup sampleSource)

/-- Both knocks are accepted; the second does not extend the stay. -/
theorem sample_run : ∃ out₁ out₂ tick₁ tick₂ g,
    Run (step .transparent sampleRuntime) (new .transparent sampleRuntime)
      [(tick₁, out₁), (tick₂, out₂)] g ∧ [tick₁, tick₂] = sampleKnocks ∧
    out₂.Accepts sampleSource ∧ g.members.lookup sampleSource = some 1060 := by
  have report : sampleReport = some ([true, true], some 1060) := by decide +kernel
  obtain ⟨⟨tr, g⟩, executed, same⟩ := Option.map_eq_some_iff.mp report
  obtain ⟨run, inputs⟩ := exec_run executed
  match tr with
  | [] | [_] | _ :: _ :: _ :: _ => simp [sampleKnocks] at inputs
  | [(tick₁, out₁), (tick₂, out₂)] =>
    simp only [List.map_cons, List.map_nil, Prod.mk.injEq, List.cons.injEq, decide_eq_true_eq,
      and_true] at same
    exact ⟨out₁, out₂, tick₁, tick₂, g, run, inputs, same.1.2, same.2⟩

theorem sampleKnocks_ordered (tr : Sniffer.Trace) (inputs : tr.map Prod.fst = sampleKnocks) :
    Sniffer.Ordered tr ∧ NftSucceeds tr := by
  constructor
  · have ordered : sampleKnocks.Pairwise (fun a b => a.now ≤ b.now) := by
      simp [sampleKnocks, sampleTick]
    rw [← inputs, List.pairwise_map] at ordered
    exact ordered
  · intro e he args
    have input : e.1 ∈ tr.map Prod.fst := List.mem_map_of_mem he
    rw [inputs] at input
    rcases List.mem_pair.mp input with same | same <;> rw [same] <;> exact ⟨_, rfl⟩

theorem second_knock_cut_short :
    ¬ ∀ (crypto : Crypto) (k : KnockRuntime) (tr : Sniffer.Trace) (g : Gate),
      Run (step crypto k) (new crypto k) tr g → Sniffer.Ordered tr → NftSucceeds tr →
      AlwaysOpen crypto k tr := by
  intro claim
  obtain ⟨out₁, out₂, tick₁, tick₂, g, run, inputs, accepts, found⟩ := sample_run
  obtain ⟨ordered, succeeds⟩ := sampleKnocks_ordered [(tick₁, out₁), (tick₂, out₂)] inputs
  have held := claim _ _ _ g run ordered succeeds _ [] g (by simp) run
  cases inputs
  obtain ⟨expiry, found', present⟩ := held _ out₂ sampleSource 1060 (.tail _ (.head _)) accepts
    (by simp [sampleTick]) (by decide)
  cases found.symm.trans found'
  omega

theorem always_open_iff_never_late_sample : ∃ tr g,
    Run (step .transparent sampleRuntime) (new .transparent sampleRuntime) tr g ∧
    tr.map Prod.fst = sampleKnocks ∧
    (AlwaysOpen .transparent sampleRuntime tr ↔ NeverLate .transparent sampleRuntime tr) := by
  obtain ⟨out₁, out₂, tick₁, tick₂, g, run, inputs, -, -⟩ := sample_run
  obtain ⟨ordered, succeeds⟩ := sampleKnocks_ordered [(tick₁, out₁), (tick₂, out₂)] inputs
  exact ⟨_, g, run, inputs, always_open_iff_never_late _ _ _ _ run ordered succeeds⟩

end Gate
end HyperionVpn
