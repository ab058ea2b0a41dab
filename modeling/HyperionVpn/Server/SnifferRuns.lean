import HyperionVpn.Core.KnockReplay
import HyperionVpn.Server.SnifferProofs

/-! Whole runs of the sniffer against a nondecreasing clock: its verifier makes
a run of its own, and the cooldown table is compared with the list of all
successful allow calls. -/
namespace HyperionVpn.Sniffer
open Net Word Packet Knock Machine

variable {crypto : Crypto} {config : SnifferConfig}

abbrev Trace := List (Tick × Outcome)

def Ordered (tr : Trace) : Prop := tr.Pairwise (fun a b => a.1.now ≤ b.1.now)

def Decision.result : Decision → Except Error Knock
  | .rejected e => .error e
  | .otherPort k | .cooling k | .allowed k | .allowFailed k _ => .ok k

/-- The verifier's calls in a run of the sniffer. -/
def knocks (tr : Trace) : Knock.Trace :=
  tr.filterMap fun e =>
    match e.2 with
    | .skipped => none
    | .knock _ payload decision => some (⟨payload, e.1.now⟩, decision.result)

/-- Source and time of every successful allow call, oldest first. -/
def allows (tr : Trace) : List (Ipv4Addr × UInt64) :=
  tr.filterMap fun e =>
    match e.2 with
    | .knock src _ (.allowed _) => some (src, e.1.now)
    | _ => none

/-- The pass accepted a knock of the source for the tunnel port. -/
def Outcome.Accepts (src : Ipv4Addr) : Outcome → Prop
  | .knock s _ (.cooling _) | .knock s _ (.allowed _) | .knock s _ (.allowFailed _ _) => s = src
  | _ => False

instance (src : Ipv4Addr) : DecidablePred (Outcome.Accepts src)
  | .skipped | .knock _ _ (.rejected _) | .knock _ _ (.otherPort _) => .isFalse id
  | .knock s _ (.cooling _) | .knock s _ (.allowed _) | .knock s _ (.allowFailed _ _) =>
    inferInstanceAs (Decidable (s = src))

/-- The pass called `firewall.allow`. -/
def Outcome.CallsAllow (src : Ipv4Addr) : Outcome → Prop
  | .knock s _ (.allowed _) | .knock s _ (.allowFailed _ _) => s = src
  | _ => False

/-- The pass called `firewall.allow`, which succeeded. -/
def Outcome.Allowed (src : Ipv4Addr) : Outcome → Prop
  | .knock s _ (.allowed _) => s = src
  | _ => False

theorem knocks_append (a b : Trace) : knocks (a ++ b) = knocks a ++ knocks b :=
  List.filterMap_append

theorem allows_append (a b : Trace) : allows (a ++ b) = allows a ++ allows b :=
  List.filterMap_append

theorem knocks_time {tr : Trace} {c : Call × Except Error Knock} (member : c ∈ knocks tr) :
    ∃ e ∈ tr, e.1.now = c.1.now := by
  obtain ⟨e, he, same⟩ := List.mem_filterMap.mp member
  refine ⟨e, he, ?_⟩
  split at same
  · contradiction
  · cases same
    rfl

theorem allows_time {tr : Trace} {a : Ipv4Addr × UInt64} (member : a ∈ allows tr) :
    ∃ e ∈ tr, e.1.now = a.2 := by
  obtain ⟨e, he, same⟩ := List.mem_filterMap.mp member
  refine ⟨e, he, ?_⟩
  split at same
  · cases same
    rfl
  · contradiction

theorem ordered_snoc {tr : Trace} {e : Tick × Outcome} (h : Ordered (tr ++ [e])) :
    Ordered tr ∧ ∀ x ∈ tr, x.1.now ≤ e.1.now := by
  obtain ⟨init, -, last⟩ := List.pairwise_append.mp h
  exact ⟨init, fun x hx => last x hx e (by simp)⟩

theorem grants_result {recentAllows recentAllows' : KeyMap Ipv4Addr UInt64} {src : Ipv4Addr}
    {k : Knock} {tick : Tick} {decision : Decision}
    (h : Grants config recentAllows src k tick decision recentAllows') : decision.result = .ok k := by
  cases h <;> rfl

/-- The sniffer's run drives its verifier through a run of the knocks in it. -/
theorem run_verifier {tr : Trace} {s : Sniffer}
    (run : Run (iterate crypto config) (new crypto config) tr s) :
    Run (KnockVerifier.call crypto)
      (KnockVerifier.new crypto config.psk config.serverPub config.windowSecs)
      (knocks tr) s.verifier := by
  induction run with
  | nil => exact .nil
  | snoc _ step ih =>
    rw [knocks_append]
    cases iterate_passes step with
    | skipped _ => simpa [knocks] using ih
    | rejected _ called => exact ih.snoc called
    | granted _ called granted =>
      have single := ih.snoc called
      rw [← grants_result granted] at single
      exact single

/-! The cooldown table against the list of allow calls. -/

/-- A pass other than a successful allow of the source leaves its cooldown as
it was, at every time from the pass on. -/
theorem cooling_step {s s' : Sniffer} {tick : Tick} {out : Outcome} {src : Ipv4Addr}
    {later : UInt64} (step : iterate crypto config s tick = some (out, s'))
    (other : ¬ out.Allowed src) (ordered : tick.now ≤ later) :
    Cooling config s'.recentAllows src later ↔ Cooling config s.recentAllows src later := by
  cases iterate_passes step with
  | skipped _ => rfl
  | rejected _ _ => rfl
  | granted _ _ granted =>
    cases granted with
    | otherPort _ => rfl
    | cooling _ _ => rfl
    | allowFailed _ _ _ => exact cooling_makeRoom ordered
    | allowed _ _ _ =>
      refine Iff.trans ?_ (cooling_makeRoom ordered)
      unfold Cooling
      rw [AList.lookup_insert_ne (fun same => other same.symm)]

theorem allows_single {tick : Tick} {out : Outcome} {src : Ipv4Addr} {t : UInt64} :
    (src, t) ∈ allows [(tick, out)] ↔ out.Allowed src ∧ t = tick.now := by
  cases out with
  | skipped => simp [allows, Outcome.Allowed]
  | knock src' payload decision => cases decision <;> simp [allows, Outcome.Allowed, eq_comm]

theorem allowed_table {s s' : Sniffer} {tick : Tick} {out : Outcome} {src : Ipv4Addr}
    (step : iterate crypto config s tick = some (out, s')) (allowed : out.Allowed src) :
    s'.recentAllows.lookup src = some tick.now ∧ ¬ Cooling config s.recentAllows src tick.now := by
  cases iterate_passes step with
  | skipped _ => exact allowed.elim
  | rejected _ _ => exact allowed.elim
  | granted _ _ granted =>
    cases granted with
    | otherPort _ => exact allowed.elim
    | cooling _ _ => exact allowed.elim
    | allowFailed _ _ _ => exact allowed.elim
    | allowed _ cold _ =>
      obtain rfl : _ = src := allowed
      exact ⟨AList.lookup_insert _, cold⟩

/-- An entry of the table is of this pass or was there before. -/
theorem recentAllows_step {s s' : Sniffer} {tick : Tick} {out : Outcome} {src : Ipv4Addr}
    {t : UInt64} (step : iterate crypto config s tick = some (out, s'))
    (found : s'.recentAllows.lookup src = some t) :
    (out.Allowed src ∧ t = tick.now) ∨ s.recentAllows.lookup src = some t := by
  have room {recentAllows : KeyMap Ipv4Addr UInt64}
      (found : (makeRoom config recentAllows tick.now).lookup src = some t) :
      recentAllows.lookup src = some t := by
    unfold makeRoom at found
    split at found
    · rw [KeyMap.lookup_retain, Option.filter_eq_some_iff] at found
      exact found.1
    · exact found
  cases iterate_passes step with
  | skipped _ => exact .inr found
  | rejected _ _ => exact .inr found
  | @granted src' _ _ _ _ _ _ _ granted =>
    cases granted with
    | otherPort _ => exact .inr found
    | cooling _ _ => exact .inr found
    | allowFailed _ _ _ => exact .inr (room found)
    | allowed _ _ _ =>
      by_cases same : src' = src
      · subst same
        rw [AList.lookup_insert] at found
        exact .inl ⟨rfl, (Option.some.inj found).symm⟩
      · rw [AList.lookup_insert_ne (fun h => same h.symm)] at found
        exact .inr (room found)

/-- From the last pass on, the sources in their cooldown are those with a
successful allow call within the cooldown. -/
theorem cooling_iff {tr : Trace} {s : Sniffer} {src : Ipv4Addr} {now : UInt64}
    (run : Run (iterate crypto config) (new crypto config) tr s) (ordered : Ordered tr)
    (later : ∀ e ∈ tr, e.1.now ≤ now) :
    Cooling config s.recentAllows src now ↔
      ∃ t, (src, t) ∈ allows tr ∧ now.toNat - t.toNat < config.allowCooldownSecs.toNat := by
  induction run with
  | nil => simp [Cooling, new, allows]
  | @snoc tr m tick out m' left step ih =>
    obtain ⟨ordered, earlier⟩ := ordered_snoc ordered
    have init := ih ordered (fun e he => later e (by simp [he]))
    have present : tick.now ≤ now := later (tick, out) (by simp)
    simp only [allows_append, List.mem_append, allows_single]
    by_cases allowed : out.Allowed src
    · rw [Cooling, (allowed_table step allowed).1]
      simp only [Option.some.injEq, exists_eq_left', recent_iff]
      constructor
      · intro hot
        exact ⟨tick.now, .inr ⟨allowed, rfl⟩, hot⟩
      · rintro ⟨t, old | ⟨-, rfl⟩, hot⟩
        · obtain ⟨e, he, same⟩ := allows_time old
          have before := UInt64.le_iff_toNat_le.mp (same ▸ earlier e he)
          simp only at before
          omega
        · exact hot
    · rw [cooling_step step allowed present, init]
      simp [allowed]

/-! The specification of the gate. -/

/-- The frame carries a knock of the source for the tunnel port that is sealed
for this server, fresh, not replayed, and within the replay cache's capacity. -/
def KnocksFrom (crypto : Crypto) (config : SnifferConfig) (history : List (Nonce × UInt64))
    (tick : Tick) (src : Ipv4Addr) : Prop :=
  ∃ frame payload ts nonce, tick.received = .frame frame ∧
    parseEthernetIpv4Udp frame = some (some (src, config.knockPort, payload)) ∧
    payload = sealAt crypto config.psk config.serverPub config.tunnelPort ts nonce ∧
    (absDiff tick.now ts).toNat ≤ config.windowSecs.toNat ∧
    (∀ t, (nonce, t) ∈ history → config.windowSecs.toNat < tick.now.toNat - t.toNat) ∧
    (history.filter (live config.windowSecs tick.now)).length < 4096

/-- What the verifier says of a delivered payload decides whose knock it is. -/
theorem knocksFrom_delivered {tr : Trace} {s : Sniffer} {tick : Tick} {src other : Ipv4Addr}
    {payload : List UInt8} {r : Except Error Knock} {v : KnockVerifier}
    (run : Run (iterate crypto config) (new crypto config) tr s)
    (earlier : ∀ e ∈ tr, e.1.now ≤ tick.now) (delivered : Delivers config tick src payload)
    (called : s.verifier.call crypto ⟨payload, tick.now⟩ = some (r, v)) :
    KnocksFrom crypto config (accepted (knocks tr)) tick other ↔
      src = other ∧ r = .ok ⟨config.tunnelPort⟩ := by
  have before : ∀ c ∈ knocks tr, c.1.now ≤ tick.now := by
    intro c hc
    obtain ⟨e, he, same⟩ := knocks_time hc
    exact same ▸ earlier e he
  rw [call_accepts_sealed (run_tracks (run_verifier run)) before called]
  obtain ⟨frame, received, parsed, -⟩ := delivered
  constructor
  · rintro ⟨frame', payload', ts, nonce, received', parsed', accepts⟩
    cases received.symm.trans received'
    cases parsed.symm.trans parsed'
    exact ⟨rfl, ts, nonce, accepts⟩
  · rintro ⟨rfl, ts, nonce, accepts⟩
    exact ⟨frame, payload, ts, nonce, received, parsed, accepts⟩

theorem grants_accepts {recentAllows recentAllows' : KeyMap Ipv4Addr UInt64} {src other : Ipv4Addr}
    {k : Knock} {tick : Tick} {decision : Decision} {payload : List UInt8}
    (h : Grants config recentAllows src k tick decision recentAllows') :
    (Outcome.knock src payload decision).Accepts other ↔
      src = other ∧ k.tunnelPort = config.tunnelPort := by
  cases h <;> simp [Outcome.Accepts, *]

/-- A pass accepts exactly the knocks of the specification. -/
theorem accepts_iff_knocks {tr : Trace} {s s' : Sniffer} {tick : Tick} {out : Outcome}
    (run : Run (iterate crypto config) (new crypto config) tr s)
    (earlier : ∀ e ∈ tr, e.1.now ≤ tick.now)
    (step : iterate crypto config s tick = some (out, s')) (src : Ipv4Addr) :
    out.Accepts src ↔ KnocksFrom crypto config (accepted (knocks tr)) tick src := by
  cases iterate_passes step with
  | skipped undelivered =>
    simp only [Outcome.Accepts, false_iff]
    rintro ⟨frame, payload, ts, nonce, received, parsed, rfl, -⟩
    exact undelivered _ _ ⟨frame, received, parsed, sealAt_length ..⟩
  | rejected delivered called =>
    rw [knocksFrom_delivered run earlier delivered called]
    simp [Outcome.Accepts]
  | @granted src' payload k v decision recentAllows delivered called granted =>
    rw [knocksFrom_delivered run earlier delivered called, grants_accepts granted]
    obtain ⟨port⟩ := k
    simp

theorem callsAllow_iff {s s' : Sniffer} {tick : Tick} {out : Outcome}
    (step : iterate crypto config s tick = some (out, s')) (src : Ipv4Addr) :
    out.CallsAllow src ↔ out.Accepts src ∧ ¬ Cooling config s.recentAllows src tick.now := by
  cases iterate_passes step with
  | skipped _ => simp [Outcome.CallsAllow, Outcome.Accepts]
  | rejected _ _ => simp [Outcome.CallsAllow, Outcome.Accepts]
  | granted _ _ granted =>
    cases granted with
    | otherPort _ => simp [Outcome.CallsAllow, Outcome.Accepts]
    | cooling _ hot =>
      simp only [Outcome.CallsAllow, Outcome.Accepts, false_iff, not_and, not_not]
      rintro rfl
      exact hot
    | allowed _ cold _ =>
      simp only [Outcome.CallsAllow, Outcome.Accepts, iff_self_and]
      rintro rfl
      exact cold
    | allowFailed _ cold _ =>
      simp only [Outcome.CallsAllow, Outcome.Accepts, iff_self_and]
      rintro rfl
      exact cold

theorem allows_spaced {tr : Trace} {s : Sniffer}
    (run : Run (iterate crypto config) (new crypto config) tr s) (ordered : Ordered tr) :
    (allows tr).Pairwise (fun a b => a.1 = b.1 →
      a.2.toNat + config.allowCooldownSecs.toNat ≤ b.2.toNat) := by
  induction run with
  | nil => exact .nil
  | @snoc tr m tick out m' left step ih =>
    obtain ⟨ordered, earlier⟩ := ordered_snoc ordered
    rw [allows_append, List.pairwise_append]
    refine ⟨ih ordered, ?_, ?_⟩
    · cases out with
      | skipped => exact .nil
      | knock src payload decision => cases decision <;> simp [allows]
    · rintro ⟨src, t⟩ old ⟨src', t'⟩ new rfl
      obtain ⟨allowed, rfl⟩ := allows_single.mp new
      have cold := (allowed_table step allowed).2
      rw [cooling_iff left ordered earlier] at cold
      have apart : ¬ tick.now.toNat - t.toNat < config.allowCooldownSecs.toNat :=
        fun hot => cold ⟨t, old, hot⟩
      obtain ⟨e, he, same⟩ := allows_time old
      have before := UInt64.le_iff_toNat_le.mp (same ▸ earlier e he)
      simp only at before ⊢
      omega

theorem allowed_of_succeeds {s s' : Sniffer} {tick : Tick} {out : Outcome} {src : Ipv4Addr}
    (step : iterate crypto config s tick = some (out, s'))
    (succeeds : ∀ args, ∃ status, tick.nft args = .exited true status)
    (calls : out.CallsAllow src) : out.Allowed src := by
  cases iterate_passes step with
  | skipped _ => exact calls
  | rejected _ _ => exact calls
  | granted _ _ granted =>
    cases granted with
    | otherPort _ => exact calls
    | cooling _ _ => exact calls
    | allowed _ _ _ => exact calls
    | allowFailed _ _ failed =>
      obtain ⟨status, success⟩ := succeeds (config.firewall.addElementArgs _)
      rw [Firewall.allow, success] at failed
      contradiction

/-- In a run of the sniffer over these passes no pass panics, the allow calls
are those of the specification, successful ones for one source are a cooldown
apart, and nothing else moves a source into or out of its cooldown. -/
def GateExact (crypto : Crypto) (config : SnifferConfig) (ticks : List Tick) : Prop :=
  ∃ tr s, Run (iterate crypto config) (new crypto config) tr s ∧ tr.map Prod.fst = ticks ∧
    (allows tr).Pairwise (fun a b => a.1 = b.1 →
      a.2.toNat + config.allowCooldownSecs.toNat ≤ b.2.toNat) ∧
    ∀ before tick out after, tr = before ++ (tick, out) :: after →
      (∀ src, out.CallsAllow src ↔
        KnocksFrom crypto config (accepted (knocks before)) tick src ∧
        ∀ t, (src, t) ∈ allows before →
          config.allowCooldownSecs.toNat ≤ tick.now.toNat - t.toNat) ∧
      ∀ m m' src later, Run (iterate crypto config) (new crypto config) before m →
        iterate crypto config m tick = some (out, m') → ¬ out.Allowed src → tick.now ≤ later →
        (Cooling config m'.recentAllows src later ↔ Cooling config m.recentAllows src later)

theorem run_exists (crypto : Crypto) (config : SnifferConfig) (s : Sniffer) (ticks : List Tick) :
    ∃ tr s', Run (iterate crypto config) s tr s' ∧ tr.map Prod.fst = ticks := by
  have total : ∀ (m : Sniffer) (tick : Tick), True →
      ∃ out m', iterate crypto config m tick = some (out, m') ∧ True := by
    intro m tick _
    obtain ⟨out, m', step⟩ := iterate_total crypto config m tick
    exact ⟨out, m', step, trivial⟩
  obtain ⟨tr, s', run, same, -⟩ := Run.exists_of_total s trivial total ticks
  exact ⟨tr, s', run, same⟩

theorem gate_opens_exactly (crypto : Crypto) (config : SnifferConfig) (ticks : List Tick)
    (ordered : ticks.Pairwise (fun a b => a.now ≤ b.now)) : GateExact crypto config ticks := by
  obtain ⟨tr, s, run, same⟩ := run_exists crypto config (new crypto config) ticks
  have trOrdered : Ordered tr := by
    rw [← same, List.pairwise_map] at ordered
    exact ordered
  refine ⟨tr, s, run, same, allows_spaced run trOrdered, ?_⟩
  rintro before tick out after rfl
  obtain ⟨m, m', left, step, -⟩ := run.at_step
  obtain ⟨leftOrdered, -, cross⟩ := List.pairwise_append.mp trOrdered
  have earlier : ∀ e ∈ before, e.1.now ≤ tick.now := fun e he => cross e he (tick, out) (by simp)
  constructor
  · intro src
    rw [callsAllow_iff step, accepts_iff_knocks left earlier step,
      cooling_iff left leftOrdered earlier]
    simp only [not_exists, not_and, Nat.not_lt]
  · intro n n' src later left' step' other after
    obtain ⟨-, rfl⟩ := left.functional left' rfl
    exact cooling_step step' other after

/-! A knock, its replay, and a frame that is no datagram. -/

def sampleFirewall : Firewall := ⟨"hyperion", "knock_allow", 60⟩

def sampleConfig : SnifferConfig :=
  ⟨8443, 8443, samplePsk, sampleServer, 30, 30, sampleFirewall⟩

/-- An Ethernet frame with an IPv4 header of twenty bytes, from 203.0.113.7. -/
def sampleFrame (port : UInt16) (payload : List UInt8) : List UInt8 :=
  List.replicate 12 0 ++ [0x08, 0x00] ++
    [0x45, 0, 0, 0, 0, 0, 0, 0, 64, 17, 0, 0, 203, 0, 113, 7, 10, 0, 0, 1] ++
    [0x30, 0x39] ++ Bytes.u16ToBE port ++ Bytes.u16ToBE (8 + UInt16.ofNat payload.length) ++
    [0, 0] ++ payload

def sampleTick (now : UInt64) (frame : List UInt8) : Tick :=
  ⟨.frame frame, now, fun _ => .exited true "exit status: 0"⟩

theorem gate_opens_exactly_sample : GateExact .transparent sampleConfig
    [sampleTick 1000 (sampleFrame 8443 (sampleKnock 1000)),
     sampleTick 1010 (sampleFrame 8443 (sampleKnock 1000)), sampleTick 1010 [1, 2, 3]] :=
  gate_opens_exactly _ _ _ (by simp [sampleTick])

end HyperionVpn.Sniffer
