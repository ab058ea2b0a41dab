import HyperionVpn.Core.PacketGrammar
import HyperionVpn.Server.FirewallWindow

/-! The size of the sniffer's cooldown table over whole runs. The table has no
refusal path, so what bounds it is the replay cache: as long as a source cools
no longer than its knock stays in the cache, both fill up together. -/
namespace HyperionVpn.Sniffer
open Net Bytes Packet Knock Machine

variable {crypto : Crypto} {config : SnifferConfig}

/-- The table is within its capacity after every run against a nondecreasing
clock. -/
def TableBounded (crypto : Crypto) (config : SnifferConfig) : Prop :=
  ∀ tr s, Run (iterate crypto config) (new crypto config) tr s → Ordered tr →
    s.recentAllows.size ≤ recentAllowCap

/-! The table against the replay cache. -/

theorem call_ok_nonce {v v' : KnockVerifier} {c : Call} {k : Knock}
    (called : v.call crypto c = some (.ok k, v')) : ∃ nonce, nonceOf c.packet = some nonce := by
  cases openKnock_iff.mp called with
  | @accepted nonce port judged _ =>
    obtain ⟨r, judged', authentic⟩ := authenticate_spec crypto v c.packet c.now
    cases judged.symm.trans judged'
    obtain ⟨ts, auth, -⟩ := (authentic nonce port).mp rfl
    exact ⟨nonce, nonceOf_authentic auth⟩

/-- Each successful allow call has an acceptance of the verifier behind it. -/
theorem allows_sublist_accepted {tr : Trace} {s : Sniffer}
    (run : Run (iterate crypto config) (new crypto config) tr s) :
    ((allows tr).map Prod.snd).Sublist ((accepted (knocks tr)).map Prod.snd) := by
  induction run with
  | nil => exact .slnil
  | @snoc tr m tick out m' _ step ih =>
    rw [allows_append, knocks_append, accepted_append, List.map_append, List.map_append]
    refine ih.append ?_
    cases iterate_passes step with
    | skipped _ => exact .slnil
    | rejected _ _ => exact .slnil
    | @granted src payload k v decision recentAllows _ called granted =>
      obtain ⟨nonce, found⟩ := call_ok_nonce called
      have single : accepted (knocks [(tick, .knock src payload decision)]) =
          [(nonce, tick.now)] := by
        have result := grants_result granted
        simp only [knocks, List.filterMap_cons, List.filterMap_nil, result]
        exact accepted_ok found k
      rw [single]
      cases granted with
      | otherPort _ => exact List.nil_sublist _
      | cooling _ _ => exact List.nil_sublist _
      | allowFailed _ _ _ => exact List.nil_sublist _
      | allowed _ _ _ => exact .refl _

theorem table_allows {tr : Trace} {s : Sniffer} {src : Ipv4Addr} {t : UInt64}
    (run : Run (iterate crypto config) (new crypto config) tr s)
    (found : s.recentAllows.lookup src = some t) : (src, t) ∈ allows tr := by
  induction run with
  | nil => simp [new] at found
  | snoc _ step ih =>
    rw [allows_append, List.mem_append]
    rcases recentAllows_step step found with latest | old
    · exact .inr (allows_single.mpr latest)
    · exact .inl (ih old)

/-- The table's entries of a time span are at most the acceptances of it. -/
theorem table_le_accepted {tr : Trace} {s : Sniffer} (p : UInt64 → Bool)
    (run : Run (iterate crypto config) (new crypto config) tr s) :
    (s.recentAllows.pairs.filter (fun e => p e.2)).length ≤
      ((accepted (knocks tr)).filter (fun e => p e.2)).length := by
  have subset : s.recentAllows.pairs ⊆ allows tr := by
    rintro ⟨src, t⟩ member
    exact table_allows run (KeyMap.mem_pairs.mp member)
  have count {α : Type} (xs : List (α × UInt64)) :
      (xs.filter (fun e => p e.2)).length = (xs.map Prod.snd).countP p := by
    rw [List.countP_map, List.countP_eq_length_filter]
    rfl
  calc (s.recentAllows.pairs.filter (fun e => p e.2)).length
      ≤ ((allows tr).filter (fun e => p e.2)).length :=
        ((List.subperm_of_subset (KeyMap.pairs_nodup _) subset).filter _).length_le
    _ = ((allows tr).map Prod.snd).countP p := count _
    _ ≤ ((accepted (knocks tr)).map Prod.snd).countP p := (allows_sublist_accepted run).countP_le
    _ = ((accepted (knocks tr)).filter (fun e => p e.2)).length := (count _).symm

theorem size_makeRoom_le (recentAllows : KeyMap Ipv4Addr UInt64) (now : UInt64) :
    (makeRoom config recentAllows now).size ≤ recentAllows.size := by
  unfold makeRoom
  split
  · exact KeyMap.size_retain_le _ _
  · exact le_rfl

/-- `live` as a test of the time alone. -/
def inWindow (window now t : UInt64) : Bool := decide (now.toNat - t.toNat ≤ window.toNat)

/-- A table that is pruned to entries inside the replay window has room for a
knock that the replay cache had room for. -/
theorem makeRoom_room {tr : Trace} {s : Sniffer} {now : UInt64}
    (short : config.allowCooldownSecs.toNat ≤ config.windowSecs.toNat + 1)
    (run : Run (iterate crypto config) (new crypto config) tr s)
    (room : ((accepted (knocks tr)).filter (live config.windowSecs now)).length < 4096) :
    (makeRoom config s.recentAllows now).size < recentAllowCap := by
  by_cases full : recentAllowCap ≤ s.recentAllows.size
  swap
  · rw [makeRoom, if_neg full]
    exact Nat.not_le.mp full
  rw [makeRoom, if_pos full]
  have kept : (s.recentAllows.pairs.filter (fun e => recent config now e.2)).Sublist
      (s.recentAllows.pairs.filter (fun e => inWindow config.windowSecs now e.2)) := by
    apply List.monotone_filter_right
    intro e hot
    rw [recent_iff] at hot
    rw [inWindow, decide_eq_true_eq]
    omega
  have recorded := table_le_accepted (inWindow config.windowSecs now) run
  rw [← KeyMap.pairs_length, KeyMap.pairs_retain]
  exact (kept.length_le.trans recorded).trans_lt room

theorem bounded_step {tr : Trace} {s s' : Sniffer} {tick : Tick} {out : Outcome}
    (short : config.allowCooldownSecs.toNat ≤ config.windowSecs.toNat + 1)
    (run : Run (iterate crypto config) (new crypto config) tr s)
    (earlier : ∀ e ∈ tr, e.1.now ≤ tick.now) (bounded : s.recentAllows.size ≤ recentAllowCap)
    (step : iterate crypto config s tick = some (out, s')) :
    s'.recentAllows.size ≤ recentAllowCap := by
  cases iterate_passes step with
  | skipped _ => exact bounded
  | rejected _ _ => exact bounded
  | @granted src payload k v decision recentAllows _ _ granted =>
    cases granted with
    | otherPort _ => exact bounded
    | cooling _ _ => exact bounded
    | allowFailed _ _ _ => exact (size_makeRoom_le _ _).trans bounded
    | allowed _ _ _ =>
      have accepts : (Outcome.knock src payload (.allowed k)).Accepts src := rfl
      obtain ⟨_, _, _, _, _, _, _, _, _, room⟩ := (accepts_iff_knocks run earlier step src).mp accepts
      exact (KeyMap.size_insert_le _ _ _).trans (makeRoom_room short run room)

theorem bounded_of_short
    (short : config.allowCooldownSecs.toNat ≤ config.windowSecs.toNat + 1) :
    TableBounded crypto config := by
  intro tr s run ordered
  induction run with
  | nil => exact Nat.zero_le _
  | snoc left step ih =>
    obtain ⟨ordered, earlier⟩ := ordered_snoc ordered
    exact bounded_step short left earlier (ih ordered) step

/-! A crowd of sources, each of which knocks once. -/

def crowdSource (i : Nat) : Ipv4Addr := .ofU32 (.ofNat i)

def crowdNonce (i : Nat) : Nonce := ⟨(toBE 12 i).toArray, by simp⟩

/-- A datagram with a knock's length, from any source. -/
def crowdDatagram (src : Ipv4Addr) (port : UInt16) (payload : List UInt8) : List UInt8 :=
  [0x45, 0, 0, 0, 0, 0, 0, 0, 64, 17, 0, 0, src.a, src.b, src.c, src.d, 10, 0, 0, 1] ++
    ([0x30, 0x39] ++ u16ToBE port ++ [0, 52, 0, 0] ++ payload)

def crowdFrame (src : Ipv4Addr) (port : UInt16) (payload : List UInt8) : List UInt8 :=
  [0, 0, 0, 0, 0, 0, 0, 0, 0, 0, 0, 0, 0x08, 0x00] ++ crowdDatagram src port payload

/-- The knock of the `i`th source, sealed with the server's present time. -/
def crowdTick (crypto : Crypto) (config : SnifferConfig) (now : UInt64) (i : Nat) : Tick where
  received := .frame (crowdFrame (crowdSource i) config.knockPort
    (sealAt crypto config.psk config.serverPub config.tunnelPort now (crowdNonce i)))
  now := now
  nft _ := .exited true "exit status: 0"

theorem crowdSource_injective {i j : Nat} (hi : i < 2 ^ 32) (hj : j < 2 ^ 32)
    (same : crowdSource i = crowdSource j) : i = j := by
  have words := congrArg Ipv4Addr.toNat same
  rw [crowdSource, crowdSource, Ipv4Addr.ofU32_toNat, Ipv4Addr.ofU32_toNat,
    UInt32.toNat_ofNat_of_lt' hi, UInt32.toNat_ofNat_of_lt' hj] at words
  exact words

theorem crowdNonce_injective {i j : Nat} (hi : i < 2 ^ 32) (hj : j < 2 ^ 32)
    (same : crowdNonce i = crowdNonce j) : i = j := by
  have bytes : toBE 12 i = toBE 12 j := by
    have := congrArg Vector.toList same
    simpa [crowdNonce, Vector.toList] using this
  rw [← ofBE_toBE_of_lt (show i < 256 ^ 12 by omega), bytes, ofBE_toBE_of_lt (by omega)]

theorem crowdFrame_parsed (src : Ipv4Addr) (port : UInt16) {payload : List UInt8}
    (size : payload.length = 44) :
    parseEthernetIpv4Udp (crowdFrame src port payload) = some (some (src, port, payload)) := by
  have header : IpHeader
      [0x45, 0, 0, 0, 0, 0, 0, 0, 64, 17, 0, 0, src.a, src.b, src.c, src.d, 10, 0, 0, 1] src :=
    ⟨⟨0x45, 5, rfl, by decide, by decide, by decide, by decide, rfl⟩, rfl, rfl⟩
  have macs : (List.replicate 12 (0 : UInt8)).length = 12 := rfl
  have frame := IsFrame.of_le macs header #v[0x30, 0x39] #v[0, 0] port payload [] (by omega)
  have word : toBE 2 (8 + 44) = [0, 52] := by decide
  rw [udpHeader, size, word] at frame
  rw [parse_iff_isFrame]
  simpa [crowdFrame, crowdDatagram] using frame

theorem crowd_delivers (crypto : Crypto) (config : SnifferConfig) (now : UInt64) (i : Nat) :
    Delivers config (crowdTick crypto config now i) (crowdSource i)
      (sealAt crypto config.psk config.serverPub config.tunnelPort now (crowdNonce i)) :=
  ⟨_, rfl, crowdFrame_parsed _ _ (sealAt_length ..), sealAt_length ..⟩

theorem nonceOf_sealAt (psk : Psk) (serverPub : PublicKey) (port : UInt16) (ts : UInt64)
    (nonce : Nonce) : nonceOf (sealAt crypto psk serverPub port ts nonce) = some nonce := by
  have cut := slice_append magic nonce.toList (crypto.encrypt (knockCipher crypto psk) nonce
    (knockAad serverPub) (payload protocolVersion ts port))
  rw [Vector.length_toList] at cut
  have cut : slice (sealAt crypto psk serverPub port ts nonce) 4 16 = some nonce.toList := cut
  rw [nonceOf, cut, Option.bind_some, tryInto_toList]

/-- A source that knocks for the first time enters the table. -/
theorem crowd_step {tr : Trace} {s : Sniffer} {now : UInt64} {i : Nat}
    (run : Run (iterate crypto config) (new crypto config) tr s)
    (earlier : ∀ e ∈ tr, e.1.now ≤ now)
    (unseen : ∀ t, (crowdNonce i, t) ∉ accepted (knocks tr))
    (room : ((accepted (knocks tr)).filter (live config.windowSecs now)).length < 4096)
    (absent : crowdSource i ∉ s.recentAllows) :
    ∃ out s', iterate crypto config s (crowdTick crypto config now i) = some (out, s') ∧
      s'.recentAllows = (makeRoom config s.recentAllows now).insert (crowdSource i) now ∧
      accepted (knocks (tr ++ [(crowdTick crypto config now i, out)])) =
        accepted (knocks tr) ++ [(crowdNonce i, now)] := by
  have delivered := crowd_delivers crypto config now i
  obtain ⟨r, v, opened⟩ := openKnock_total crypto s.verifier (sealAt crypto config.psk
    config.serverPub config.tunnelPort now (crowdNonce i)) now
  have before : ∀ c ∈ knocks tr, c.1.now ≤ now := by
    intro c hc
    obtain ⟨e, he, same⟩ := knocks_time hc
    exact same ▸ earlier e he
  obtain rfl : r = .ok ⟨config.tunnelPort⟩ := by
    refine (call_accepts_sealed (c := ⟨_, now⟩) (run_tracks (run_verifier run)) before opened).mpr
      ⟨now, crowdNonce i, rfl, ?_, ?_, room⟩
    · simp [Word.absDiff_toNat]
    · intro t member
      exact absurd member (unseen t)
  have granted : grant config s.recentAllows (crowdSource i) ⟨config.tunnelPort⟩
      (crowdTick crypto config now i) = (.allowed ⟨config.tunnelPort⟩,
        (makeRoom config s.recentAllows now).insert (crowdSource i) now) := by
    have cold : s.recentAllows.lookup (crowdSource i) = none :=
      AList.lookup_eq_none.mpr absent
    simp [grant, cold, Firewall.allow, crowdTick]
  have passed : iterate crypto config s (crowdTick crypto config now i) = _ :=
    iterate_delivered delivered
  rw [show (crowdTick crypto config now i).now = now from rfl, opened] at passed
  refine ⟨_, _, passed, ?_, ?_⟩
  · rw [granted]
  · rw [knocks_append, accepted_append, granted]
    exact congrArg _ (accepted_ok (nonceOf_sealAt ..) _)

/-- The first `n` sources of the crowd have knocked at time zero. -/
structure Crowd (crypto : Crypto) (config : SnifferConfig) (n : Nat) (tr : Trace) (s : Sniffer) :
    Prop where
  run : Run (iterate crypto config) (new crypto config) tr s
  start : ∀ e ∈ tr, e.1.now = 0
  size : s.recentAllows.size = n
  sources : ∀ src ∈ s.recentAllows, ∃ j < n, src = crowdSource j
  history : accepted (knocks tr) = (List.range n).map fun j => (crowdNonce j, 0)

theorem Crowd.unseen {n : Nat} {tr : Trace} {s : Sniffer} (h : Crowd crypto config n tr s)
    (bound : n ≤ 4096) (t : UInt64) : (crowdNonce n, t) ∉ accepted (knocks tr) := by
  rw [h.history, List.mem_map]
  rintro ⟨j, member, same⟩
  have before := List.mem_range.mp member
  have := crowdNonce_injective (by omega) (by omega) (congrArg Prod.fst same)
  omega

theorem Crowd.absent {n : Nat} {tr : Trace} {s : Sniffer} (h : Crowd crypto config n tr s)
    (bound : n ≤ 4096) : crowdSource n ∉ s.recentAllows := by
  intro member
  obtain ⟨j, before, same⟩ := h.sources _ member
  have := crowdSource_injective (by omega) (by omega) same
  omega

theorem crowd_gathers (crypto : Crypto) (config : SnifferConfig) {n : Nat} (bound : n ≤ 4096) :
    ∃ tr s, Crowd crypto config n tr s := by
  induction n with
  | zero =>
    refine ⟨[], new crypto config, .nil, by simp, rfl, ?_, rfl⟩
    intro src member
    exact absurd member (AList.notMem_empty src)
  | succ n ih =>
    obtain ⟨tr, s, crowd⟩ := ih (by omega)
    have earlier : ∀ e ∈ tr, e.1.now ≤ 0 := by
      intro e he
      rw [crowd.start e he]
      exact UInt64.le_refl 0
    have room : ((accepted (knocks tr)).filter (live config.windowSecs 0)).length < 4096 := by
      refine (List.length_filter_le _ _).trans_lt ?_
      rw [crowd.history, List.length_map, List.length_range]
      omega
    obtain ⟨out, s', step, table, history⟩ :=
      crowd_step crowd.run earlier (crowd.unseen (by omega)) room (crowd.absent (by omega))
    have small : ¬ recentAllowCap ≤ s.recentAllows.size := by
      rw [crowd.size, recentAllowCap]
      omega
    rw [makeRoom, if_neg small] at table
    refine ⟨_, s', crowd.run.snoc step, ?_, ?_, ?_, ?_⟩
    · intro e he
      rcases List.mem_append.mp he with old | new
      · exact crowd.start e old
      · rw [List.mem_singleton.mp new]
        rfl
    · rw [table, KeyMap.size_insert_of_notMem (crowd.absent (by omega)), crowd.size]
    · rw [table]
      intro src member
      rcases (AList.mem_insert _).mp member with rfl | old
      · exact ⟨n, by omega, rfl⟩
      · obtain ⟨j, before, same⟩ := crowd.sources src old
        exact ⟨j, by omega, same⟩
    · rw [history, crowd.history, List.range_succ, List.map_append]
      rfl

/-- When the crowd's knocks have left the replay cache but not the table, one
more source is one too many. -/
theorem overflows (crypto : Crypto) (config : SnifferConfig)
    (long : config.windowSecs.toNat + 1 < config.allowCooldownSecs.toNat) :
    ¬ TableBounded crypto config := by
  intro bounded
  obtain ⟨tr, s, crowd⟩ := crowd_gathers crypto config (le_refl 4096)
  have next : (config.windowSecs + 1).toNat = config.windowSecs.toNat + 1 := by
    have := config.allowCooldownSecs.toNat_lt
    rw [UInt64.toNat_add]
    simp only [UInt64.reduceToNat]
    omega
  have earlier : ∀ e ∈ tr, e.1.now ≤ config.windowSecs + 1 := by
    intro e he
    rw [crowd.start e he]
    exact UInt64.le_iff_toNat_le.mpr (Nat.zero_le _)
  have gone : (accepted (knocks tr)).filter (live config.windowSecs (config.windowSecs + 1)) = [] := by
    rw [crowd.history, List.filter_eq_nil_iff]
    intro e member
    obtain ⟨j, -, rfl⟩ := List.mem_map.mp member
    simp [live, next]
  obtain ⟨out, s', step, table, -⟩ := crowd_step crowd.run earlier (crowd.unseen le_rfl)
    (by rw [gone]; decide) (crowd.absent le_rfl)
  have kept : makeRoom config s.recentAllows (config.windowSecs + 1) = s.recentAllows := by
    rw [makeRoom, if_pos (show recentAllowCap ≤ _ from crowd.size.ge)]
    apply KeyMap.retain_eq_self
    rintro ⟨src, t⟩ member
    obtain ⟨e, he, rfl⟩ := allows_time (table_allows crowd.run (KeyMap.mem_pairs.mp member))
    rw [recent_iff, next, crowd.start e he]
    simpa using long
  have ordered : Ordered (tr ++ [(crowdTick crypto config (config.windowSecs + 1) 4096, out)]) := by
    refine List.pairwise_append.mpr ⟨?_, List.pairwise_singleton _ _, ?_⟩
    · refine List.pairwise_of_forall_mem_list ?_
      intro a ha b hb
      rw [crowd.start a ha, crowd.start b hb]
      exact UInt64.le_refl 0
    · intro a ha b hb
      rw [List.mem_singleton.mp hb]
      exact earlier a ha
  have size := bounded _ s' (crowd.run.snoc step) ordered
  rw [table, kept, KeyMap.size_insert_of_notMem (crowd.absent le_rfl), crowd.size] at size
  exact absurd size (by decide)

/-- The cooldown table of `start_spa`'s sniffer stays within its capacity
exactly if no source cools for longer than its knock is remembered. -/
theorem table_bounded_iff (crypto : Crypto) (k : KnockRuntime) :
    TableBounded crypto (startSpa k) ↔ max 1 (k.ttlSecs.toNat / 2) ≤ k.windowSecs.toNat + 1 := by
  have cooldown : (startSpa k).allowCooldownSecs.toNat = max 1 (k.ttlSecs.toNat / 2) := by
    rw [startSpa_cooldown, KnockRuntime.half, max_comm]
  constructor
  · intro bounded
    by_contra long
    exact overflows crypto (startSpa k) (by rw [cooldown]; exact Nat.not_le.mp long) bounded
  · intro short
    exact bounded_of_short (by rw [cooldown]; exact short)

/-- A window of thirty seconds, and four seconds more than a minute to live. -/
def crowdedRuntime : KnockRuntime :=
  ⟨8443, 8443, samplePsk, sampleServer, 30, "hyperion", "knock_allow", 64⟩

theorem crowd_overflows : ¬ ∀ (crypto : Crypto) (k : KnockRuntime), TableBounded crypto (startSpa k) :=
  fun claim => overflows .transparent (startSpa crowdedRuntime) (by decide) (claim _ crowdedRuntime)

end HyperionVpn.Sniffer
