import HyperionVpn.Server.Sniffer

/-! What one pass of the sniffer's loop does: which frames reach the verifier,
and how an accepted knock is decided. -/
namespace HyperionVpn.Sniffer
open Net Word Packet Knock

variable {crypto : Crypto} {config : SnifferConfig}

/-- The frame is a UDP datagram for the knock port with a knock's length. -/
def Delivers (config : SnifferConfig) (tick : Tick) (src : Ipv4Addr) (payload : List UInt8) : Prop :=
  ∃ frame, tick.received = .frame frame ∧
    parseEthernetIpv4Udp frame = some (some (src, config.knockPort, payload)) ∧
    payload.length = packetLen

/-- The source is within its cooldown. -/
def Cooling (config : SnifferConfig) (recentAllows : KeyMap Ipv4Addr UInt64) (src : Ipv4Addr)
    (now : UInt64) : Prop :=
  ∃ t, recentAllows.lookup src = some t ∧ recent config now t = true

theorem recent_iff {now t : UInt64} :
    recent config now t = true ↔ now.toNat - t.toNat < config.allowCooldownSecs.toNat := by
  simp only [recent, decide_eq_true_eq, UInt64.lt_iff_toNat_lt, saturatingSub_toNat]

theorem recent_earlier {now later t : UInt64} (ordered : now ≤ later)
    (h : recent config later t = true) : recent config now t = true := by
  simp only [recent_iff, UInt64.le_iff_toNat_le] at *
  omega

theorem any_recent {recentAllows : KeyMap Ipv4Addr UInt64} {src : Ipv4Addr} {now : UInt64} :
    (recentAllows.lookup src).any (recent config now) = true ↔
      Cooling config recentAllows src now := by
  cases found : recentAllows.lookup src <;> simp [Cooling, found]

/-- Making room forgets no source that is, or will be, within its cooldown. -/
theorem cooling_makeRoom {recentAllows : KeyMap Ipv4Addr UInt64} {src : Ipv4Addr}
    {now later : UInt64} (ordered : now ≤ later) :
    Cooling config (makeRoom config recentAllows now) src later ↔
      Cooling config recentAllows src later := by
  unfold makeRoom
  split
  swap
  · rfl
  simp only [Cooling, KeyMap.lookup_retain, Option.filter_eq_some_iff]
  constructor
  · rintro ⟨t, ⟨found, -⟩, hot⟩
    exact ⟨t, found, hot⟩
  · rintro ⟨t, found, hot⟩
    exact ⟨t, ⟨found, recent_earlier ordered hot⟩, hot⟩

/-- The ways in which an accepted knock can be decided. -/
inductive Grants (config : SnifferConfig) (recentAllows : KeyMap Ipv4Addr UInt64) (src : Ipv4Addr)
    (k : Knock) (tick : Tick) : Decision → KeyMap Ipv4Addr UInt64 → Prop where
  | otherPort : k.tunnelPort ≠ config.tunnelPort →
      Grants config recentAllows src k tick (.otherPort k) recentAllows
  | cooling : k.tunnelPort = config.tunnelPort → Cooling config recentAllows src tick.now →
      Grants config recentAllows src k tick (.cooling k) recentAllows
  | allowed : k.tunnelPort = config.tunnelPort → ¬ Cooling config recentAllows src tick.now →
      config.firewall.allow src tick.nft = .ok () →
      Grants config recentAllows src k tick (.allowed k)
        ((makeRoom config recentAllows tick.now).insert src tick.now)
  | allowFailed {e : IoError} : k.tunnelPort = config.tunnelPort →
      ¬ Cooling config recentAllows src tick.now → config.firewall.allow src tick.nft = .error e →
      Grants config recentAllows src k tick (.allowFailed k e)
        (makeRoom config recentAllows tick.now)

theorem grant_spec (recentAllows : KeyMap Ipv4Addr UInt64) (src : Ipv4Addr) (k : Knock)
    (tick : Tick) : Grants config recentAllows src k tick
      (grant config recentAllows src k tick).1 (grant config recentAllows src k tick).2 := by
  unfold grant
  split
  · exact .otherPort ‹_›
  rename_i port
  split <;> rename_i hot
  · exact .cooling (not_not.mp port) (any_recent.mp hot)
  · dsimp only
    split <;> rename_i answer
    · exact .allowed (not_not.mp port) (fun h => hot (any_recent.mpr h)) answer
    · exact .allowFailed (not_not.mp port) (fun h => hot (any_recent.mpr h)) answer

/-- The three ways a pass can end. -/
inductive Passes (crypto : Crypto) (config : SnifferConfig) (s : Sniffer) (tick : Tick) :
    Outcome → Sniffer → Prop where
  | skipped : (∀ src payload, ¬ Delivers config tick src payload) →
      Passes crypto config s tick .skipped s
  | rejected {src payload e v} : Delivers config tick src payload →
      s.verifier.call crypto ⟨payload, tick.now⟩ = some (.error e, v) →
      Passes crypto config s tick (.knock src payload (.rejected e)) ⟨v, s.recentAllows⟩
  | granted {src payload k v decision recentAllows} : Delivers config tick src payload →
      s.verifier.call crypto ⟨payload, tick.now⟩ = some (.ok k, v) →
      Grants config s.recentAllows src k tick decision recentAllows →
      Passes crypto config s tick (.knock src payload decision) ⟨v, recentAllows⟩

theorem iterate_delivered {s : Sniffer} {tick : Tick} {src : Ipv4Addr} {payload : List UInt8}
    (h : Delivers config tick src payload) :
    iterate crypto config s tick =
      (s.verifier.openKnock crypto payload tick.now).map fun (opened, verifier) =>
        match opened with
        | .error e => (.knock src payload (.rejected e), { s with verifier })
        | .ok k => (.knock src payload (grant config s.recentAllows src k tick).1,
            ⟨verifier, (grant config s.recentAllows src k tick).2⟩) := by
  obtain ⟨frame, received, parsed, size⟩ := h
  have nonempty : frame.length ≠ 0 := by
    intro empty
    rw [List.length_eq_zero_iff.mp empty] at parsed
    simp [parseEthernetIpv4Udp, ethernetHeaderLen] at parsed
  simp only [iterate, received, nonempty, parsed]
  cases opened : s.verifier.openKnock crypto payload tick.now with
  | none => simp [opened, size]
  | some pair =>
    obtain ⟨r, v⟩ := pair
    cases r <;> simp [opened, size]

theorem iterate_undelivered {s : Sniffer} {tick : Tick}
    (h : ∀ src payload, ¬ Delivers config tick src payload) :
    iterate crypto config s tick = some (.skipped, s) := by
  cases received : tick.received with
  | failed e => simp [iterate, received]
  | frame frame =>
    by_cases empty : frame.length = 0
    · simp [iterate, received, empty]
    obtain ⟨r, parsed⟩ := parseEthernetIpv4Udp_total frame
    cases r with
    | none => simp [iterate, received, empty, parsed]
    | some found =>
      obtain ⟨src, dstPort, payload⟩ := found
      have filtered : dstPort ≠ config.knockPort ∨ payload.length ≠ packetLen := by
        by_contra both
        simp only [not_or, not_not] at both
        exact h src payload ⟨frame, received, both.1 ▸ parsed, both.2⟩
      simp [iterate, received, empty, parsed, filtered]

theorem iterate_passes {s s' : Sniffer} {tick : Tick} {out : Outcome}
    (h : iterate crypto config s tick = some (out, s')) : Passes crypto config s tick out s' := by
  by_cases delivered : ∃ src payload, Delivers config tick src payload
  · obtain ⟨src, payload, delivered⟩ := delivered
    rw [iterate_delivered delivered] at h
    obtain ⟨⟨r, v⟩, opened, same⟩ := Option.map_eq_some_iff.mp h
    cases r with
    | error e =>
      cases same
      exact .rejected delivered opened
    | ok k =>
      cases same
      exact .granted delivered opened (grant_spec _ _ _ _)
  · simp only [not_exists] at delivered
    rw [iterate_undelivered delivered] at h
    cases h
    exact .skipped delivered

/-- A payload is handed to the verifier exactly if the frame delivers it. -/
theorem handed_iff {s : Sniffer} {tick : Tick} {src : Ipv4Addr} {payload : List UInt8} :
    (∃ decision s', iterate crypto config s tick = some (.knock src payload decision, s')) ↔
      Delivers config tick src payload := by
  constructor
  · rintro ⟨decision, s', h⟩
    cases iterate_passes h with
    | rejected delivered _ => exact delivered
    | granted delivered _ _ => exact delivered
  · intro delivered
    obtain ⟨r, v, opened⟩ := openKnock_total crypto s.verifier payload tick.now
    rw [iterate_delivered delivered, opened]
    cases r <;> exact ⟨_, _, rfl⟩

/-- No received bytes make the loop panic. -/
theorem iterate_total (crypto : Crypto) (config : SnifferConfig) (s : Sniffer) (tick : Tick) :
    ∃ out s', iterate crypto config s tick = some (out, s') := by
  by_cases delivered : ∃ src payload, Delivers config tick src payload
  · obtain ⟨src, payload, delivered⟩ := delivered
    obtain ⟨r, v, opened⟩ := openKnock_total crypto s.verifier payload tick.now
    rw [iterate_delivered delivered, opened]
    exact ⟨_, _, rfl⟩
  · simp only [not_exists] at delivered
    exact ⟨_, _, iterate_undelivered delivered⟩

end HyperionVpn.Sniffer
