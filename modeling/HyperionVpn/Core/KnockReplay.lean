import HyperionVpn.Core.KnockHistory

/-! Replay of one packet. A nonce is remembered for a window after its arrival,
while freshness is judged on the packet's own timestamp, which may lie up to a
window ahead of the clock that recorded the nonce. -/
namespace HyperionVpn.Knock
open Bytes Word Machine

/-- No packet is accepted by two calls. -/
def AtMostOnce (tr : Trace) : Prop :=
  tr.Pairwise fun a b => a.2.isOk = true → b.2.isOk = true → a.1.packet ≠ b.1.packet

/-- The packet is sealed for this verifier with a timestamp that is ahead of
the clock but inside the window, and the clock can still run past the window
that starts now. -/
def AheadOfClock (crypto : Crypto) (psk : Psk) (serverPub : PublicKey) (window : UInt64)
    (c : Call) : Prop :=
  ∃ (port : UInt16) (ts : UInt64) (nonce : Nonce),
    c.packet = sealAt crypto psk serverPub port ts nonce ∧
    c.now < ts ∧ ts.toNat ≤ c.now.toNat + window.toNat ∧ c.now.toNat + window.toNat + 1 < 2 ^ 64

variable {crypto : Crypto} {psk : Psk} {serverPub : PublicKey} {window : UInt64}

theorem sealAt_iff {v : KnockVerifier} {tr : Trace} {packet : List UInt8} {nonce : Nonce}
    {ts : UInt64} {port : UInt16} (h : Tracks crypto psk serverPub window tr v) :
    v.Authenticates crypto packet nonce ts port ↔
      packet = sealAt crypto psk serverPub port ts nonce := by
  rw [authenticates_iff, h.cipher, h.aad, sealAt]

/-- An accepted call was sealed for this verifier, its timestamp is fresh and
its nonce enters the history. -/
theorem accepted_call {v v' : KnockVerifier} {tr : Trace} {c : Call} {k : Knock}
    (h : Tracks crypto psk serverPub window tr v)
    (called : v.call crypto c = some (.ok k, v')) :
    ∃ (ts : UInt64) (nonce : Nonce), c.packet = sealAt crypto psk serverPub k.tunnelPort ts nonce ∧
      Fresh window c.now ts ∧ nonceOf c.packet = some nonce := by
  obtain ⟨judged, hjudged, authentic⟩ := authenticate_spec crypto v c.packet c.now
  cases openKnock_iff.mp called with
  | @accepted nonce port passed recorded =>
    cases Option.some.inj (passed.symm.trans hjudged)
    obtain ⟨ts, auth, fresh⟩ := (authentic nonce port).mp rfl
    exact ⟨ts, nonce, (sealAt_iff h).mp auth, h.window_eq ▸ fresh, nonceOf_authentic auth⟩

theorem sealAt_injective {port port' : UInt16} {ts ts' : UInt64} {nonce nonce' : Nonce}
    (same : sealAt crypto psk serverPub port ts nonce = sealAt crypto psk serverPub port' ts' nonce') :
    nonce = nonce' ∧ ts = ts' ∧ port = port' := by
  have h : ∀ {packet port ts nonce}, packet = sealAt crypto psk serverPub port ts nonce →
      (KnockVerifier.new crypto psk serverPub 0).Authenticates crypto packet nonce ts port :=
    fun eq => (sealAt_iff tracks_new).mpr eq
  exact Authenticates.unique (h rfl) (h same)

theorem sealAt_length (crypto : Crypto) (psk : Psk) (serverPub : PublicKey) (port : UInt16)
    (ts : UInt64) (nonce : Nonce) :
    (sealAt crypto psk serverPub port ts nonce).length = packetLen := by
  simp [sealAt, crypto.encrypt_length, packetLen, magic, nonceLen, payloadLen, tagLen]

/-- The specification of a call in terms of sealed packets. -/
theorem call_accepts_sealed {tr : Trace} {v v' : KnockVerifier} {c : Call}
    {r : Except Error Knock} {port : UInt16}
    (h : Tracks crypto psk serverPub window tr v) (ordered : ∀ e ∈ tr, e.1.now ≤ c.now)
    (called : v.call crypto c = some (r, v')) :
    r = .ok ⟨port⟩ ↔ ∃ ts nonce, c.packet = sealAt crypto psk serverPub port ts nonce ∧
      (absDiff c.now ts).toNat ≤ window.toNat ∧
      (∀ t, (nonce, t) ∈ accepted tr → window.toNat < c.now.toNat - t.toNat) ∧
      ((accepted tr).filter (live window c.now)).length < 4096 := by
  rw [call_accepts_iff h ordered called, accepts_iff h]
  simp only [sealAt_iff h, Fresh, h.window_eq, live, decide_eq_false_iff_not, Nat.not_le]
  constructor
  · rintro ⟨nonce, ts, sealed, fresh, unseen, room⟩
    exact ⟨ts, nonce, sealed, fresh, unseen, room⟩
  · rintro ⟨ts, nonce, sealed, fresh, unseen, room⟩
    exact ⟨nonce, ts, sealed, fresh, unseen, room⟩

/-- A packet accepted again was ahead of the clock the first time. -/
theorem second_acceptance {v : KnockVerifier} {before : Trace} {c c' : Call} {k k' : Knock}
    {between : Trace}
    (run : Run (KnockVerifier.call crypto) (KnockVerifier.new crypto psk serverPub window)
      (before ++ (c, .ok k) :: (between ++ [(c', .ok k')])) v)
    (ordered : Ordered (before ++ (c, .ok k) :: (between ++ [(c', .ok k')])))
    (same : c.packet = c'.packet) : AheadOfClock crypto psk serverPub window c := by
  obtain ⟨m₁, m₂, left, called, -⟩ := run.at_step
  have whole : before ++ (c, .ok k) :: (between ++ [(c', .ok k')]) =
      (before ++ (c, .ok k) :: between) ++ [(c', .ok k')] := by simp
  rw [whole] at run ordered
  obtain ⟨m₃, left', called'⟩ := run.last_step
  have tracks' := run_tracks left'
  obtain ⟨ts, nonce, hseal, fresh, hnonce⟩ := accepted_call (run_tracks left) called
  obtain ⟨ts', nonce', hseal', fresh', -⟩ := accepted_call tracks' called'
  obtain ⟨rfl, rfl, -⟩ := sealAt_injective (hseal.symm.trans (same.trans hseal'))
  -- The first acceptance is in the history, so at the second it has expired.
  have recorded : (nonce, c.now) ∈ Knock.accepted (before ++ (c, .ok k) :: between) := by
    rw [List.append_cons, accepted_append, accepted_append, accepted_ok hnonce]
    simp
  have accepts := (call_accepts_iff tracks' (ordered_snoc ordered).2 called' k'.tunnelPort).mp rfl
  obtain ⟨n, _, auth', -, unseen, -⟩ := (accepts_iff tracks').mp accepts
  obtain rfl : nonce = n := Option.some.inj (hnonce.symm.trans (same ▸ nonceOf_authentic auth'))
  have expired := unseen c.now recorded
  simp only [live, decide_eq_false_iff_not] at expired
  simp only [Fresh, absDiff_toNat] at fresh fresh'
  have bound := c'.now.toNat_lt
  refine ⟨k.tunnelPort, ts, nonce, hseal, UInt64.lt_iff_toNat_lt.mpr ?_, ?_, ?_⟩ <;> omega

/-- At a time when every acceptance has expired, an authentic and fresh packet
is accepted whatever the cache still holds. -/
theorem accepted_when_expired {v : KnockVerifier} {tr : Trace} {c : Call} {port : UInt16}
    {ts : UInt64} {nonce : Nonce} (h : Tracks crypto psk serverPub window tr v)
    (hseal : c.packet = sealAt crypto psk serverPub port ts nonce) (fresh : Fresh window c.now ts)
    (expired : ∀ e ∈ tr, e.1.now.toNat + window.toNat < c.now.toNat) :
    ∃ v', v.call crypto c = some (.ok ⟨port⟩, v') := by
  have earlier : ∀ e ∈ tr, e.1.now ≤ c.now := fun e he => by
    have := expired e he
    exact UInt64.le_iff_toNat_le.mpr (by omega)
  have dead : ∀ e ∈ accepted tr, live window c.now e = false := by
    intro e he
    obtain ⟨x, hx, hnow⟩ := accepted_time he
    have := expired x hx
    simp only [live, ← hnow, decide_eq_false_iff_not]
    omega
  obtain ⟨r, v', called⟩ := openKnock_total crypto v c.packet c.now
  obtain rfl : r = .ok ⟨port⟩ := by
    refine (call_accepts_iff h earlier called port).mpr ((accepts_iff h).mpr ?_)
    refine ⟨nonce, ts, (sealAt_iff h).mpr hseal, h.window_eq ▸ fresh, fun t ht => dead _ ht, ?_⟩
    rw [List.filter_eq_nil_iff.mpr fun e he => by simp [dead e he]]
    decide
  exact ⟨v', called⟩

/-- Runs without such a packet accept every packet at most once, and after any
accepted one of that kind the same packet is accepted again as soon as its
nonce has left the window. -/
theorem at_most_once_unless_ahead (crypto : Crypto) (psk : Psk) (serverPub : PublicKey)
    (window : UInt64) :
    (∀ tr v, Run (KnockVerifier.call crypto) (KnockVerifier.new crypto psk serverPub window) tr v →
      Ordered tr → (∀ e ∈ tr, ¬ AheadOfClock crypto psk serverPub window e.1) → AtMostOnce tr) ∧
    ∀ tr c k v, Run (KnockVerifier.call crypto) (KnockVerifier.new crypto psk serverPub window)
      (tr ++ [(c, .ok k)]) v → Ordered (tr ++ [(c, .ok k)]) →
      AheadOfClock crypto psk serverPub window c →
      ∃ c' w, c.now ≤ c'.now ∧ c'.packet = c.packet ∧ v.call crypto c' = some (.ok k, w) := by
  constructor
  · intro tr v run ordered safe
    induction run with
    | nil => exact .nil
    | @snoc tr m c r m' left called ih =>
      refine List.pairwise_append.mpr ⟨ih (ordered_snoc ordered).1
        (fun e he => safe e (by simp [he])), List.pairwise_singleton _ _, ?_⟩
      intro e he e' he' okFirst okSecond same
      obtain rfl := List.mem_singleton.mp he'
      obtain ⟨before, between, rfl⟩ := List.append_of_mem he
      obtain ⟨c₁, r₁⟩ := e
      cases r₁ with
      | error e => contradiction
      | ok k =>
        cases r with
        | error e => contradiction
        | ok k' =>
          have run := left.snoc called
          rw [List.append_assoc, List.cons_append] at run ordered
          exact safe (c₁, .ok k) (by simp) (second_acceptance run ordered same)
  · rintro tr c k v run ordered ⟨port, ts, nonce, hseal, ahead, inside, room⟩
    obtain ⟨m, left, called⟩ := run.last_step
    obtain ⟨ts', nonce', hseal', fresh, -⟩ := accepted_call (run_tracks left) called
    obtain ⟨rfl, rfl, rfl⟩ := sealAt_injective (hseal.symm.trans hseal')
    have ahead := UInt64.lt_iff_toNat_lt.mp ahead
    obtain ⟨later, hlater⟩ : ∃ later : UInt64, later.toNat = c.now.toNat + window.toNat + 1 :=
      ⟨.ofNat _, UInt64.toNat_ofNat_of_lt room⟩
    have expired : ∀ e ∈ tr ++ [(c, Except.ok k)], e.1.now.toNat + window.toNat < later.toNat := by
      intro e he
      have bound : e.1.now ≤ c.now := by
        rcases List.mem_append.mp he with old | last
        · exact (ordered_snoc ordered).2 e old
        · rw [List.mem_singleton.mp last]
          exact UInt64.le_refl _
      rw [UInt64.le_iff_toNat_le] at bound
      omega
    have fresh' : Fresh window later ts := by
      simp only [Fresh, absDiff_toNat]
      omega
    obtain ⟨w, again⟩ := accepted_when_expired (c := ⟨c.packet, later⟩) (run_tracks run) hseal
      fresh' expired
    exact ⟨⟨c.packet, later⟩, w, UInt64.le_iff_toNat_le.mpr (by simp only; omega), rfl, again⟩

/-! A server with a window of thirty seconds, knocked by a punctual client and
by one whose clock is thirty seconds ahead. -/

def samplePsk : Psk := ⟨.replicate 32 5⟩
def sampleServer : PublicKey := ⟨.replicate 32 9⟩

def sampleKnock (ts : UInt64) : List UInt8 :=
  sealAt .transparent samplePsk sampleServer 8443 ts (.replicate 12 1)

def sampleVerifier : KnockVerifier := .new .transparent samplePsk sampleServer 30

def outcomes (calls : List Call) : Option (List Bool) :=
  (exec (KnockVerifier.call .transparent) sampleVerifier calls).map fun r => r.1.map (·.2.isOk)

theorem outcomes_run {calls : List Call} {oks : List Bool} (h : outcomes calls = some oks) :
    ∃ tr v, Run (KnockVerifier.call .transparent) sampleVerifier tr v ∧
      tr.map Prod.fst = calls ∧ tr.map (·.2.isOk) = oks := by
  obtain ⟨⟨tr, v⟩, executed, same⟩ := Option.map_eq_some_iff.mp h
  obtain ⟨run, inputs⟩ := exec_run executed
  exact ⟨tr, v, run, inputs, same⟩

theorem skewed_knock_accepted_twice :
    ¬ ∀ (crypto : Crypto) (psk : Psk) (serverPub : PublicKey) (window : UInt64) (tr : Trace)
      (v : KnockVerifier), Run (KnockVerifier.call crypto)
        (KnockVerifier.new crypto psk serverPub window) tr v → Ordered tr → AtMostOnce tr := by
  intro claim
  obtain ⟨tr, v, run, inputs, oks⟩ := outcomes_run
    (show outcomes [⟨sampleKnock 1030, 1000⟩, ⟨sampleKnock 1030, 1031⟩] = some [true, true] by
      decide +kernel)
  match tr with
  | [] | [_] | _ :: _ :: _ :: _ => simp at inputs
  | [(c₁, r₁), (c₂, r₂)] =>
    simp only [List.map_cons, List.map_nil, List.cons.injEq, and_true] at inputs oks
    obtain ⟨rfl, rfl⟩ := inputs
    have once := claim _ _ _ _ _ _ run (by simp [Ordered])
    exact (List.pairwise_pair.mp once) oks.1 oks.2 rfl

theorem punctual_not_ahead (now : UInt64) (h : 1000 ≤ now) :
    ¬ AheadOfClock .transparent samplePsk sampleServer 30 ⟨sampleKnock 1000, now⟩ := by
  rintro ⟨port, ts, nonce, hseal, ahead, -⟩
  obtain ⟨-, rfl, -⟩ := sealAt_injective hseal
  exact absurd (UInt64.lt_of_lt_of_le ahead h) (UInt64.lt_irrefl _)

theorem at_most_once_unless_ahead_samples :
    (∃ tr v, Run (KnockVerifier.call .transparent) sampleVerifier tr v ∧
      tr.map Prod.fst = [⟨sampleKnock 1000, 1000⟩, ⟨sampleKnock 1000, 1031⟩] ∧ AtMostOnce tr) ∧
    ∃ k v c' w, Run (KnockVerifier.call .transparent) sampleVerifier
      [(⟨sampleKnock 1030, 1000⟩, .ok k)] v ∧ c'.packet = sampleKnock 1030 ∧
      v.call .transparent c' = some (.ok k, w) := by
  have rule := at_most_once_unless_ahead .transparent samplePsk sampleServer 30
  constructor
  · obtain ⟨tr, v, run, inputs⟩ := run_exists .transparent sampleVerifier
      [⟨sampleKnock 1000, 1000⟩, ⟨sampleKnock 1000, 1031⟩]
    refine ⟨tr, v, run, inputs, rule.1 tr v run ?_ ?_⟩
    · have ordered : ([⟨sampleKnock 1000, 1000⟩, ⟨sampleKnock 1000, 1031⟩] : List Call).Pairwise
          (fun a b => a.now ≤ b.now) := by simp
      rw [← inputs, List.pairwise_map] at ordered
      exact ordered
    · intro e he
      have input : e.1 ∈ tr.map Prod.fst := List.mem_map_of_mem he
      rw [inputs] at input
      rcases List.mem_pair.mp input with same | same <;> rw [same] <;>
        exact punctual_not_ahead _ (by decide)
  · obtain ⟨tr, v, run, inputs, oks⟩ := outcomes_run
      (show outcomes [⟨sampleKnock 1030, 1000⟩] = some [true] by decide +kernel)
    match tr with
    | [] | _ :: _ :: _ => simp at inputs
    | [(c, .error e)] => simp [Except.isOk, Except.toBool] at oks
    | [(c, .ok k)] =>
      simp only [List.map_cons, List.map_nil, List.cons.injEq, and_true] at inputs
      subst inputs
      obtain ⟨c', w, -, same, again⟩ := rule.2 [] _ k v run (by simp [Ordered])
        ⟨8443, 1030, .replicate 12 1, rfl, by decide, by decide, by decide⟩
      exact ⟨k, v, c', w, run, same, again⟩

end HyperionVpn.Knock
