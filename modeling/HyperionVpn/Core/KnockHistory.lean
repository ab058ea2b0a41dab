import HyperionVpn.Lib.Machine
import HyperionVpn.Core.KnockProofs

/-! Whole runs of one verifier against a nondecreasing clock. The lazily pruned
replay cache is compared with the list of all acceptances so far, of which only
those inside the window matter. -/
namespace HyperionVpn.Knock
open Bytes Word Machine

/-- One call of `open`: the packet received and the server's clock. -/
structure Call where
  packet : List UInt8
  now : UInt64

def KnockVerifier.call (crypto : Crypto) (v : KnockVerifier) (c : Call) :
    Option (Except Error Knock × KnockVerifier) :=
  v.openKnock crypto c.packet c.now

abbrev Trace := List (Call × Except Error Knock)

def Ordered (tr : Trace) : Prop := tr.Pairwise (fun a b => a.1.now ≤ b.1.now)

def nonceOf (packet : List UInt8) : Option Nonce := (slice packet 4 16).bind (tryInto nonceLen)

/-- Nonce and time of every accepted call, oldest first. -/
def accepted (tr : Trace) : List (Nonce × UInt64) :=
  tr.filterMap fun e =>
    match e.2 with
    | .ok _ => (nonceOf e.1.packet).map fun nonce => (nonce, e.1.now)
    | .error _ => none

/-- `now - t <= W`. -/
def live (window now : UInt64) (e : Nonce × UInt64) : Bool :=
  decide (now.toNat - e.2.toNat ≤ window.toNat)

theorem live_earlier {window now later : UInt64} {e : Nonce × UInt64} (ordered : now ≤ later)
    (h : live window later e = true) : live window now e = true := by
  simp only [live, decide_eq_true_eq, UInt64.le_iff_toNat_le] at *
  omega

/-- The cache as `check_and_record` first leaves it. -/
def ReplayGuard.pruned (guard : ReplayGuard) (now : UInt64) : KeyMap Nonce UInt64 :=
  guard.seen.retain (fun t => decide (saturatingSub now t ≤ guard.window))

theorem pruned_pairs (guard : ReplayGuard) (now : UInt64) :
    (guard.pruned now).pairs = guard.seen.pairs.filter (live guard.window now) := by
  simp only [ReplayGuard.pruned, KeyMap.pairs_retain]
  apply List.filter_congr
  intro e _
  simp only [live, UInt64.le_iff_toNat_le, saturatingSub_toNat]

theorem checkAndRecord_eq (guard : ReplayGuard) (nonce : Nonce) (now : UInt64) :
    guard.checkAndRecord nonce now =
      if nonce ∉ guard.pruned now ∧ (guard.pruned now).size < replayCap then
        (true, { guard with seen := (guard.pruned now).insert nonce now })
      else (false, { guard with seen := guard.pruned now }) := by
  have body : guard.checkAndRecord nonce now =
      if nonce ∈ guard.pruned now then (false, { guard with seen := guard.pruned now })
      else if replayCap ≤ (guard.pruned now).size then
        (false, { guard with seen := guard.pruned now })
      else (true, { guard with seen := (guard.pruned now).insert nonce now }) := rfl
  rw [body]
  by_cases member : nonce ∈ guard.pruned now
  · simp only [member, not_true_eq_false, false_and, if_true, if_false]
  · by_cases full : replayCap ≤ (guard.pruned now).size
    · rw [if_neg member, if_pos full, if_neg (by omega)]
    · rw [if_neg member, if_neg full, if_pos ⟨member, by omega⟩]

theorem checkAndRecord_passes {guard : ReplayGuard} {nonce : Nonce} {now : UInt64} :
    (guard.checkAndRecord nonce now).1 = true ↔
      nonce ∉ guard.pruned now ∧ (guard.pruned now).size < replayCap := by
  rw [checkAndRecord_eq]
  split <;> rename_i h <;> simp [h]

theorem checkAndRecord_window (guard : ReplayGuard) (nonce : Nonce) (now : UInt64) :
    (guard.checkAndRecord nonce now).2.window = guard.window := by
  rw [checkAndRecord_eq]
  split <;> rfl

theorem checkAndRecord_failed {guard : ReplayGuard} {nonce : Nonce} {now : UInt64}
    (failed : (guard.checkAndRecord nonce now).1 = false) :
    (guard.checkAndRecord nonce now).2.seen = guard.pruned now := by
  rw [checkAndRecord_eq] at failed ⊢
  split at failed
  · contradiction
  · rw [if_neg ‹_›]

theorem checkAndRecord_recorded {guard : ReplayGuard} {nonce : Nonce} {now : UInt64}
    (passed : (guard.checkAndRecord nonce now).1 = true) :
    (guard.checkAndRecord nonce now).2.seen = (guard.pruned now).insert nonce now := by
  rw [checkAndRecord_eq, if_pos (checkAndRecord_passes.mp passed)]

/-! The invariant of a run. -/

theorem nonceOf_authentic {crypto : Crypto} {v : KnockVerifier} {packet : List UInt8} {nonce : Nonce}
    {ts : UInt64} {port : UInt16} (h : v.Authenticates crypto packet nonce ts port) :
    nonceOf packet = some nonce := by
  have len : packet.length = 44 := h.1
  rw [nonceOf, slice_of_le (by omega) (by omega), Option.bind_some]
  exact tryInto_eq_some.mpr h.2.2.1.symm

theorem accepted_append (a b : Trace) : accepted (a ++ b) = accepted a ++ accepted b :=
  List.filterMap_append

theorem accepted_error (c : Call) (e : Error) : accepted [(c, .error e)] = [] := rfl

theorem accepted_ok {c : Call} {nonce : Nonce} (h : nonceOf c.packet = some nonce) (k : Knock) :
    accepted [(c, .ok k)] = [(nonce, c.now)] := by
  simp [accepted, h]

theorem accepted_time {tr : Trace} {e : Nonce × UInt64} (member : e ∈ accepted tr) :
    ∃ x ∈ tr, x.1.now = e.2 := by
  obtain ⟨x, hx, same⟩ := List.mem_filterMap.mp member
  refine ⟨x, hx, ?_⟩
  split at same
  · obtain ⟨nonce, -, rfl⟩ := Option.map_eq_some_iff.mp same
    rfl
  · contradiction

/-- What the verifier's state is after a run, seen from any time not before the
run's last call: the entries still in the window are the acceptances still in
the window. Older entries, pruned or not, are invisible. -/
structure Tracks (crypto : Crypto) (psk : Psk) (serverPub : PublicKey) (window : UInt64)
    (tr : Trace) (v : KnockVerifier) : Prop where
  cipher : v.cipher = knockCipher crypto psk
  aad : v.aad = knockAad serverPub
  window_eq : v.replay.window = window
  bounded : v.replay.seen.size ≤ replayCap
  current : ∀ now, (∀ e ∈ tr, e.1.now ≤ now) →
    (v.replay.seen.pairs.filter (live window now)).Perm ((accepted tr).filter (live window now))

variable {crypto : Crypto} {psk : Psk} {serverPub : PublicKey} {window : UInt64}

theorem tracks_new : Tracks crypto psk serverPub window []
    (KnockVerifier.new crypto psk serverPub window) where
  cipher := rfl
  aad := rfl
  window_eq := rfl
  bounded := Nat.zero_le _
  current _ _ := .refl _

theorem Tracks.pruned {tr : Trace} {v : KnockVerifier} {now : UInt64}
    (h : Tracks crypto psk serverPub window tr v) (ordered : ∀ e ∈ tr, e.1.now ≤ now) :
    (v.replay.pruned now).pairs.Perm ((accepted tr).filter (live window now)) := by
  rw [pruned_pairs, h.window_eq]
  exact h.current now ordered

theorem filter_pruned (guard : ReplayGuard) {now later : UInt64} (ordered : now ≤ later) :
    (guard.pruned now).pairs.filter (live guard.window later) =
      guard.seen.pairs.filter (live guard.window later) := by
  rw [pruned_pairs, List.filter_filter]
  apply List.filter_congr
  intro e _
  cases h : live guard.window later e with
  | false => rfl
  | true => simp [live_earlier ordered h]

theorem tracks_step {tr : Trace} {v v' : KnockVerifier} {c : Call} {r : Except Error Knock}
    (h : Tracks crypto psk serverPub window tr v) (called : v.call crypto c = some (r, v')) :
    Tracks crypto psk serverPub window (tr ++ [(c, r)]) v' := by
  have earlier {now : UInt64} (later : ∀ e ∈ tr ++ [(c, r)], e.1.now ≤ now) :
      (∀ e ∈ tr, e.1.now ≤ now) ∧ c.now ≤ now :=
    ⟨fun e he => later e (by simp [he]), later (c, r) (by simp)⟩
  have room : (v.replay.pruned c.now).size ≤ replayCap :=
    (KeyMap.size_retain_le _ _).trans h.bounded
  have windowed := h.window_eq
  cases openKnock_iff.mp called with
  | @rejected e judged =>
    refine ⟨h.cipher, h.aad, h.window_eq, h.bounded, fun now later => ?_⟩
    rw [accepted_append, accepted_error, List.append_nil]
    exact h.current now (earlier later).1
  | @replayed nonce port judged failed =>
    have seen := checkAndRecord_failed failed
    refine ⟨h.cipher, h.aad, (checkAndRecord_window _ _ _).trans h.window_eq, ?_, ?_⟩
    · simpa only [seen] using room
    · intro now later
      rw [accepted_append, accepted_error, List.append_nil]
      simp only [seen]
      rw [← windowed, filter_pruned _ (earlier later).2, windowed]
      exact h.current now (earlier later).1
  | @accepted nonce port judged passed =>
    have seen := checkAndRecord_recorded passed
    obtain ⟨fresh, below⟩ := checkAndRecord_passes.mp passed
    obtain ⟨r', judged', authentic⟩ := authenticate_spec crypto v c.packet c.now
    cases Option.some.inj (judged.symm.trans judged')
    obtain ⟨ts, auth, -⟩ := (authentic nonce port).mp rfl
    refine ⟨h.cipher, h.aad, (checkAndRecord_window _ _ _).trans h.window_eq, ?_, ?_⟩
    · simp only [seen]
      rw [KeyMap.size_insert_of_notMem fresh]
      omega
    · intro now later
      rw [accepted_append, accepted_ok (nonceOf_authentic auth)]
      simp only [seen]
      rw [KeyMap.pairs_insert_of_notMem fresh, List.filter_append]
      refine List.Perm.trans ?_ List.perm_append_comm
      rw [List.filter_cons, List.filter_cons, List.filter_nil]
      have rest : ((v.replay.pruned c.now).pairs.filter (live window now)).Perm
          ((Knock.accepted tr).filter (live window now)) := by
        rw [← windowed, filter_pruned _ (earlier later).2, windowed]
        exact h.current now (earlier later).1
      split
      · exact rest.cons _
      · exact rest

theorem ordered_snoc {tr : Trace} {e : Call × Except Error Knock} (h : Ordered (tr ++ [e])) :
    Ordered tr ∧ ∀ x ∈ tr, x.1.now ≤ e.1.now := by
  obtain ⟨init, -, last⟩ := List.pairwise_append.mp h
  exact ⟨init, fun x hx => last x hx e (by simp)⟩

theorem run_tracks {tr : Trace} {v : KnockVerifier}
    (run : Run (KnockVerifier.call crypto) (KnockVerifier.new crypto psk serverPub window) tr v) :
    Tracks crypto psk serverPub window tr v := by
  induction run with
  | nil => exact tracks_new
  | snoc _ called ih => exact tracks_step ih called

/-! The windowed history as a specification of the verifier. -/

/-- A call with port `p` is accepted after the acceptances `A`. -/
def Accepts (crypto : Crypto) (psk : Psk) (serverPub : PublicKey) (window : UInt64)
    (A : List (Nonce × UInt64)) (c : Call) (p : UInt16) : Prop :=
  ∃ (nonce : Nonce) (ts : UInt64),
    c.packet.length = 44 ∧ c.packet.take 4 = magic ∧ (c.packet.drop 4).take 12 = nonce.toList ∧
    crypto.decrypt (knockCipher crypto psk) nonce (knockAad serverPub) (c.packet.drop 16) =
      some (payload protocolVersion ts p) ∧
    (absDiff c.now ts).toNat ≤ window.toNat ∧
    (∀ t, (nonce, t) ∈ A → ¬ c.now.toNat - t.toNat ≤ window.toNat) ∧
    (A.filter (live window c.now)).length < 4096

theorem accepts_iff {v : KnockVerifier} {tr : Trace} {c : Call} {p : UInt16}
    (h : Tracks crypto psk serverPub window tr v) :
    Accepts crypto psk serverPub window (accepted tr) c p ↔
      ∃ nonce ts, v.Authenticates crypto c.packet nonce ts p ∧ Fresh v.replay.window c.now ts ∧
        (∀ t, (nonce, t) ∈ accepted tr → live window c.now (nonce, t) = false) ∧
        ((accepted tr).filter (live window c.now)).length < replayCap := by
  simp only [Accepts, KnockVerifier.Authenticates, Fresh, h.cipher, h.aad, h.window_eq, live,
    decide_eq_false_iff_not, and_assoc]
  rfl

theorem pruned_passes {v : KnockVerifier} {tr : Trace} {now : UInt64} {nonce : Nonce}
    (h : Tracks crypto psk serverPub window tr v) (ordered : ∀ e ∈ tr, e.1.now ≤ now) :
    (v.replay.checkAndRecord nonce now).1 = true ↔
      (∀ t, (nonce, t) ∈ accepted tr → live window now (nonce, t) = false) ∧
        ((accepted tr).filter (live window now)).length < replayCap := by
  have perm := h.pruned ordered
  rw [checkAndRecord_passes, ← KeyMap.pairs_length, perm.length_eq, KeyMap.mem_iff_pairs]
  apply and_congr_left'
  simp only [perm.mem_iff, List.mem_filter, not_exists, not_and, Bool.not_eq_true]

theorem call_accepts_iff {v v' : KnockVerifier} {tr : Trace} {c : Call} {r : Except Error Knock}
    (h : Tracks crypto psk serverPub window tr v) (ordered : ∀ e ∈ tr, e.1.now ≤ c.now)
    (called : v.call crypto c = some (r, v')) (p : UInt16) :
    r = .ok ⟨p⟩ ↔ Accepts crypto psk serverPub window (accepted tr) c p := by
  rw [accepts_iff h]
  obtain ⟨judged, hjudged, authentic⟩ := authenticate_spec crypto v c.packet c.now
  cases openKnock_iff.mp called with
  | rejected rejected =>
    cases Option.some.inj (rejected.symm.trans hjudged)
    simp only [reduceCtorEq, false_iff]
    rintro ⟨nonce, ts, auth, fresh, -⟩
    have := (authentic nonce p).mpr ⟨ts, auth, fresh⟩
    contradiction
  | @replayed nonce port passed failed =>
    cases Option.some.inj (passed.symm.trans hjudged)
    simp only [reduceCtorEq, false_iff]
    rintro ⟨nonce', ts, auth, fresh, unseen, room⟩
    cases (authentic nonce' p).mpr ⟨ts, auth, fresh⟩
    have := (pruned_passes h ordered).mpr ⟨unseen, room⟩
    rw [failed] at this
    contradiction
  | @accepted nonce port passed recorded =>
    cases Option.some.inj (passed.symm.trans hjudged)
    constructor
    · intro same
      cases same
      obtain ⟨ts, auth, fresh⟩ := (authentic nonce p).mp rfl
      exact ⟨nonce, ts, auth, fresh, (pruned_passes h ordered).mp recorded⟩
    · rintro ⟨nonce', ts, auth, fresh, -⟩
      cases (authentic nonce' p).mpr ⟨ts, auth, fresh⟩
      rfl

/-- Verifiers with the same key whose caches agree on what is alive from a
given time on. -/
structure Agree (since : UInt64) (v w : KnockVerifier) : Prop where
  cipher : v.cipher = w.cipher
  aad : v.aad = w.aad
  window : v.replay.window = w.replay.window
  pruned : ∀ now, since ≤ now → v.replay.pruned now = w.replay.pruned now

theorem pruned_pruned (guard : ReplayGuard) {now later : UInt64} (ordered : now ≤ later) :
    ReplayGuard.pruned { guard with seen := guard.pruned now } later = guard.pruned later := by
  dsimp only [ReplayGuard.pruned]
  apply KeyMap.retain_retain
  intro t alive
  simp only [decide_eq_true_eq, UInt64.le_iff_toNat_le, saturatingSub_toNat] at *
  omega

theorem agree_pruned (v : KnockVerifier) (now : UInt64) :
    Agree now v { v with replay := { v.replay with seen := v.replay.pruned now } } where
  cipher := rfl
  aad := rfl
  window := rfl
  pruned _ later := (pruned_pruned v.replay later).symm

/-- A rejected call leaves a verifier that no later call tells apart. -/
theorem rejected_agree {v v' : KnockVerifier} {c : Call} {e : Error}
    (called : v.call crypto c = some (.error e, v')) : Agree c.now v v' := by
  cases openKnock_iff.mp called with
  | rejected _ => exact ⟨rfl, rfl, rfl, fun _ _ => rfl⟩
  | @replayed nonce port _ failed =>
    have h := agree_pruned v c.now
    rw [checkAndRecord_eq, if_neg (fun passes => ?_)]
    · exact h
    · rw [checkAndRecord_passes.mpr passes] at failed
      contradiction

theorem agree_step {v w v' : KnockVerifier} {since : UInt64} {c : Call} {r : Except Error Knock}
    (h : Agree since v w) (later : since ≤ c.now) (called : v.call crypto c = some (r, v')) :
    ∃ w', w.call crypto c = some (r, w') ∧ Agree since v' w' := by
  have same : v.authenticate crypto c.packet c.now = w.authenticate crypto c.packet c.now :=
    authenticate_congr h.cipher h.aad h.window _ _
  have guard : ∀ nonce, (v.replay.checkAndRecord nonce c.now) =
      (w.replay.checkAndRecord nonce c.now) := by
    intro nonce
    rw [checkAndRecord_eq, checkAndRecord_eq, h.pruned c.now later, h.window]
  cases openKnock_iff.mp called with
  | rejected judged => exact ⟨w, openKnock_iff.mpr (.rejected (same ▸ judged)), h⟩
  | @replayed nonce port judged failed =>
    refine ⟨_, openKnock_iff.mpr (.replayed (same ▸ judged) (guard nonce ▸ failed)), ?_⟩
    rw [guard nonce]
    exact ⟨h.cipher, h.aad, rfl, fun _ _ => rfl⟩
  | @accepted nonce port judged passed =>
    refine ⟨_, openKnock_iff.mpr (.accepted (same ▸ judged) (guard nonce ▸ passed)), ?_⟩
    rw [guard nonce]
    exact ⟨h.cipher, h.aad, rfl, fun _ _ => rfl⟩

/-- Deleting a rejected call from a run leaves every other outcome as it was. -/
theorem run_without_rejected {v v' : KnockVerifier} {before after : Trace} {c : Call} {e : Error}
    (run : Run (KnockVerifier.call crypto) v (before ++ (c, .error e) :: after) v')
    (ordered : Ordered (before ++ (c, .error e) :: after)) :
    ∃ w, Run (KnockVerifier.call crypto) v (before ++ after) w := by
  obtain ⟨m, m', left, called, right⟩ := run.at_step
  have later : ∀ x ∈ after, c.now ≤ x.1.now :=
    (List.pairwise_cons.mp (List.pairwise_append.mp ordered).2.1).1
  have since : Agree c.now m' m := by
    obtain ⟨h₁, h₂, h₃, h₄⟩ := rejected_agree called
    exact ⟨h₁.symm, h₂.symm, h₃.symm, fun now hnow => (h₄ now hnow).symm⟩
  have matched : ∀ m n (i : Call) o m', Agree c.now m n → c.now ≤ i.now →
      m.call crypto i = some (o, m') → ∃ n', n.call crypto i = some (o, n') ∧ Agree c.now m' n' :=
    fun _ _ _ _ _ h hx called => agree_step h hx called
  obtain ⟨w, right', -⟩ := right.transfer matched since later
  exact ⟨w, left.trans right'⟩

/-- The verifier and its specification agree on every call of a run, rejected
calls can be deleted, and the cache stays within its capacity. -/
def RefinesHistory (crypto : Crypto) (psk : Psk) (serverPub : PublicKey) (window : UInt64)
    (calls : List Call) : Prop :=
  ∃ tr v, Run (KnockVerifier.call crypto) (KnockVerifier.new crypto psk serverPub window) tr v ∧
    tr.map Prod.fst = calls ∧ v.replay.seen.size ≤ 4096 ∧
    ∀ before c r after, tr = before ++ (c, r) :: after →
      (∀ p, r = .ok ⟨p⟩ ↔ Accepts crypto psk serverPub window (accepted before) c p) ∧
      ∀ e, r = .error e → ∃ w, Run (KnockVerifier.call crypto)
        (KnockVerifier.new crypto psk serverPub window) (before ++ after) w

theorem run_exists (crypto : Crypto) (v : KnockVerifier) (calls : List Call) :
    ∃ tr w, Run (KnockVerifier.call crypto) v tr w ∧ tr.map Prod.fst = calls := by
  have total : ∀ (m : KnockVerifier) (c : Call), True →
      ∃ r m', m.call crypto c = some (r, m') ∧ True := by
    intro m c _
    obtain ⟨r, m', called⟩ := openKnock_total crypto m c.packet c.now
    exact ⟨r, m', called, trivial⟩
  obtain ⟨tr, w, run, same, -⟩ := Run.exists_of_total v trivial total calls
  exact ⟨tr, w, run, same⟩

theorem verifier_refines_history (crypto : Crypto) (psk : Psk) (serverPub : PublicKey)
    (window : UInt64) (calls : List Call)
    (ordered : calls.Pairwise (fun a b => a.now ≤ b.now)) :
    RefinesHistory crypto psk serverPub window calls := by
  obtain ⟨tr, v, run, same⟩ :=
    run_exists crypto (KnockVerifier.new crypto psk serverPub window) calls
  have trOrdered : Ordered tr := by
    rw [← same, List.pairwise_map] at ordered
    exact ordered
  refine ⟨tr, v, run, same, (run_tracks run).bounded, ?_⟩
  rintro before c r after rfl
  obtain ⟨m, m', left, called, -⟩ := run.at_step
  have earlier : ∀ e ∈ before, e.1.now ≤ c.now := fun e he =>
    (List.pairwise_append.mp trOrdered).2.2 e he (c, r) (by simp)
  refine ⟨call_accepts_iff (run_tracks left) earlier called, ?_⟩
  rintro e rfl
  exact run_without_rejected run trOrdered

theorem verifier_refines_history_replay :
    RefinesHistory .transparent ⟨.replicate 32 5⟩ ⟨.replicate 32 9⟩ 30
      [⟨sealAt .transparent ⟨.replicate 32 5⟩ ⟨.replicate 32 9⟩ 8443 1000 (.replicate 12 1), 1000⟩,
       ⟨sealAt .transparent ⟨.replicate 32 5⟩ ⟨.replicate 32 9⟩ 8443 1000 (.replicate 12 1), 1000⟩,
       ⟨[], 1001⟩] :=
  verifier_refines_history _ _ _ _ _ (by simp)

end HyperionVpn.Knock
