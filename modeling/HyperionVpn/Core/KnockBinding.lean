import HyperionVpn.Core.KnockHistory

/-! Sealing and opening are inverse on the whole format, and a sealed knock
opens at the server it was made for only. -/
namespace HyperionVpn
open Bytes Word Machine

namespace Knock

variable {crypto : Crypto} {psk : Psk} {serverPub : PublicKey}

/-- A verifier for this key and server, whatever its window and cache. -/
structure KnockVerifier.Belongs (crypto : Crypto) (psk : Psk) (serverPub : PublicKey)
    (v : KnockVerifier) : Prop where
  cipher : v.cipher = knockCipher crypto psk
  aad : v.aad = knockAad serverPub

theorem KnockVerifier.belongs_new (crypto : Crypto) (psk : Psk) (serverPub : PublicKey) (window : UInt64) :
    (KnockVerifier.new crypto psk serverPub window).Belongs crypto psk serverPub :=
  ⟨rfl, rfl⟩

theorem KnockVerifier.Belongs.call {v v' : KnockVerifier} {c : Call} {r : Except Error Knock}
    (h : v.Belongs crypto psk serverPub) (called : v.call crypto c = some (r, v')) :
    v'.Belongs crypto psk serverPub := by
  cases openKnock_iff.mp called with
  | rejected _ => exact h
  | replayed _ _ => exact ⟨h.cipher, h.aad⟩
  | accepted _ _ => exact ⟨h.cipher, h.aad⟩

/-- What authenticates at this server is what was sealed for it. -/
theorem KnockVerifier.Belongs.authenticates_iff {v : KnockVerifier} (h : v.Belongs crypto psk serverPub)
    {packet : List UInt8} {nonce : Nonce} {ts : UInt64} {port : UInt16} :
    v.Authenticates crypto packet nonce ts port ↔
      packet = sealAt crypto psk serverPub port ts nonce := by
  rw [Knock.authenticates_iff, h.cipher, h.aad]
  rfl

/-- The entries of the cache that a call at this time leaves in it. -/
def KnockVerifier.liveEntries (v : KnockVerifier) (now : UInt64) : List (Nonce × UInt64) :=
  v.replay.seen.pairs.filter (live v.replay.window now)

theorem checkAndRecord_iff {v : KnockVerifier} {nonce : Nonce} {now : UInt64} :
    (v.replay.checkAndRecord nonce now).1 = true ↔
      (∀ t, (nonce, t) ∉ v.liveEntries now) ∧ (v.liveEntries now).length < replayCap := by
  rw [checkAndRecord_passes, KeyMap.mem_iff_pairs, ← KeyMap.pairs_length, pruned_pairs, not_exists]
  rfl

theorem opens_iff {v : KnockVerifier} (h : v.Belongs crypto psk serverPub) {packet : List UInt8}
    {now : UInt64} {port : UInt16} :
    (∃ v', v.openKnock crypto packet now = some (.ok ⟨port⟩, v')) ↔ ∃ nonce ts,
      packet = sealAt crypto psk serverPub port ts nonce ∧ Fresh v.replay.window now ts ∧
        (∀ t, (nonce, t) ∉ v.liveEntries now) ∧ (v.liveEntries now).length < replayCap := by
  obtain ⟨judged, hjudged, authentic⟩ := authenticate_spec crypto v packet now
  constructor
  · rintro ⟨v', opened⟩
    cases openKnock_iff.mp opened with
    | @accepted nonce _ passed recorded =>
      cases Option.some.inj (passed.symm.trans hjudged)
      obtain ⟨ts, auth, fresh⟩ := (authentic nonce port).mp rfl
      exact ⟨nonce, ts, h.authenticates_iff.mp auth, fresh, checkAndRecord_iff.mp recorded⟩
  · rintro ⟨nonce, ts, rfl, fresh, room⟩
    have auth : v.Authenticates crypto (sealAt crypto psk serverPub port ts nonce) nonce ts port :=
      h.authenticates_iff.mpr rfl
    have passed := (authentic nonce port).mpr ⟨ts, auth, fresh⟩
    rw [passed] at hjudged
    exact ⟨_, openKnock_iff.mpr (.accepted hjudged (checkAndRecord_iff.mpr room))⟩

theorem authenticate_layout (crypto : Crypto) (v : KnockVerifier) (nonce : Nonce)
    {ciphertext : List UInt8} (size : ciphertext.length = payloadLen + tagLen) (now : UInt64) :
    v.authenticate crypto (magic ++ nonce.toList ++ ciphertext) now =
      (crypto.decrypt v.cipher nonce v.aad ciphertext).elim (some (.error .unauthorized))
        fun plaintext => v.checkPayload nonce plaintext now := by
  have magicLen : magic.length = 4 := rfl
  have nonceSize : nonce.toList.length = 12 := Vector.length_toList
  have head : (magic ++ nonce.toList).length = 16 := by
    rw [List.length_append, magicLen, nonceSize]
  have len : (magic ++ nonce.toList ++ ciphertext).length = packetLen := by
    rw [List.length_append, head, size]
    rfl
  have front : (magic ++ nonce.toList ++ ciphertext).take 4 = magic := by
    rw [List.append_assoc, List.take_left' magicLen]
  have middle : ((magic ++ nonce.toList ++ ciphertext).drop 4).take 12 = nonce.toList := by
    rw [List.append_assoc, List.drop_left' magicLen, List.take_left' nonceSize]
  rw [authenticate_opens crypto v len front middle, List.drop_left' head]

/-- A packet for another server does not authenticate. -/
theorem KnockVerifier.Belongs.rejects {v : KnockVerifier} {other : PublicKey}
    (h : v.Belongs crypto psk serverPub) {aads : List (List UInt8)}
    (binds : crypto.Binds (knockCipher crypto psk) aads) (made : knockAad other ∈ aads)
    (used : knockAad serverPub ∈ aads) (differs : other ≠ serverPub) (port : UInt16) (ts : UInt64)
    (nonce : Nonce) (now : UInt64) :
    v.openKnock crypto (sealAt crypto psk other port ts nonce) now = some (.error .unauthorized, v) := by
  have apart : knockAad other ≠ knockAad serverPub := by
    intro same
    have bytes := List.append_cancel_left same
    apply differs
    cases other
    cases serverPub
    rw [PublicKey.mk.injEq]
    exact Vector.toList_inj.mp bytes
  have size : (crypto.encrypt (knockCipher crypto psk) nonce (knockAad other)
      (payload protocolVersion ts port)).length = payloadLen + tagLen := by
    rw [crypto.encrypt_length, payload_length]
    rfl
  apply openKnock_error
  rw [sealAt, authenticate_layout crypto v nonce size, h.cipher, h.aad,
    binds _ made _ used apart]
  rfl

/-- The verifiers of servers that share a key, by the servers' own keys. -/
abbrev Fleet := PublicKey → KnockVerifier

def Fleet.new (crypto : Crypto) (psk : Psk) (window : PublicKey → UInt64) : Fleet :=
  fun serverPub => KnockVerifier.new crypto psk serverPub (window serverPub)

/-- One of the servers receives a packet. -/
def Fleet.step (crypto : Crypto) (fleet : Fleet) (at_ : PublicKey × Call) :
    Option (Except Error Knock × Fleet) :=
  ((fleet at_.1).call crypto at_.2).map fun (r, v) => (r, Function.update fleet at_.1 v)

theorem Fleet.belongs {window : PublicKey → UInt64}
    {tr : List ((PublicKey × Call) × Except Error Knock)} {fleet : Fleet}
    (run : Run (Fleet.step crypto) (Fleet.new crypto psk window) tr fleet) (serverPub : PublicKey) :
    (fleet serverPub).Belongs crypto psk serverPub := by
  induction run with
  | nil => exact KnockVerifier.belongs_new crypto psk serverPub (window serverPub)
  | @snoc _ m at_ _ _ _ stepped ih =>
    obtain ⟨⟨r, v⟩, called, same⟩ := Option.map_eq_some_iff.mp stepped
    cases same
    by_cases here : serverPub = at_.1
    · subst here
      rw [Function.update_self]
      exact ih.call called
    · rw [Function.update_of_ne here]
      exact ih

/-- A timestamp within the window of the clock, on either side. -/
def Within (window now ts : UInt64) : Prop :=
  now.toNat ≤ ts.toNat + window.toNat ∧ ts.toNat ≤ now.toNat + window.toNat

theorem fresh_iff_within {window now ts : UInt64} : Fresh window now ts ↔ Within window now ts := by
  rw [Fresh, Within, absDiff_toNat]
  omega

/-- Opening inverts sealing on all times of the window, accepts nothing but
sealed layouts, and fails at every other server of a fleet without a trace. -/
theorem knock_opens_exactly_as_sealed (crypto : Crypto) (psk : Psk) :
    (∀ (serverPub : PublicKey) (v : KnockVerifier), v.Belongs crypto psk serverPub →
      (∀ port ts nonce now, Within v.replay.window now ts → (∀ t, (nonce, t) ∉ v.liveEntries now) →
        (v.liveEntries now).length < 4096 →
        ∃ v', v.openKnock crypto (sealAt crypto psk serverPub port ts nonce) now =
          some (.ok ⟨port⟩, v')) ∧
      ∀ packet now port v', v.openKnock crypto packet now = some (.ok ⟨port⟩, v') →
        ∃ nonce ts, packet = sealAt crypto psk serverPub port ts nonce ∧
          Within v.replay.window now ts) ∧
    ∀ (servers : List PublicKey) (window : PublicKey → UInt64),
      crypto.Binds (knockCipher crypto psk) (servers.map knockAad) →
      ∀ tr fleet, Run (Fleet.step crypto) (Fleet.new crypto psk window) tr fleet →
      ∀ a ∈ servers, ∀ b ∈ servers, a ≠ b → ∀ port ts nonce now,
        Fleet.step crypto fleet (b, ⟨sealAt crypto psk a port ts nonce, now⟩) =
          some (.error .unauthorized, fleet) := by
  refine ⟨?_, ?_⟩
  · intro serverPub v belongs
    constructor
    · intro port ts nonce now within unseen room
      exact (opens_iff belongs).mpr ⟨nonce, ts, rfl, fresh_iff_within.mpr within, unseen, room⟩
    · intro packet now port v' opened
      obtain ⟨nonce, ts, same, fresh, -⟩ := (opens_iff belongs).mp ⟨v', opened⟩
      exact ⟨nonce, ts, same, fresh_iff_within.mp fresh⟩
  · intro servers window binds tr fleet run a made b used differs port ts nonce now
    have rejected := (Fleet.belongs run b).rejects binds (List.mem_map_of_mem made)
      (List.mem_map_of_mem used) differs port ts nonce now
    rw [Fleet.step, KnockVerifier.call]
    simp only [rejected, Option.map_some, Function.update_eq_self]

def sampleFleetPsk : Psk := ⟨.replicate 32 5⟩

def sampleOwner : PublicKey := ⟨.replicate 32 9⟩

/-- Another server with the same key. -/
def sampleSibling : PublicKey := ⟨(Vector.replicate 32 9).set 0 8⟩

/-- A knock for the first of them. -/
def sampleSealed (ts : UInt64) (nonce : UInt8) : List UInt8 :=
  sealAt .transparent sampleFleetPsk sampleOwner 8443 ts (.replicate 12 nonce)

def sampleFleet : Fleet := Fleet.new .transparent sampleFleetPsk fun _ => 30

/-- After the server has opened a knock, its sibling refuses another one made
for it. -/
theorem knock_opens_exactly_as_sealed_sample :
    ∃ fleet, Run (Fleet.step .transparent) sampleFleet
        [((sampleOwner, ⟨sampleSealed 1000 1, 990⟩), .ok ⟨8443⟩)] fleet ∧
      Fleet.step .transparent fleet (sampleSibling, ⟨sampleSealed 1001 2, 1001⟩) =
        some (.error .unauthorized, fleet) := by
  have binds : Aead.transparent.Binds (knockCipher .transparent sampleFleetPsk)
      ([sampleOwner, sampleSibling].map knockAad) := by
    apply Aead.transparent_binds
    decide +kernel
  have within : Within 30 990 1000 := ⟨by decide, by decide⟩
  have accepts := ((knock_opens_exactly_as_sealed .transparent sampleFleetPsk).1 sampleOwner
    (sampleFleet sampleOwner) (KnockVerifier.belongs_new .transparent sampleFleetPsk sampleOwner 30)).1
  obtain ⟨v, opened⟩ := accepts 8443 1000 (.replicate 12 1) 990 within (by rintro _ ⟨⟩) (by decide)
  have stepped : Fleet.step .transparent sampleFleet (sampleOwner, ⟨sampleSealed 1000 1, 990⟩) =
      some (.ok ⟨8443⟩, Function.update sampleFleet sampleOwner v) := by
    rw [Fleet.step, KnockVerifier.call, sampleSealed, opened]
    rfl
  have run := Run.single stepped
  have refused := (knock_opens_exactly_as_sealed .transparent sampleFleetPsk).2
    [sampleOwner, sampleSibling] (fun _ => 30) binds _ _ run
  exact ⟨_, run, refused sampleOwner List.mem_cons_self sampleSibling
    (List.mem_cons_of_mem _ List.mem_cons_self) (by decide) 8443 1001 (.replicate 12 2) 1001⟩

end Knock
end HyperionVpn
