import HyperionVpn.Core.Knock

/-! What one call of the knock verifier does, for arbitrary bytes. -/
namespace HyperionVpn.Knock
open Bytes Word

variable {crypto : Crypto}

@[simp] theorem payload_length (version : UInt16) (ts : UInt64) (port : UInt16) :
    (payload version ts port).length = payloadLen := by
  simp [payload, payloadLen]

theorem payload_injective {version version' : UInt16} {ts ts' : UInt64} {port port' : UInt16}
    (h : payload version ts port = payload version' ts' port') :
    version = version' ∧ ts = ts' ∧ port = port' := by
  simp only [payload] at h
  obtain ⟨head, hport⟩ := List.append_inj h (by simp)
  obtain ⟨hversion, hts⟩ := List.append_inj head (by simp)
  have word {a b : Nat} (w : Nat) (ha : a < 256 ^ w) (hb : b < 256 ^ w)
      (same : toBE w a = toBE w b) : a = b := by
    rw [← ofBE_toBE_of_lt ha, same, ofBE_toBE_of_lt hb]
  exact ⟨UInt16.toNat_inj.mp (word 2 version.toNat_lt version'.toNat_lt hversion),
    UInt64.toNat_inj.mp (word 8 ts.toNat_lt ts'.toNat_lt hts),
    UInt16.toNat_inj.mp (word 2 port.toNat_lt port'.toNat_lt hport)⟩

/-- The packet has the magic and its ciphertext authenticates, under the
verifier's key and associated data, to this protocol version's payload. -/
def KnockVerifier.Authenticates (crypto : Crypto) (v : KnockVerifier) (packet : List UInt8)
    (nonce : Nonce) (ts : UInt64) (port : UInt16) : Prop :=
  packet.length = packetLen ∧ packet.take 4 = magic ∧ (packet.drop 4).take 12 = nonce.toList ∧
    crypto.decrypt v.cipher nonce v.aad (packet.drop 16) =
      some (payload protocolVersion ts port)

/-- Authentic packets are exactly the sealed layouts: no byte is slack. -/
theorem authenticates_iff {v : KnockVerifier} {packet : List UInt8} {nonce : Nonce} {ts : UInt64}
    {port : UInt16} : v.Authenticates crypto packet nonce ts port ↔
      packet = magic ++ nonce.toList ++
        crypto.encrypt v.cipher nonce v.aad (payload protocolVersion ts port) := by
  unfold KnockVerifier.Authenticates
  rw [crypto.decrypt_eq_some]
  constructor
  · rintro ⟨-, hmagic, hnonce, hcipher⟩
    rw [← hmagic, ← hnonce, ← hcipher, List.append_assoc]
    have tail : (packet.drop 4).take 12 ++ packet.drop 16 = packet.drop 4 := by
      have := List.take_append_drop 12 (packet.drop 4)
      rwa [List.drop_drop] at this
    rw [tail, List.take_append_drop]
  · rintro rfl
    refine ⟨?_, ?_, ?_, ?_⟩
    · simp [crypto.encrypt_length, packetLen, magic, nonceLen, payloadLen, tagLen]
    · simp [magic]
    · have magicLen : magic.length = 4 := rfl
      rw [List.append_assoc, List.drop_left' magicLen, List.take_left' Vector.length_toList]
    · simp [magic, nonceLen]

theorem Authenticates.unique {v : KnockVerifier} {packet : List UInt8} {nonce nonce' : Nonce}
    {ts ts' : UInt64} {port port' : UInt16} (h : v.Authenticates crypto packet nonce ts port)
    (h' : v.Authenticates crypto packet nonce' ts' port') :
    nonce = nonce' ∧ ts = ts' ∧ port = port' := by
  obtain ⟨-, -, hn, hd⟩ := h
  obtain ⟨-, -, hn', hd'⟩ := h'
  obtain rfl : nonce = nonce' := by
    apply Vector.toList_inj.mp
    rw [← hn, hn']
  rw [hd] at hd'
  obtain ⟨-, hts, hport⟩ := payload_injective (Option.some.inj hd')
  exact ⟨rfl, hts, hport⟩

/-- Freshness is judged on the packet's own timestamp. -/
def Fresh (window now ts : UInt64) : Prop := (absDiff now ts).toNat ≤ window.toNat

/-- A decrypted payload has twelve bytes, hence decodes to its three fields. -/
theorem plaintext_fields {key : Vector UInt8 32} {nonce : Nonce} {aad ciphertext plaintext : List UInt8}
    (opened : crypto.decrypt key nonce aad ciphertext = some plaintext)
    (len : ciphertext.length = payloadLen + tagLen) :
    ∃ (a b c d : UInt8) (stamp : Vector UInt8 8), plaintext = [a, b] ++ stamp.toList ++ [c, d] := by
  have size : plaintext.length = 12 := by
    have h := congrArg List.length ((crypto.decrypt_eq_some ..).mp opened)
    rw [crypto.encrypt_length, len] at h
    simp only [payloadLen, tagLen] at h
    omega
  match plaintext, size with
  | [a, b, t₀, t₁, t₂, t₃, t₄, t₅, t₆, t₇, c, d], _ =>
    exact ⟨a, b, c, d, #v[t₀, t₁, t₂, t₃, t₄, t₅, t₆, t₇], rfl⟩

theorem payload_fields (a b c d : UInt8) (stamp : Vector UInt8 8) :
    payload (u16FromBE a b) (u64FromBE stamp) (u16FromBE c d) =
      [a, b] ++ stamp.toList ++ [c, d] := by
  simp only [payload, u16ToBE_fromBE, u64ToBE_fromBE]

theorem checkPayload_spec {v : KnockVerifier} {packet : List UInt8} {nonce : Nonce}
    {plaintext : List UInt8} (now : UInt64) (len : packet.length = packetLen)
    (hmagic : packet.take 4 = magic) (hnonce : (packet.drop 4).take 12 = nonce.toList)
    (opened : crypto.decrypt v.cipher nonce v.aad (packet.drop 16) = some plaintext) :
    ∃ r, v.checkPayload nonce plaintext now = some r ∧ ∀ n port, r = .ok (n, port) ↔
      ∃ ts, v.Authenticates crypto packet n ts port ∧ Fresh v.replay.window now ts := by
  obtain ⟨a, b, c, d, stamp, rfl⟩ := plaintext_fields opened (by rw [List.length_drop, len]; rfl)
  have s₁ : (slice ([a, b] ++ stamp.toList ++ [c, d]) 2 10).bind (tryInto 8) = some stamp := by
    have h := slice_append [a, b] stamp.toList [c, d]
    simp only [List.length_cons, List.length_nil, Vector.length_toList, Nat.reduceAdd] at h
    rw [h, Option.bind_some, tryInto_toList]
  have e₀ : ([a, b] ++ stamp.toList ++ [c, d])[10]? = some c := by
    rw [List.getElem?_append_right (by simp)]; simp
  have e₁ : ([a, b] ++ stamp.toList ++ [c, d])[11]? = some d := by
    rw [List.getElem?_append_right (by simp)]; simp
  have body : v.checkPayload nonce ([a, b] ++ stamp.toList ++ [c, d]) now =
      some (if u16FromBE a b ≠ protocolVersion then .error (.protocol "knock: version mismatch")
        else if absDiff now (u64FromBE stamp) > v.replay.window then
          .error (.protocol "knock: stale timestamp")
        else .ok (nonce, u16FromBE c d)) := by
    unfold KnockVerifier.checkPayload
    rw [s₁, e₀, e₁, apply_ite some, apply_ite some]
    rfl
  -- Whatever payload of this version the packet authenticates to is this one.
  have only : ∀ n ts port, v.Authenticates crypto packet n ts port →
      nonce = n ∧ u16FromBE a b = protocolVersion ∧ u64FromBE stamp = ts ∧ u16FromBE c d = port := by
    intro n ts port h
    obtain rfl : nonce = n := Vector.toList_inj.mp (hnonce.symm.trans h.2.2.1)
    have same := Option.some.inj (opened.symm.trans h.2.2.2)
    rw [← payload_fields] at same
    exact ⟨rfl, payload_injective same⟩
  refine ⟨_, body, fun n port => ⟨fun h => ?_, ?_⟩⟩
  · split at h
    · contradiction
    split at h
    · contradiction
    rename_i hversion stale
    cases h
    refine ⟨u64FromBE stamp, ⟨len, hmagic, hnonce, ?_⟩, ?_⟩
    · rw [← not_not.mp hversion, payload_fields, opened]
    · exact Nat.not_lt.mp fun h => stale (UInt64.lt_iff_toNat_lt.mpr h)
  · rintro ⟨ts, auth, fresh⟩
    obtain ⟨rfl, hversion, rfl, rfl⟩ := only n ts port auth
    rw [if_neg (by simpa using hversion), if_neg]
    exact fun h => Nat.not_le.mpr (UInt64.lt_iff_toNat_lt.mp h) fresh

/-- A packet of the right length and magic is judged by its plaintext. -/
theorem authenticate_opens (crypto : Crypto) (v : KnockVerifier) {packet : List UInt8}
    {nonce : Nonce} (len : packet.length = packetLen) (hmagic : packet.take 4 = magic)
    (hnonce : (packet.drop 4).take 12 = nonce.toList) (now : UInt64) :
    v.authenticate crypto packet now =
      (crypto.decrypt v.cipher nonce v.aad (packet.drop 16)).elim (some (.error .unauthorized))
        fun plaintext => v.checkPayload nonce plaintext now := by
  have size : packet.length = 44 := len
  have s₁ : slice packet 0 4 = some (packet.take 4) := slice_of_le (by omega) (by omega)
  have s₂ : slice packet 4 16 = some ((packet.drop 4).take 12) := slice_of_le (by omega) (by omega)
  have s₃ : slice packet 16 packetLen = some (packet.drop 16) := by
    rw [← len, slice_of_le (by omega) le_rfl, List.take_of_length_le (by simp)]
  have s₄ : (slice packet 4 16).bind (tryInto nonceLen) = some nonce := by
    rw [s₂, Option.bind_some, hnonce, tryInto_toList]
  cases opened : crypto.decrypt v.cipher nonce v.aad (packet.drop 16) with
  | none => simp [KnockVerifier.authenticate, len, s₁, hmagic, s₄, s₃, opened]
  | some plaintext => simp [KnockVerifier.authenticate, len, s₁, hmagic, s₄, s₃, opened]

/-- No byte string of any length makes the validation panic, and it passes
exactly the authentic and fresh packets. -/
theorem authenticate_spec (crypto : Crypto) (v : KnockVerifier) (packet : List UInt8)
    (now : UInt64) :
    ∃ r, v.authenticate crypto packet now = some r ∧ ∀ nonce port, r = .ok (nonce, port) ↔
      ∃ ts, v.Authenticates crypto packet nonce ts port ∧ Fresh v.replay.window now ts := by
  by_cases hlen : packet.length = packetLen
  swap
  · refine ⟨.error (.protocol "knock: bad length"), by simp [KnockVerifier.authenticate, hlen],
      fun nonce port => ?_⟩
    simp only [reduceCtorEq, false_iff]
    rintro ⟨ts, auth, -⟩
    exact hlen auth.1
  have len : packet.length = 44 := hlen
  by_cases hmagic : packet.take 4 = magic
  swap
  · have s₁ : slice packet 0 4 = some (packet.take 4) := slice_of_le (by omega) (by omega)
    refine ⟨.error (.protocol "knock: bad magic"),
      by simp [KnockVerifier.authenticate, hlen, s₁, hmagic], fun nonce port => ?_⟩
    simp only [reduceCtorEq, false_iff]
    rintro ⟨ts, auth, -⟩
    exact hmagic auth.2.1
  obtain ⟨nonce, hnonce⟩ : ∃ nonce : Nonce, nonce.toList = (packet.drop 4).take 12 :=
    ⟨⟨((packet.drop 4).take 12).toArray, by simp [len]⟩, by simp [Vector.toList]⟩
  rw [authenticate_opens crypto v hlen hmagic hnonce.symm now]
  cases opened : crypto.decrypt v.cipher nonce v.aad (packet.drop 16) with
  | none =>
    refine ⟨_, rfl, fun nonce' port => ?_⟩
    simp only [reduceCtorEq, false_iff]
    rintro ⟨ts, auth, -⟩
    obtain rfl : nonce = nonce' := Vector.toList_inj.mp (hnonce.trans auth.2.2.1)
    have same := opened.symm.trans auth.2.2.2
    contradiction
  | some plaintext => exact checkPayload_spec now hlen hmagic hnonce.symm opened

/-- The validation reads neither the replay cache nor anything but key,
associated data and window. -/
theorem authenticate_congr {v w : KnockVerifier} (hcipher : v.cipher = w.cipher)
    (haad : v.aad = w.aad) (hwindow : v.replay.window = w.replay.window) (packet : List UInt8)
    (now : UInt64) : v.authenticate crypto packet now = w.authenticate crypto packet now := by
  simp only [KnockVerifier.authenticate, KnockVerifier.checkPayload, hcipher, haad, hwindow]

/-- The three ways a call can end. Only the second and the third consult, and
prune, the replay cache. -/
inductive Opens (crypto : Crypto) (v : KnockVerifier) (packet : List UInt8) (now : UInt64) :
    Except Error Knock → KnockVerifier → Prop where
  | rejected {e : Error} : v.authenticate crypto packet now = some (.error e) →
      Opens crypto v packet now (.error e) v
  | replayed {nonce port} : v.authenticate crypto packet now = some (.ok (nonce, port)) →
      (v.replay.checkAndRecord nonce now).1 = false →
      Opens crypto v packet now (.error (.protocol "knock: replay"))
        { v with replay := (v.replay.checkAndRecord nonce now).2 }
  | accepted {nonce port} : v.authenticate crypto packet now = some (.ok (nonce, port)) →
      (v.replay.checkAndRecord nonce now).1 = true →
      Opens crypto v packet now (.ok ⟨port⟩)
        { v with replay := (v.replay.checkAndRecord nonce now).2 }

theorem openKnock_error {v : KnockVerifier} {packet : List UInt8} {now : UInt64} {e : Error}
    (h : v.authenticate crypto packet now = some (.error e)) :
    v.openKnock crypto packet now = some (.error e, v) := by
  rw [KnockVerifier.openKnock, h]
  rfl

theorem openKnock_ok {v : KnockVerifier} {packet : List UInt8} {now : UInt64} {nonce : Nonce}
    {port : UInt16} (h : v.authenticate crypto packet now = some (.ok (nonce, port))) :
    v.openKnock crypto packet now =
      some (if (v.replay.checkAndRecord nonce now).1 = true then .ok ⟨port⟩
        else .error (.protocol "knock: replay"),
        { v with replay := (v.replay.checkAndRecord nonce now).2 }) := by
  rw [KnockVerifier.openKnock, h]
  cases checked : v.replay.checkAndRecord nonce now with
  | mk recorded replay => cases recorded <;> simp [checked]

theorem openKnock_iff {v v' : KnockVerifier} {packet : List UInt8} {now : UInt64}
    {r : Except Error Knock} :
    v.openKnock crypto packet now = some (r, v') ↔ Opens crypto v packet now r v' := by
  obtain ⟨judged, hjudged, -⟩ := authenticate_spec crypto v packet now
  constructor
  · intro h
    cases judged with
    | error e =>
      rw [openKnock_error hjudged] at h
      cases h
      exact .rejected hjudged
    | ok pair =>
      rw [openKnock_ok hjudged] at h
      cases h
      split <;> rename_i recorded
      · exact .accepted hjudged recorded
      · exact .replayed hjudged (by simpa using recorded)
  · intro h
    cases h with
    | rejected h' => exact openKnock_error h'
    | replayed h' failed => rw [openKnock_ok h', failed]; rfl
    | accepted h' succeeded => rw [openKnock_ok h', succeeded]; rfl

theorem openKnock_total (crypto : Crypto) (v : KnockVerifier) (packet : List UInt8) (now : UInt64) :
    ∃ r v', v.openKnock crypto packet now = some (r, v') := by
  obtain ⟨judged, hjudged, -⟩ := authenticate_spec crypto v packet now
  cases judged with
  | error e => exact ⟨_, _, openKnock_iff.mpr (.rejected hjudged)⟩
  | ok pair =>
    obtain ⟨nonce, port⟩ := pair
    cases passed : (v.replay.checkAndRecord nonce now).1 with
    | false => exact ⟨_, _, openKnock_iff.mpr (.replayed hjudged passed)⟩
    | true => exact ⟨_, _, openKnock_iff.mpr (.accepted hjudged passed)⟩

end HyperionVpn.Knock
