import Mathlib

/-! Authenticated encryption with associated data, as far as its users rely on
it. Sealing is a deterministic function of key, nonce, associated data and
message, and opening recomputes the tag, so it succeeds exactly on what sealing
produces from the same key, nonce and associated data. -/

structure Aead where
  encrypt : (key : Vector UInt8 32) → (nonce : Vector UInt8 12) → (aad msg : List UInt8) → List UInt8
  decrypt : (key : Vector UInt8 32) → (nonce : Vector UInt8 12) → (aad ciphertext : List UInt8) →
    Option (List UInt8)
  /-- The tag is sixteen bytes. -/
  encrypt_length : ∀ key nonce aad msg, (encrypt key nonce aad msg).length = msg.length + 16
  decrypt_eq_some : ∀ key nonce aad ciphertext msg,
    decrypt key nonce aad ciphertext = some msg ↔ ciphertext = encrypt key nonce aad msg

namespace Aead

theorem decrypt_encrypt (aead : Aead) (key : Vector UInt8 32) (nonce : Vector UInt8 12)
    (aad msg : List UInt8) :
    aead.decrypt key nonce aad (aead.encrypt key nonce aad msg) = some msg :=
  (aead.decrypt_eq_some ..).mpr rfl

theorem encrypt_injective (aead : Aead) {key : Vector UInt8 32} {nonce : Vector UInt8 12}
    {aad a b : List UInt8} (h : aead.encrypt key nonce aad a = aead.encrypt key nonce aad b) :
    a = b := by
  have ha := aead.decrypt_encrypt key nonce aad a
  rw [h, aead.decrypt_encrypt] at ha
  exact (Option.some.inj ha).symm

/-- No ciphertext made with one of these associated data opens with another. -/
def Binds (aead : Aead) (key : Vector UInt8 32) (aads : List (List UInt8)) : Prop :=
  ∀ made ∈ aads, ∀ used ∈ aads, made ≠ used → ∀ nonce msg,
    aead.decrypt key nonce used (aead.encrypt key nonce made msg) = none

def checksum (key nonce aad msg : List UInt8) : UInt8 :=
  ((key ++ nonce ++ aad ++ msg).map UInt8.toNat).sum.toUInt8

/-- A transparent cipher whose tag repeats a checksum of all its inputs. It
protects nothing; it is for evaluating users of the interface. -/
def transparent : Aead where
  encrypt key nonce aad msg :=
    msg ++ List.replicate 16 (checksum key.toList nonce.toList aad msg)
  decrypt key nonce aad ciphertext :=
    let msg := ciphertext.take (ciphertext.length - 16)
    if ciphertext = msg ++ List.replicate 16 (checksum key.toList nonce.toList aad msg) then
      some msg
    else none
  encrypt_length := by simp
  decrypt_eq_some := by
    intro key nonce aad ciphertext msg
    dsimp only
    constructor
    · intro h
      split at h
      · rename_i same
        cases h
        exact same
      · contradiction
    · rintro rfl
      have body : (msg ++ List.replicate 16 (checksum key.toList nonce.toList aad msg)).take
          ((msg ++ List.replicate 16 (checksum key.toList nonce.toList aad msg)).length - 16) =
            msg := by
        simp
      rw [body, if_pos rfl]

/-- The checksum tells associated data apart whose byte sums differ. -/
theorem transparent_binds {key : Vector UInt8 32} {aads : List (List UInt8)}
    (apart : ∀ made ∈ aads, ∀ used ∈ aads, made ≠ used →
      (made.map UInt8.toNat).sum % 256 ≠ (used.map UInt8.toNat).sum % 256) :
    transparent.Binds key aads := by
  intro made makes used uses differ nonce msg
  have other := apart made makes used uses differ
  have tags : checksum key.toList nonce.toList made msg ≠ checksum key.toList nonce.toList used msg := by
    intro same
    have number := congrArg UInt8.toNat same
    simp only [checksum, List.map_append, List.sum_append, Nat.toUInt8, UInt8.toNat_ofNat'] at number
    omega
  have body : (msg ++ List.replicate 16 (checksum key.toList nonce.toList made msg)).take
      ((msg ++ List.replicate 16 (checksum key.toList nonce.toList made msg)).length - 16) = msg := by
    simp
  dsimp only [transparent]
  rw [body, if_neg]
  intro same
  exact tags (List.replicate_right_injective (by decide) (List.append_cancel_left same))

end Aead
