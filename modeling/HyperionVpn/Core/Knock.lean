import HyperionVpn.Lib.Aead
import HyperionVpn.Lib.Bytes
import HyperionVpn.Lib.KeyMap
import HyperionVpn.Lib.Word
import HyperionVpn.Core.Error

/-! Single-packet authorization: the 44-byte knock and its stateful verifier.
The verifier's slices are bounds-checked, so `none` is a panic of the server. -/
namespace HyperionVpn
open Bytes Word

structure Knock where
  tunnelPort : UInt16
  deriving DecidableEq, Repr

namespace Knock

/-- `b"HVPK"`. -/
def magic : List UInt8 := [0x48, 0x56, 0x50, 0x4b]
def kdfLabel : List UInt8 := "hyperion-vpn knock key v1".toUTF8.data.toList
abbrev nonceLen : Nat := 12
def payloadLen : Nat := 12
def tagLen : Nat := 16
def packetLen : Nat := magic.length + nonceLen + payloadLen + tagLen
def replayCap : Nat := 4096

abbrev Nonce := Vector UInt8 nonceLen

/-- The primitives of the cipher suite: BLAKE2s in its HKDF, and the AEAD. -/
structure Crypto extends Aead where
  hkdf : (chainingKey input : List UInt8) → Vector UInt8 32 × Vector UInt8 32

/-- For evaluating the verifier; see `Aead.transparent`. -/
def Crypto.transparent : Crypto where
  toAead := Aead.transparent
  hkdf chainingKey input :=
    (.replicate 32 (Aead.checksum chainingKey input [] []), .replicate 32 0)

variable (crypto : Crypto)

def knockCipher (psk : Psk) : Vector UInt8 32 := (crypto.hkdf kdfLabel psk.bytes.toList).1

def knockAad (serverPub : PublicKey) : List UInt8 := magic ++ serverPub.bytes.toList

def payload (version : UInt16) (timestamp : UInt64) (tunnelPort : UInt16) : List UInt8 :=
  u16ToBE version ++ u64ToBE timestamp ++ u16ToBE tunnelPort

/-- `nonce` is what the system's random generator filled in. -/
def sealAt (psk : Psk) (serverPub : PublicKey) (tunnelPort : UInt16) (timestamp : UInt64)
    (nonce : Nonce) : List UInt8 :=
  magic ++ nonce.toList ++ crypto.encrypt (knockCipher crypto psk) nonce (knockAad serverPub)
    (payload protocolVersion timestamp tunnelPort)

structure ReplayGuard where
  seen : KeyMap Nonce UInt64
  window : UInt64

def ReplayGuard.new (windowSecs : UInt64) : ReplayGuard := ⟨∅, windowSecs⟩

def ReplayGuard.checkAndRecord (guard : ReplayGuard) (nonce : Nonce) (now : UInt64) :
    Bool × ReplayGuard :=
  let seen := guard.seen.retain (fun t => decide (saturatingSub now t ≤ guard.window))
  if nonce ∈ seen then (false, { guard with seen })
  else if replayCap ≤ seen.size then (false, { guard with seen })
  else (true, { guard with seen := seen.insert nonce now })

structure KnockVerifier where
  cipher : Vector UInt8 32
  aad : List UInt8
  replay : ReplayGuard

def KnockVerifier.new (psk : Psk) (serverPub : PublicKey) (windowSecs : UInt64) : KnockVerifier :=
  ⟨knockCipher crypto psk, knockAad serverPub, ReplayGuard.new windowSecs⟩

/-- `KnockVerifier::open` on the decrypted payload, up to the replay check. -/
def KnockVerifier.checkPayload (v : KnockVerifier) (nonce : Nonce) (plaintext : List UInt8)
    (now : UInt64) : Option (Except Error (Nonce × UInt16)) := do
  let version := u16FromBE (← plaintext[0]?) (← plaintext[1]?)
  if version ≠ protocolVersion then
    return .error (.protocol "knock: version mismatch")
  let timestamp := u64FromBE (← (slice plaintext 2 10).bind (tryInto 8))
  let tunnelPort := u16FromBE (← plaintext[10]?) (← plaintext[11]?)
  if absDiff now timestamp > v.replay.window then
    return .error (.protocol "knock: stale timestamp")
  return .ok (nonce, tunnelPort)

/-- `KnockVerifier::open` up to the replay check: the nonce and the port of an
authentic and fresh packet. -/
def KnockVerifier.authenticate (v : KnockVerifier) (packet : List UInt8) (now : UInt64) :
    Option (Except Error (Nonce × UInt16)) := do
  if packet.length ≠ packetLen then
    return .error (.protocol "knock: bad length")
  if (← slice packet 0 4) ≠ magic then
    return .error (.protocol "knock: bad magic")
  let nonce ← (slice packet 4 16).bind (tryInto nonceLen)
  let ciphertext ← slice packet 16 packet.length
  match crypto.decrypt v.cipher nonce v.aad ciphertext with
  | none => return .error .unauthorized
  | some plaintext => v.checkPayload nonce plaintext now

/-- `KnockVerifier::open`. -/
def KnockVerifier.openKnock (v : KnockVerifier) (packet : List UInt8) (now : UInt64) :
    Option (Except Error Knock × KnockVerifier) := do
  match ← v.authenticate crypto packet now with
  | .error e => return (.error e, v)
  | .ok (nonce, tunnelPort) =>
    let (recorded, replay) := v.replay.checkAndRecord nonce now
    if !recorded then
      return (.error (.protocol "knock: replay"), { v with replay })
    return (.ok ⟨tunnelPort⟩, { v with replay })

end Knock
end HyperionVpn
