import HyperionVpn.Core.HandleStream
import HyperionVpn.Core.Keys
import HyperionVpn.Core.Noise

/-! The server's side of the handshake, over a connection on which the peer may
send anything. A step is one completed wait of `accept`. -/
namespace HyperionVpn
open Bytes

/-- The handshake states of the noise library, for the pattern IKpsk2. A message
that does not verify has no result. The ephemeral secret of a message that is
written comes from the library's generator. -/
structure NoiseLibrary where
  HandshakeState : Type
  responder : (prologue : List UInt8) → (s : SecretKey) → HandshakeState
  pushPsk : HandshakeState → Psk → HandshakeState
  readMessageVec : HandshakeState → List UInt8 → Option (List UInt8 × HandshakeState)
  getRs : HandshakeState → Option (Vector UInt8 32)
  writeMessageVec : (ephemeral : Vector UInt8 32) → HandshakeState → (payload : List UInt8) →
    Option (List UInt8 × HandshakeState)
  completed : HandshakeState → Bool
  /-- From the initiator to the responder, and back. -/
  getCiphers : HandshakeState → CipherState × CipherState

def maxHandshakeMsg : Nat := 4096

def prologue : List UInt8 :=
  ("hyperion-vpn".toList.map fun c => UInt8.ofNat c.toNat) ++ u16ToBE protocolVersion

structure ServerHandshake where
  staticSecret : SecretKey
  psk : Psk
  allowedAdmins : List PublicKey

namespace Accept

/-- What `accept` holds once it has made the second message. -/
structure Answer where
  admin : PublicKey
  msg2 : List UInt8
  completed : Bool
  initiatorToResponder : CipherState
  responderToInitiator : CipherState

inductive Phase where
  | readingLength (got : List UInt8)
  | readingMessage (len : Nat) (got : List UInt8)
  | writing (answer : Answer) (rest : List UInt8)
  | done (result : Except Error (NoiseStream × PublicKey))

/-- A read takes at most what it has asked for of `bytes`, and is at the end of
the stream without any. -/
inductive Event where
  | read (bytes : List UInt8) (ephemeral : Vector UInt8 32)
  | wrote (n : Nat)
  | flushed
  | fail (error : IoError)

end Accept

open Accept

/-- With the first message, once it is there, and what the peer has been sent. -/
structure Accept where
  phase : Accept.Phase
  first : Option (List UInt8)
  out : List UInt8

namespace Accept

def new : Accept := ⟨.readingLength [], none, []⟩

variable (noise : NoiseLibrary) (hs : ServerHandshake)

def start : noise.HandshakeState :=
  noise.pushPsk (noise.responder prologue hs.staticSecret) hs.psk

/-- What `accept` does between reading the first message and writing the second. -/
def respond (ephemeral : Vector UInt8 32) (msg1 : List UInt8) : Except Error Answer :=
  match noise.readMessageVec (start noise hs) msg1 with
  | none => .error .handshake
  | some (_, state) =>
    match noise.getRs state with
    | none => .error .handshake
    | some rs =>
      if PublicKey.mk rs ∉ hs.allowedAdmins then .error .unauthorized
      else
        match noise.writeMessageVec ephemeral state [] with
        | none => .error .handshake
        | some (msg2, state) =>
          if maxHandshakeMsg < msg2.length then
            .error (.protocol "handshake message too large")
          else
            .ok ⟨⟨rs⟩, msg2, noise.completed state, (noise.getCiphers state).1,
              (noise.getCiphers state).2⟩

def finish (a : Accept) (result : Except Error (NoiseStream × PublicKey)) : Accept :=
  { a with phase := .done result }

/-- `read_handshake_msg`, its first read. -/
def readLength (a : Accept) (got bytes : List UInt8) : Accept :=
  if bytes = [] then a.finish (.error HandleStream.earlyEof)
  else
    match got ++ bytes.take (lenPrefix - got.length) with
    | [hi, lo] =>
      let len := (u16FromBE hi lo).toNat
      if len = 0 ∨ maxHandshakeMsg < len then
        a.finish (.error (.protocol "invalid handshake length"))
      else { a with phase := .readingMessage len [] }
    | got => { a with phase := .readingLength got }

/-- Its second read, and what follows the first message. -/
def readMessage (a : Accept) (len : Nat) (got bytes : List UInt8) (ephemeral : Vector UInt8 32) :
    Accept :=
  if bytes = [] then a.finish (.error HandleStream.earlyEof)
  else
    let got := got ++ bytes.take (len - got.length)
    if got.length < len then { a with phase := .readingMessage len got }
    else
      { a with
        first := some got
        phase :=
          match respond noise hs ephemeral got with
          | .error e => .done (.error e)
          | .ok answer =>
            .writing answer (u16ToBE (UInt16.ofNat answer.msg2.length) ++ answer.msg2) }

/-- `write_handshake_msg`, and what follows it. -/
def whileWriting (a : Accept) (answer : Answer) (rest : List UInt8) : Event → Accept
  | .wrote n =>
    if rest = [] then a
    else if n = 0 then a.finish (.error HandleStream.writeZero)
    else { a with phase := .writing answer (rest.drop n), out := a.out ++ rest.take n }
  | .flushed =>
    if rest ≠ [] then a
    else if !answer.completed then a.finish (.error .handshake)
    else
      a.finish (.ok
        (.new answer.responderToInitiator answer.initiatorToResponder, answer.admin))
  | .fail e => a.finish (.error (.io e))
  | .read _ _ => a

def step (a : Accept) (e : Event) : Accept :=
  match a.phase, e with
  | .readingLength got, .read bytes _ => a.readLength got bytes
  | .readingMessage len got, .read bytes ephemeral => a.readMessage noise hs len got bytes ephemeral
  | .readingLength _, .fail e | .readingMessage _ _, .fail e => a.finish (.error (.io e))
  | .writing answer rest, e => a.whileWriting answer rest e
  | _, _ => a

/-! Who is answered. -/

variable {noise} {hs}

/-- The first message verifies, and its static key is this admin's. -/
def Verified (noise : NoiseLibrary) (hs : ServerHandshake) (msg1 : List UInt8)
    (admin : PublicKey) : Prop :=
  admin ∈ hs.allowedAdmins ∧ ∃ payload state,
    noise.readMessageVec (start noise hs) msg1 = some (payload, state) ∧
      noise.getRs state = some admin.bytes

theorem respond_verified {ephemeral : Vector UInt8 32} {msg1 : List UInt8} {answer : Answer}
    (responded : respond noise hs ephemeral msg1 = .ok answer) :
    Verified noise hs msg1 answer.admin := by
  unfold respond at responded
  split at responded
  · cases responded
  rename_i payload state read
  split at responded
  · cases responded
  rename_i rs static
  split at responded
  · cases responded
  rename_i listed
  split at responded
  · cases responded
  split at responded
  · cases responded
  cases responded
  exact ⟨not_not.mp listed, payload, state, read, static⟩

/-- The connection carries the first message of an admin. -/
def Identified (noise : NoiseLibrary) (hs : ServerHandshake) (a : Accept) (admin : PublicKey) :
    Prop :=
  ∃ msg1, a.first = some msg1 ∧ Verified noise hs msg1 admin

/-- Nothing is sent before that, and `accept` returns that admin. -/
structure Guarded (noise : NoiseLibrary) (hs : ServerHandshake) (a : Accept) : Prop where
  silent : a.out ≠ [] → ∃ admin, Identified noise hs a admin
  writing : ∀ answer rest, a.phase = .writing answer rest → Identified noise hs a answer.admin
  returned : ∀ stream admin, a.phase = .done (.ok (stream, admin)) →
    Identified noise hs a admin ∧ ∃ send recv, stream = .new send recv
  reading : (∃ got, a.phase = .readingLength got) ∨ (∃ len got, a.phase = .readingMessage len got) →
    a.out = []

theorem guarded_new : Guarded noise hs new where
  silent := by simp [new]
  writing := nofun
  returned := nofun
  reading _ := rfl

variable {a : Accept}

theorem Guarded.fail (h : Guarded noise hs a) (e : Error) :
    Guarded noise hs (a.finish (.error e)) where
  silent := h.silent
  writing := nofun
  returned := nofun
  reading stands := by
    rcases stands with ⟨got, phase⟩ | ⟨len, got, phase⟩ <;> cases phase

/-- The handshake reads on. -/
theorem Guarded.await {phase : Phase} (h : Guarded noise hs a) (quiet : a.out = [])
    (reads : (∃ got, phase = .readingLength got) ∨ ∃ len got, phase = .readingMessage len got) :
    Guarded noise hs { a with phase } where
  silent := h.silent
  writing answer rest same := by
    rcases reads with ⟨got, rfl⟩ | ⟨len, got, rfl⟩ <;> cases same
  returned stream admin same := by
    rcases reads with ⟨got, rfl⟩ | ⟨len, got, rfl⟩ <;> cases same
  reading _ := quiet

theorem guarded_readLength {got : List UInt8} (h : Guarded noise hs a)
    (phase : a.phase = .readingLength got) (bytes : List UInt8) :
    Guarded noise hs (a.readLength got bytes) := by
  have quiet := h.reading (.inl ⟨got, phase⟩)
  unfold readLength
  split
  · exact h.fail _
  split
  · dsimp only
    split
    · exact h.fail _
    · exact h.await quiet (.inr ⟨_, _, rfl⟩)
  · exact h.await quiet (.inl ⟨_, rfl⟩)

theorem guarded_readMessage {len : Nat} {got : List UInt8} (h : Guarded noise hs a)
    (phase : a.phase = .readingMessage len got) (bytes : List UInt8)
    (ephemeral : Vector UInt8 32) :
    Guarded noise hs (a.readMessage noise hs len got bytes ephemeral) := by
  have quiet := h.reading (.inr ⟨len, got, phase⟩)
  unfold readMessage
  split
  · exact h.fail _
  dsimp only
  split
  · exact h.await quiet (.inr ⟨_, _, rfl⟩)
  split <;> rename_i responded
  · exact ⟨fun sent => absurd quiet sent, nofun, nofun, fun _ => quiet⟩
  · refine ⟨fun sent => absurd quiet sent, ?_, nofun, fun _ => quiet⟩
    intro answer rest same
    cases same
    exact ⟨_, rfl, respond_verified responded⟩

theorem guarded_whileWriting {answer : Answer} {rest : List UInt8} (h : Guarded noise hs a)
    (phase : a.phase = .writing answer rest) (e : Event) :
    Guarded noise hs (a.whileWriting answer rest e) := by
  have identified := h.writing answer rest phase
  unfold whileWriting
  split
  · split
    · exact h
    split
    · exact h.fail _
    · refine ⟨fun _ => ⟨answer.admin, identified⟩, ?_, nofun, ?_⟩
      · intro answer' rest' same
        cases same
        exact identified
      · rintro (⟨got, same⟩ | ⟨len, got, same⟩) <;> cases same
  · split
    · exact h
    split
    · exact h.fail _
    · refine ⟨h.silent, nofun, ?_, ?_⟩
      · intro stream admin same
        cases same
        exact ⟨identified, _, _, rfl⟩
      · rintro (⟨got, same⟩ | ⟨len, got, same⟩) <;> cases same
  · exact h.fail _
  · exact h

theorem guarded_step (h : Guarded noise hs a) (e : Event) : Guarded noise hs (a.step noise hs e) := by
  unfold step
  split
  · exact guarded_readLength h ‹_› _
  · exact guarded_readMessage h ‹_› _ _
  · exact h.fail _
  · exact h.fail _
  · exact guarded_whileWriting h ‹_› _
  · exact h

end Accept
end HyperionVpn
