import HyperionVpn.Core.Accept

/-! The client's side of the handshake, on a connection on which the peer may
send anything. A step is one completed wait of `connect`. -/
namespace HyperionVpn
open Bytes Framing

/-- The initiator's half of the library. -/
structure HandshakeLibrary extends NoiseLibrary where
  initiator : (prologue : List UInt8) → (s : SecretKey) → (rs : PublicKey) → HandshakeState

structure ClientHandshake where
  staticSecret : SecretKey
  serverPubkey : PublicKey
  psk : Psk

/-- Where a call of `read_handshake_msg` stands. -/
inductive HandshakeReading where
  | length (got : List UInt8)
  | body (len : Nat) (got : List UInt8)
  | done (result : Except Error (List UInt8))
  deriving DecidableEq

namespace HandshakeReading

/-- How many bytes the next read asks for. -/
def want : HandshakeReading → Nat
  | .length got => lenPrefix - got.length
  | .body len got => len - got.length
  | .done _ => 0

def invalidLength : Error := .protocol "invalid handshake length"

/-- A read takes at most what it asks for, and is at the end of the stream
without any. -/
def read (r : HandshakeReading) (bytes : List UInt8) : HandshakeReading :=
  match r with
  | .length got =>
    if bytes = [] then .done (.error HandleStream.earlyEof)
    else
      match got ++ bytes.take (lenPrefix - got.length) with
      | [hi, lo] =>
        let len := (u16FromBE hi lo).toNat
        if len = 0 ∨ maxHandshakeMsg < len then .done (.error invalidLength) else .body len []
      | got => .length got
  | .body len got =>
    if bytes = [] then .done (.error HandleStream.earlyEof)
    else
      let got := got ++ bytes.take (len - got.length)
      if got.length < len then .body len got else .done (.ok got)
  | .done result => .done result

/-- A message that `read_handshake_msg` does not refuse. -/
def Fits (msg : List UInt8) : Prop := msg.length ≠ 0 ∧ msg.length ≤ maxHandshakeMsg

instance (msg : List UInt8) : Decidable (Fits msg) := inferInstanceAs (Decidable (_ ∧ _))

theorem fits_iff {msg : List UInt8} : ¬ (msg.length = 0 ∨ maxHandshakeMsg < msg.length) ↔ Fits msg := by
  rw [Fits, not_or, Nat.not_lt]

/-- Where the reading of a message stands with so much of its frame. -/
def after (msg received : List UInt8) : HandshakeReading :=
  if received.length < lenPrefix then .length received
  else if ¬ Fits msg then .done (.error invalidLength)
  else if received.length < lenPrefix + msg.length then .body msg.length (received.drop lenPrefix)
  else .done (.ok msg)

theorem after_nil (msg : List UInt8) : after msg [] = .length [] := rfl

theorem after_length {msg received : List UInt8} (short : received.length < lenPrefix) :
    after msg received = .length received := if_pos short

theorem after_refused {msg received : List UInt8} (enough : ¬ received.length < lenPrefix)
    (refused : ¬ Fits msg) : after msg received = .done (.error invalidLength) := by
  rw [after, if_neg enough, if_pos refused]

theorem after_body {msg received : List UInt8} (enough : ¬ received.length < lenPrefix)
    (fits : Fits msg) (some : received.length < lenPrefix + msg.length) :
    after msg received = .body msg.length (received.drop lenPrefix) := by
  rw [after, if_neg enough, if_neg (not_not_intro fits), if_pos some]

theorem after_whole {msg received : List UInt8} (fits : Fits msg)
    (all : lenPrefix + msg.length ≤ received.length) : after msg received = .done (.ok msg) := by
  rw [after, if_neg (by omega), if_neg (not_not_intro fits), if_neg (by omega)]

theorem want_after {msg received : List UInt8} (inside : received.length ≤ (frame msg).length) :
    received.length + (after msg received).want ≤ (frame msg).length := by
  rw [frame_length] at inside ⊢
  unfold after
  split
  · simp only [want, lenPrefix] at *
    omega
  split
  · exact inside
  split
  · simp only [want, List.length_drop, lenPrefix] at *
    omega
  · exact inside

/-- The reading stands where the beginning of the frame puts it, however that has
come in: in the length, -/
theorem read_length {msg received bytes : List UInt8} (small : msg.length < 2 ^ 16)
    (inside : received ++ bytes <+: frame msg) (nonempty : bytes ≠ [])
    (asked : bytes.length ≤ (after msg received).want) (short : received.length < lenPrefix) :
    (after msg received).read bytes = after msg (received ++ bytes) := by
  obtain ⟨more, whole⟩ := inside
  rw [after_length short, want] at asked
  rw [after_length short, read, if_neg nonempty, List.take_of_length_le asked]
  by_cases still : (received ++ bytes).length < lenPrefix
  · rw [after_length still]
    split
    · rename_i a b same
      simp [same, lenPrefix] at still
    · rfl
  · obtain ⟨hi, lo, two⟩ : ∃ hi lo, u16ToBE (UInt16.ofNat msg.length) = [hi, lo] := ⟨_, _, rfl⟩
    have length : (u16FromBE hi lo).toNat = msg.length := by
      rw [u16FromBE_toBE two, UInt16.toNat_ofNat_of_lt' (by simpa using small)]
    have size : (received ++ bytes).length = [hi, lo].length := by
      simp only [List.length_append, List.length_cons, List.length_nil, lenPrefix] at *
      omega
    rw [frame, two] at whole
    obtain ⟨front, -⟩ := List.append_inj whole size
    rw [front] at still ⊢
    dsimp only
    rw [length]
    by_cases fits : Fits msg
    · have begun : [hi, lo].length < lenPrefix + msg.length :=
        Nat.lt_add_of_pos_right (Nat.pos_of_ne_zero fits.1)
      rw [if_neg (fits_iff.mpr fits), after_body still fits begun]
      rfl
    · rw [if_pos (not_not.mp (mt fits_iff.mp fits)), after_refused still fits]

/-- in the message, -/
theorem read_body {msg received bytes : List UInt8} (inside : received ++ bytes <+: frame msg)
    (nonempty : bytes ≠ []) (asked : bytes.length ≤ (after msg received).want)
    (enough : ¬ received.length < lenPrefix) (fits : Fits msg)
    (begun : received.length < lenPrefix + msg.length) :
    (after msg received).read bytes = after msg (received ++ bytes) := by
  rw [after_body enough fits begun, want] at asked
  rw [after_body enough fits begun, read, if_neg nonempty, List.take_of_length_le asked]
  have tail : (received ++ bytes).drop lenPrefix = received.drop lenPrefix ++ bytes :=
    List.drop_append_of_le_length (by omega)
  have size : (received.drop lenPrefix ++ bytes).length = (received ++ bytes).length - lenPrefix := by
    rw [← tail, List.length_drop]
  have longer : lenPrefix ≤ (received ++ bytes).length := by
    rw [List.length_append]
    omega
  dsimp only
  split <;> rename_i more
  · rw [after_body (by omega) fits (by omega), tail]
  · have all : lenPrefix + msg.length ≤ (received ++ bytes).length := by omega
    rw [after_whole fits all]
    have whole : received ++ bytes = frame msg := inside.eq_of_length_le (by rwa [frame_length])
    rw [← tail, whole]
    rfl

/-- and at every point of the frame. -/
theorem read_after {msg received bytes : List UInt8} (small : msg.length < 2 ^ 16)
    (inside : received ++ bytes <+: frame msg) (nonempty : bytes ≠ [])
    (asked : bytes.length ≤ (after msg received).want) :
    (after msg received).read bytes = after msg (received ++ bytes) := by
  have pos := List.length_pos_iff.mpr nonempty
  by_cases short : received.length < lenPrefix
  · exact read_length small inside nonempty asked short
  by_cases fits : Fits msg
  · by_cases begun : received.length < lenPrefix + msg.length
    · exact read_body inside nonempty asked short fits begun
    · rw [after_whole fits (by omega), want] at asked
      omega
  · rw [after_refused short fits, want] at asked
    omega

end HandshakeReading

namespace Connect

inductive Phase (noise : HandshakeLibrary) where
  | writing (state : noise.HandshakeState) (rest : List UInt8)
  | reading (state : noise.HandshakeState) (r : HandshakeReading)
  | done (result : Except Error NoiseStream)

inductive Event where
  | read (bytes : List UInt8)
  | wrote (n : Nat)
  | flushed
  | fail (error : IoError)
  deriving DecidableEq

end Connect

open Connect

/-- With what the peer has been sent. -/
structure Connect (noise : HandshakeLibrary) where
  phase : Connect.Phase noise
  out : List UInt8

namespace Connect

variable (noise : HandshakeLibrary) (hs : ClientHandshake)

def start : noise.HandshakeState :=
  noise.pushPsk (noise.initiator prologue hs.staticSecret hs.serverPubkey) hs.psk

/-- What `connect` does before it writes. -/
def firstMessage (ephemeral : Vector UInt8 32) :
    Except Error (List UInt8 × noise.HandshakeState) :=
  match noise.writeMessageVec ephemeral (start noise hs) [] with
  | none => .error .handshake
  | some (msg1, state) =>
    if maxHandshakeMsg < msg1.length then .error (.protocol "handshake message too large")
    else .ok (msg1, state)

def new (ephemeral : Vector UInt8 32) : Connect noise :=
  match firstMessage noise hs ephemeral with
  | .error e => ⟨.done (.error e), []⟩
  | .ok (msg1, state) => ⟨.writing state (u16ToBE (UInt16.ofNat msg1.length) ++ msg1), []⟩

variable {noise}

/-- What `connect` does once it has read the second message. -/
def lastMessage (state : noise.HandshakeState) (msg2 : List UInt8) : Except Error NoiseStream :=
  match noise.readMessageVec state msg2 with
  | none => .error .handshake
  | some (_, state) =>
    if !noise.completed state then .error .handshake
    else .ok (.new (noise.getCiphers state).1 (noise.getCiphers state).2)

def finish (c : Connect noise) (result : Except Error NoiseStream) : Connect noise :=
  { c with phase := .done result }

/-- `write_handshake_msg`. -/
def whileWriting (c : Connect noise) (state : noise.HandshakeState) (rest : List UInt8) :
    Event → Connect noise
  | .wrote n =>
    if rest = [] then c
    else if n = 0 then c.finish (.error HandleStream.writeZero)
    else { phase := .writing state (rest.drop n), out := c.out ++ rest.take n }
  | .flushed => if rest ≠ [] then c else { c with phase := .reading state (.length []) }
  | .fail e => c.finish (.error (.io e))
  | .read _ => c

/-- `read_handshake_msg`, and what follows it. -/
def whileReading (c : Connect noise) (state : noise.HandshakeState) (r : HandshakeReading) :
    Event → Connect noise
  | .read bytes =>
    match r.read bytes with
    | .done (.error e) => c.finish (.error e)
    | .done (.ok msg2) => c.finish (lastMessage state msg2)
    | r => { c with phase := .reading state r }
  | .fail e => c.finish (.error (.io e))
  | .wrote _ | .flushed => c

def step (c : Connect noise) (e : Event) : Connect noise :=
  match c.phase with
  | .writing state rest => c.whileWriting state rest e
  | .reading state r => c.whileReading state r e
  | .done _ => c

end Connect
end HyperionVpn
