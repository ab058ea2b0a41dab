import HyperionVpn.Core.Error
import HyperionVpn.Lib.CipherState
import HyperionVpn.Lib.Framing

/-! The encrypted stream of a session, after its handshake, as poll functions
over an inner byte stream. What the inner stream answers during one poll is an
input of the poll, oldest answer first, and an exhausted script is `Pending`.
Slices are bounds-checked, so `none` is a panic. -/
namespace HyperionVpn
open Bytes Framing

/-- The errors of the stream by where they come from: the inner stream's own,
passed on, or one of `io::Error`'s kinds raised here. -/
inductive StreamError where
  | inner (error : IoError)
  | writeZero
  | unexpectedEof
  | invalidData (message : String)
  deriving DecidableEq, Repr

abbrev PollResult (α : Type) := Poll (Except StreamError α)

/-- An answer of the inner `poll_write`: it accepts at most what it is given. -/
inductive InnerWrite where
  | pending
  | error (error : IoError)
  | accept (n : Nat)
  deriving DecidableEq, Repr

/-- An answer of the inner `poll_read`; filling nothing is the end of the stream. -/
inductive InnerRead where
  | pending
  | error (error : IoError)
  | filled (bytes : List UInt8)
  deriving DecidableEq, Repr

/-- An answer of the inner `poll_flush` or `poll_shutdown`. -/
inductive InnerDone where
  | pending
  | error (error : IoError)
  | ok
  deriving DecidableEq, Repr

def InnerDone.poll : InnerDone → PollResult Unit
  | .pending => .pending
  | .error e => .ready (.error (.inner e))
  | .ok => .ready (.ok ())

def tagLen : Nat := 16
def lenPrefix : Nat := 2
def maxPlaintext : Nat := 16384
def maxCiphertext : Nat := maxPlaintext + tagLen
/-- The buffer that `poll_fill` offers to the inner stream. -/
def fillCapacity : Nat := 8192

structure NoiseStream where
  send : CipherState
  recv : CipherState
  writePending : List UInt8
  writeOff : Nat
  readRaw : List UInt8
  readPlain : List UInt8
  readOff : Nat
  readTarget : Nat
  haveLen : Bool
  deriving DecidableEq

namespace NoiseStream

def new (send recv : CipherState) : NoiseStream := ⟨send, recv, [], 0, [], [], 0, 0, false⟩

/-- What a poll of the writing half leaves: its result, the stream, the bytes
the inner stream accepted, and the inner answers not asked for. -/
structure Writing (α : Type) where
  result : PollResult α
  stream : NoiseStream
  wire : List UInt8
  rest : List InnerWrite

def pollFlushPending (s : NoiseStream) (script : List InnerWrite) : Option (Writing Unit) :=
  if s.writeOff < s.writePending.length then
    match script with
    | [] => some ⟨.pending, s, [], []⟩
    | .pending :: rest => some ⟨.pending, s, [], rest⟩
    | .error e :: rest => some ⟨.ready (.error (.inner e)), s, [], rest⟩
    | .accept k :: rest => do
      let offered ← slice s.writePending s.writeOff s.writePending.length
      let n := min k offered.length
      if n = 0 then
        return ⟨.ready (.error .writeZero), s, [], rest⟩
      let later ← pollFlushPending { s with writeOff := s.writeOff + n } rest
      return { later with wire := offered.take n ++ later.wire }
  else some ⟨.ready (.ok ()), { s with writePending := [], writeOff := 0 }, [], script⟩

/-- The frame that `poll_write` makes of its buffer. -/
def sealFrame (aead : Aead) (s : NoiseStream) (buf : List UInt8) : NoiseStream :=
  let n := min buf.length maxPlaintext
  let (ciphertext, send) := s.send.encryptVec aead (buf.take n)
  { s with send, writePending := frame ciphertext, writeOff := 0 }

def pollWrite (aead : Aead) (s : NoiseStream) (buf : List UInt8) (script : List InnerWrite) :
    Option (Writing Nat) := do
  if buf.isEmpty then return ⟨.ready (.ok 0), s, [], script⟩
  let before ← s.pollFlushPending script
  match before.result with
  | .pending => return { before with result := .pending }
  | .ready (.error e) => return { before with result := .ready (.error e) }
  | .ready (.ok ()) =>
    let after ← (before.stream.sealFrame aead buf).pollFlushPending before.rest
    let wire := before.wire ++ after.wire
    match after.result with
    | .ready (.error e) => return ⟨.ready (.error e), after.stream, wire, after.rest⟩
    | _ => return ⟨.ready (.ok (min buf.length maxPlaintext)), after.stream, wire, after.rest⟩

/-- `poll_flush` and `poll_shutdown`, with the answer of the inner poll they end in. -/
def pollDrain (s : NoiseStream) (script : List InnerWrite) (last : InnerDone) :
    Option (Writing Unit) := do
  let before ← s.pollFlushPending script
  match before.result with
  | .ready (.ok ()) => return { before with result := last.poll }
  | _ => return before

def pollFlush := pollDrain
def pollShutdown := pollDrain

/-- What a part of `poll_read` leaves: the result if it returns, the stream, the
bytes taken from the inner stream, and the inner answers not asked for. -/
structure Reading (α : Type) where
  result : α
  stream : NoiseStream
  taken : List UInt8
  rest : List InnerRead

def pollFill (s : NoiseStream) (n : Nat) (script : List InnerRead) : Reading (PollResult Bool) :=
  if s.readRaw.length < n then
    match script with
    | [] => ⟨.pending, s, [], []⟩
    | .pending :: rest => ⟨.pending, s, [], rest⟩
    | .error e :: rest => ⟨.ready (.error (.inner e)), s, [], rest⟩
    | .filled bytes :: rest =>
      let filled := bytes.take fillCapacity
      if filled.isEmpty then ⟨.ready (.ok false), s, [], rest⟩
      else
        let later := pollFill { s with readRaw := s.readRaw ++ filled } n rest
        { later with taken := filled ++ later.taken }
  else ⟨.ready (.ok true), s, [], script⟩

/-- A result for a part that returns, `none` for one that goes on. -/
abbrev Exit := Option (PollResult (List UInt8))

/-- The part of `poll_read` that reads a frame's length. -/
def pollLength (s : NoiseStream) (script : List InnerRead) : Option (Reading Exit) := do
  if s.haveLen then return ⟨none, s, [], script⟩
  let fill := s.pollFill lenPrefix script
  match fill.result with
  | .pending => return { fill with result := some .pending }
  | .ready (.ok false) => return { fill with result := some (.ready (.ok [])) }
  | .ready (.error e) => return { fill with result := some (.ready (.error e)) }
  | .ready (.ok true) =>
    let len := (u16FromBE (← fill.stream.readRaw[0]?) (← fill.stream.readRaw[1]?)).toNat
    if ¬ (tagLen ≤ len ∧ len ≤ maxCiphertext) then
      return { fill with
        result := some (.ready (.error (.invalidData "invalid frame length"))) }
    return { fill with
      result := none
      stream := { fill.stream with readTarget := lenPrefix + len, haveLen := true } }

/-- The part of `poll_read` that reads and opens the frame. -/
def pollFrame (aead : Aead) (s : NoiseStream) (script : List InnerRead) :
    Option (Reading Exit) := do
  let fill := s.pollFill s.readTarget script
  match fill.result with
  | .pending => return { fill with result := some .pending }
  | .ready (.ok false) => return { fill with result := some (.ready (.error .unexpectedEof)) }
  | .ready (.error e) => return { fill with result := some (.ready (.error e)) }
  | .ready (.ok true) =>
    let s := fill.stream
    let ciphertext ← slice s.readRaw lenPrefix s.readTarget
    match s.recv.decryptVec aead ciphertext with
    | none =>
      return { fill with result := some (.ready (.error (.invalidData "decryption failed"))) }
    | some (plain, recv) =>
      let readRaw ← slice s.readRaw s.readTarget s.readRaw.length
      return { fill with
        result := none
        stream := { s with
          recv, readRaw, readPlain := plain, readOff := 0, haveLen := false, readTarget := 0 } }

/-- One pass of the loop of `poll_read`, into a buffer with room for `remaining`
bytes; an `Ok` carries the bytes put there. -/
def pollReadPass (aead : Aead) (s : NoiseStream) (remaining : Nat) (script : List InnerRead) :
    Option (Reading Exit) := do
  if s.readOff < s.readPlain.length then
    let n := min (s.readPlain.length - s.readOff) remaining
    let out ← slice s.readPlain s.readOff (s.readOff + n)
    return ⟨some (.ready (.ok out)), { s with readOff := s.readOff + n }, [], script⟩
  let head ← s.pollLength script
  match head.result with
  | some _ => return head
  | none =>
    let body ← head.stream.pollFrame aead head.rest
    return { body with taken := head.taken ++ body.taken }

/-- The loop; running out of `fuel` never happens, see `pollRead_total`. -/
def pollReadLoop (aead : Aead) (remaining : Nat) :
    Nat → NoiseStream → List InnerRead → Option (Reading (PollResult (List UInt8)))
  | 0, _, _ => none
  | fuel + 1, s, script => do
    let pass ← s.pollReadPass aead remaining script
    match pass.result with
    | some result => return { pass with result }
    | none =>
      let later ← pollReadLoop aead remaining fuel pass.stream pass.rest
      return { later with taken := pass.taken ++ later.taken }

/-- All that the inner stream can hand out during the poll. -/
def scriptBytes (script : List InnerRead) : List UInt8 :=
  script.flatMap fun
    | .filled bytes => bytes.take fillCapacity
    | _ => []

/-- A pass that does not return consumes a frame, so this many passes suffice. -/
def pollRead (aead : Aead) (s : NoiseStream) (remaining : Nat) (script : List InnerRead) :
    Option (Reading (PollResult (List UInt8))) :=
  pollReadLoop aead remaining (s.readRaw.length + (scriptBytes script).length + 1) s script

end NoiseStream
end HyperionVpn
