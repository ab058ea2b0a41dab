import HyperionVpn.Core.Connect

/-! The handshake between `connect` and `accept`, over a connection that takes and
hands out the bytes in pieces of any size, in any order of steps. -/
namespace HyperionVpn
open Bytes Framing Machine

/-- What the two ends are given, and the ephemeral secrets of this handshake. -/
structure HandshakeSetup where
  client : ClientHandshake
  server : ServerHandshake
  clientEphemeral : Vector UInt8 32
  serverEphemeral : Vector UInt8 32

/-- Both ends, the bytes between them, and what the user of each has sent once
its handshake was over. -/
structure Handshake (noise : HandshakeLibrary) where
  client : Connect noise
  server : Accept
  up : Pipe UInt8
  down : Pipe UInt8
  clientData : List UInt8
  serverData : List UInt8

namespace Handshake

inductive Event where
  | clientReads (n : Nat)
  | clientWrites (n : Nat)
  | clientFlushes
  | clientSends (bytes : List UInt8)
  | serverReads (n : Nat)
  | serverWrites (n : Nat)
  | serverFlushes
  | serverSends (bytes : List UInt8)
  deriving DecidableEq, Repr

/-- The events of the handshake itself. -/
def Event.shakes : Event → Bool
  | .clientSends _ | .serverSends _ => false
  | _ => true

end Handshake

/-- `connect` returns no stream, and the connection has been dropped. -/
def Connect.failed {noise : HandshakeLibrary} (c : Connect noise) : Bool :=
  match c.phase with
  | .done (.error _) => true
  | _ => false

def Accept.failed (a : Accept) : Bool :=
  match a.phase with
  | .done (.error _) => true
  | _ => false

/-- The call of `read_handshake_msg` that `accept` is in. -/
def Accept.Phase.reading? : Accept.Phase → Option HandshakeReading
  | .readingLength got => some (.length got)
  | .readingMessage len got => some (.body len got)
  | .writing _ _ | .done _ => none

namespace Handshake

/-- A read of up to `k` bytes waits for some, or for the end that comes once the
other side has dropped the connection. -/
def Ready (p : Pipe UInt8) (dropped : Bool) (k : Nat) : Prop :=
  p.next k ≠ [] ∨ (p.buffered = [] ∧ dropped = true)

instance (p : Pipe UInt8) (dropped : Bool) (k : Nat) : Decidable (Ready p dropped k) :=
  inferInstanceAs (Decidable (_ ∨ _))

/-- A write to a connection that the other side has dropped. -/
def brokenPipe : IoError := ⟨.os 32, "Broken pipe (os error 32)"⟩

variable (noise : HandshakeLibrary) (s : HandshakeSetup)

def new : Handshake noise :=
  ⟨.new noise s.client s.clientEphemeral, .new, .empty, .empty, [], []⟩

variable {noise}

def clientRead (h : Handshake noise) (k : Nat) : Handshake noise :=
  { h with client := h.client.step (.read (h.down.next k)), down := h.down.read k }

def serverRead (h : Handshake noise) (k : Nat) : Handshake noise :=
  { h with
    server := h.server.step noise.toNoiseLibrary s.server (.read (h.up.next k) s.serverEphemeral)
    up := h.up.read k }

/-- An event that cannot happen has no result. -/
def step (h : Handshake noise) : Event → Option (Unit × Handshake noise)
  | .clientReads n =>
    match h.client.phase with
    | .reading _ r =>
      if Ready h.down h.server.failed (min n r.want) then some ((), h.clientRead (min n r.want))
      else none
    | _ => none
  | .clientWrites n =>
    match h.client.phase with
    | .writing _ rest =>
      if rest = [] ∨ n = 0 then none
      else if h.server.failed then
        some ((), { h with client := h.client.step (.fail brokenPipe) })
      else
        some ((), { h with client := h.client.step (.wrote n), up := h.up.write (rest.take n) })
    | _ => none
  | .clientFlushes =>
    match h.client.phase with
    | .writing _ [] => some ((), { h with client := h.client.step .flushed })
    | _ => none
  | .clientSends bytes =>
    match h.client.phase with
    | .done (.ok _) =>
      some ((), { h with up := h.up.write bytes, clientData := h.clientData ++ bytes })
    | _ => none
  | .serverReads n =>
    match h.server.phase.reading? with
    | some r =>
      if Ready h.up h.client.failed (min n r.want) then some ((), h.serverRead s (min n r.want))
      else none
    | none => none
  | .serverWrites n =>
    match h.server.phase with
    | .writing _ rest =>
      if rest = [] ∨ n = 0 then none
      else if h.client.failed then
        let server := h.server.step noise.toNoiseLibrary s.server (.fail brokenPipe)
        some ((), { h with server })
      else
        let server := h.server.step noise.toNoiseLibrary s.server (.wrote n)
        some ((), { h with server, down := h.down.write (rest.take n) })
    | _ => none
  | .serverFlushes =>
    match h.server.phase with
    | .writing _ [] =>
      some ((), { h with server := h.server.step noise.toNoiseLibrary s.server .flushed })
    | _ => none
  | .serverSends bytes =>
    match h.server.phase with
    | .done (.ok _) =>
      some ((), { h with down := h.down.write bytes, serverData := h.serverData ++ bytes })
    | _ => none

/-! The exchange as it is meant: two messages, each handed over whole. -/

/-- What the server makes of the first message. -/
def answer (noise : HandshakeLibrary) (s : HandshakeSetup) (msg1 : List UInt8) :
    Except Error Accept.Answer :=
  if HandshakeReading.Fits msg1 then
    Accept.respond noise.toNoiseLibrary s.server s.serverEphemeral msg1
  else .error HandshakeReading.invalidLength

/-- What the client makes of the server's answer. -/
def clientResult (state : noise.HandshakeState) : Except Error Accept.Answer →
    Except Error NoiseStream
  | .error _ => .error HandleStream.earlyEof
  | .ok a =>
    if HandshakeReading.Fits a.msg2 then Connect.lastMessage state a.msg2
    else .error HandshakeReading.invalidLength

def serverResult : Except Error Accept.Answer → Except Error (NoiseStream × PublicKey)
  | .error e => .error e
  | .ok a =>
    if !a.completed then .error .handshake
    else .ok (.new a.responderToInitiator a.initiatorToResponder, a.admin)

def exchange (noise : HandshakeLibrary) (s : HandshakeSetup) :
    Except Error NoiseStream × Except Error (NoiseStream × PublicKey) :=
  match Connect.firstMessage noise s.client s.clientEphemeral with
  | .error e => (.error e, .error HandleStream.earlyEof)
  | .ok (msg1, state) =>
    (clientResult state (answer noise s msg1), serverResult (answer noise s msg1))

end Handshake
end HyperionVpn
