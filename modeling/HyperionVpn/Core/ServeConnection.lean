import HyperionVpn.Core.Accept
import HyperionVpn.Core.Mux
import HyperionVpn.Core.NoiseReading
import HyperionVpn.Lib.Interleaving
import HyperionVpn.Lib.SocketAddr

/-! The server's connections. On each of them run the handshake, the driver, the
accept loop and a handler for every stream; a step is one step of one of these,
or of the peer or a target, on any connection. -/
namespace HyperionVpn
open Net

/-- What a peer has done on a yamux connection, by what has been read from the
socket: the streams that it has opened, and what it has sent on each. -/
structure Yamux where
  streams : List UInt8 → List MuxStream
  data : List UInt8 → MuxStream → List UInt8
  streams_nil : streams [] = []
  streams_mono : ∀ {a b : List UInt8}, a <+: b → streams a <+: streams b
  data_mono : ∀ {a b : List UInt8} (s : MuxStream), a <+: b → data a s <+: data b s

structure ServerConfig extends ServerHandshake where
  egress : Egress

/-- A spawned `handle_stream`, with what its dial has come to. -/
structure Handler where
  stream : MuxStream
  task : HandleStream
  outcome : Option Bool

namespace Handler

def new (stream : MuxStream) : Handler := ⟨stream, .new, none⟩

def step (egress : Egress) (h : Handler) (e : HandleStream.Event) :
    Option (Option UInt16 × Handler) := do
  let (dialed, task) ← h.task.step egress e
  let outcome :=
    match h.task.phase, e with
    | .dialing _, .dialed connected => some connected
    | _, _ => h.outcome
  return (dialed, { h with task, outcome })

/-- At most `n` more bytes of those that the peer has sent reach the stream. -/
def deliver (h : Handler) (sent : List UInt8) (n : Nat) : Handler :=
  { h with task := { h.task with
      streamIn := h.task.streamIn.write ((sent.drop h.task.streamIn.sent.length).take n) } }

def hangUp (h : Handler) : Handler :=
  { h with task := { h.task with streamIn := h.task.streamIn.close } }

def target (h : Handler) (bytes : List UInt8) : Handler :=
  { h with task := { h.task with targetIn := h.task.targetIn.write bytes } }

def targetClose (h : Handler) : Handler :=
  { h with task := { h.task with targetIn := h.task.targetIn.close } }

end Handler

namespace Connection

inductive Phase where
  | accepting
  | serving (stream : NoiseStream)
  | finished (result : Except Error Unit)

/-- `read` to `shutdown` are the calls that yamux makes of its socket, and
`inbound` is what it has for the driver. -/
inductive Event where
  | handshake (event : Accept.Event)
  | timeout
  | read (remaining : Nat) (script : List InnerRead)
  | write (buf : List UInt8) (script : List InnerWrite)
  | flush (script : List InnerWrite) (last : InnerDone)
  | shutdown (script : List InnerWrite) (last : InnerDone)
  | drive (inbound : Poll (Option (Except String MuxStream)))
  | accept
  | handler (k : Nat) (event : HandleStream.Event)
  | deliver (k n : Nat)
  | hangUp (k : Nat)
  | target (k : Nat) (bytes : List UInt8)
  | targetClose (k : Nat)

/-- A TCP connection that a handler starts. -/
structure Dial where
  handler : Nat
  address : SocketAddr
  deriving DecidableEq

end Connection

open Connection

/-- `received` are the bytes that the transport has taken from the socket,
`plaintext` those that yamux has read from it, and `out` those that the
transport has sent. The handlers are in the order of the accept loop. -/
structure Connection where
  phase : Connection.Phase
  accept : Accept
  mux : Mux
  handlers : List Handler
  received : List UInt8
  plaintext : List UInt8
  out : List UInt8

namespace Connection

def new : Connection := ⟨.accepting, .new, .server, [], [], [], []⟩

/-- All that the peer has been sent. -/
def sent (c : Connection) : List UInt8 := c.accept.out ++ c.out

def loopback (port : UInt16) : SocketAddr := .v4 ⟨127, 0, 0, 1⟩ port

variable (noise : NoiseLibrary) (yamux : Yamux) (aead : Aead) (config : ServerConfig)

/-- `accept` under its timeout, and the session once it returns. -/
def whileAccepting (c : Connection) : Event → Connection
  | .handshake e =>
    let accept := c.accept.step noise config.toServerHandshake e
    { c with
      accept
      phase :=
        match accept.phase with
        | .done (.ok (stream, _)) => .serving stream
        | .done (.error e) => .finished (.error e)
        | _ => .accepting }
  | .timeout => { c with phase := .finished (.error .handshake) }
  | _ => c

/-- The driver forwards only streams that the peer has opened, each once. -/
def offers (c : Connection) : Poll (Option (Except String MuxStream)) → Bool
  | .ready (some (.ok s)) => decide (s ∈ yamux.streams c.plaintext ∧ s ∉ c.mux.inbox)
  | _ => true

/-- With the driver the accept loop ends, and the session is dropped. -/
def drive (c : Connection) (inbound : Poll (Option (Except String MuxStream))) : Connection :=
  let mux := (c.mux.drive .pending inbound true).2
  { c with
    mux
    phase :=
      match mux.phase with
      | .finished _ => .finished (.ok ())
      | _ => c.phase }

/-- The accept loop spawns a handler for the next stream. -/
def spawn (c : Connection) : Connection :=
  match c.mux.inbox[c.handlers.length]? with
  | some stream => { c with handlers := c.handlers ++ [.new stream] }
  | none => c

def whileServing (c : Connection) (stream : NoiseStream) : Event → Option Connection
  | .read remaining script => do
    let r ← stream.pollRead aead remaining script
    return { c with
      phase := .serving r.stream
      received := c.received ++ r.taken
      plaintext := c.plaintext ++ NoiseStream.outOf r.result }
  | .write buf script => do
    let w ← stream.pollWrite aead buf script
    return { c with phase := .serving w.stream, out := c.out ++ w.wire }
  | .flush script last => do
    let w ← stream.pollFlush script last
    return { c with phase := .serving w.stream, out := c.out ++ w.wire }
  | .shutdown script last => do
    let w ← stream.pollShutdown script last
    return { c with phase := .serving w.stream, out := c.out ++ w.wire }
  | .drive inbound => some (if c.offers yamux inbound then c.drive inbound else c)
  | .accept => some c.spawn
  | _ => some c

/-- `serve_connection`. -/
def serve (c : Connection) (e : Event) : Option Connection :=
  match c.phase with
  | .accepting => some (c.whileAccepting noise config e)
  | .serving stream => c.whileServing yamux aead stream e
  | .finished _ => some c

def setHandler (c : Connection) (k : Nat) (h : Handler) : Connection :=
  { c with handlers := c.handlers.set k h }

/-- The handlers run whether or not the connection is still served. -/
def onHandler (c : Connection) (k : Nat) (h : Handler) : Event → Option (Option Dial × Connection)
  | .handler _ e => do
    let (dialed, h) ← h.step config.egress e
    return (dialed.map fun port => ⟨k, loopback port⟩, c.setHandler k h)
  | .deliver _ n => some (none, c.setHandler k (h.deliver (yamux.data c.plaintext h.stream) n))
  | .hangUp _ => some (none, c.setHandler k h.hangUp)
  | .target _ bytes => some (none, c.setHandler k (h.target bytes))
  | .targetClose _ => some (none, c.setHandler k h.targetClose)
  | _ => some (none, c)

def Event.handler? : Event → Option Nat
  | .handler k _ | .deliver k _ | .hangUp k | .target k _ | .targetClose k => some k
  | _ => none

def step (c : Connection) (e : Event) : Option (Option Dial × Connection) :=
  match e.handler? with
  | none => (c.serve noise yamux aead config e).map fun c => (none, c)
  | some k =>
    match c.handlers[k]? with
    | none => some (none, c)
    | some h => c.onHandler yamux config k h e

/-- The listener's loop serves every connection in a task of its own. -/
def serveAll : (Nat → Connection) → Nat × Event → Option (Option Dial × (Nat → Connection)) :=
  Machine.each (step noise yamux aead config)

end Connection
end HyperionVpn
