import HyperionVpn.Core.HandleStream

/-! One forwarded connection, from the local application through the client, a
stream of the multiplexed connection and the server to the target. A step is
one completed wait of either side, or of the application or the target. -/
namespace HyperionVpn

namespace Tunnel

/-- Where `forward_one` stands. -/
inductive Phase where
  | opening
  | requesting (rest : List UInt8)
  | awaiting
  | relaying (up down : Copy UInt8)
  | finished (result : Except Error Unit)
  deriving DecidableEq

/-- `up` is the direction from the application to the stream. -/
inductive Event where
  | opened (result : Except Error Unit)
  | wrote (n : Nat)
  | flushed
  | read
  | timeout
  | copy (up : Bool) (op : Copy.Op)
  | copied
  | fail (error : IoError)
  | handler (event : HandleStream.Event)
  | app (bytes : List UInt8)
  | appClose
  | target (bytes : List UInt8)
  | targetClose

end Tunnel

open Tunnel

/-- The client writes to the handler's `streamIn` and reads its `streamOut`. -/
structure Tunnel where
  phase : Tunnel.Phase
  localIn : Pipe UInt8
  localOut : Pipe UInt8
  handler : HandleStream

namespace Tunnel

def new : Tunnel := ⟨.opening, .empty, .empty, .new⟩

def withStreamIn (t : Tunnel) (streamIn : Pipe UInt8) : Tunnel :=
  { t with handler := { t.handler with streamIn } }

def withStreamOut (t : Tunnel) (streamOut : Pipe UInt8) : Tunnel :=
  { t with handler := { t.handler with streamOut } }

/-- `forward_one` returns, and drops the stream and the local connection. -/
def finish (t : Tunnel) (result : Except Error Unit) : Tunnel :=
  { t.withStreamIn t.handler.streamIn.close with
    phase := .finished result
    localOut := t.localOut.close }

def timedOut (port : UInt16) : Error :=
  .protocol ("connect to port " ++ toString port.toNat ++ " timed out")

/-- What `forward_one` does on the server's response. -/
def onResponse (port : UInt16) (t : Tunnel) : Except Error ConnectResponse → Tunnel
  | .ok .ok => { t with phase := .relaying .start .start }
  | .ok .denied => t.finish (.error (.egressDenied ("port " ++ toString port.toNat)))
  | .ok .unreachable =>
    t.finish (.error (.protocol ("port " ++ toString port.toNat ++ " unreachable")))
  | .error e => t.finish (.error e)

/-- `read_connect_response`, and what follows it. -/
def readResponse (port : UInt16) (t : Tunnel) : Tunnel :=
  match t.handler.streamOut.buffered with
  | code :: _ =>
    (t.withStreamOut (t.handler.streamOut.read 1)).onResponse port (ConnectResponse.fromCode code)
  | [] => if t.handler.streamOut.closed then t.finish (.error HandleStream.earlyEof) else t

def whileOpening (port : UInt16) (t : Tunnel) : Event → Tunnel
  | .opened (.ok ()) => { t with phase := .requesting (ConnectRequest.bytes ⟨port⟩) }
  | .opened (.error e) => t.finish (.error e)
  | _ => t

/-- `write_connect_request`. -/
def whileRequesting (port : UInt16) (t : Tunnel) (rest : List UInt8) : Event → Tunnel
  | .wrote n =>
    if rest = [] then t
    else if n = 0 then t.finish (.error HandleStream.writeZero)
    else { t.withStreamIn (t.handler.streamIn.write (rest.take n)) with
      phase := .requesting (rest.drop n) }
  | .flushed => if rest ≠ [] then t else { t with phase := .awaiting }
  | .fail e => t.finish (.error (.io e))
  | .timeout => t.finish (.error (timedOut port))
  | _ => t

def whileAwaiting (port : UInt16) (t : Tunnel) : Event → Tunnel
  | .read => t.readResponse port
  | .fail e => t.finish (.error (.io e))
  | .timeout => t.finish (.error (timedOut port))
  | _ => t

/-- `copy_bidirectional` between the application and the stream. -/
def relay (t : Tunnel) (up down : Copy UInt8) : Bool → Copy.Op → Tunnel
  | true, op => { t.withStreamIn (up.target t.handler.streamIn op) with
      phase := .relaying (up.copier t.localIn op) down
      localIn := Copy.source t.localIn op }
  | false, op => { t.withStreamOut (Copy.source t.handler.streamOut op) with
      phase := .relaying up (down.copier t.handler.streamOut op)
      localOut := down.target t.localOut op }

/-- How the copying ends makes no difference to the client. -/
def whileRelaying (t : Tunnel) (up down : Copy UInt8) : Event → Tunnel
  | .copy direction op => t.relay up down direction op
  | .copied =>
    if up.finished t.handler.streamIn && down.finished t.localOut then t.finish (.ok ()) else t
  | .fail _ => t.finish (.ok ())
  | _ => t

/-- `forward_one`. -/
def forward (port : UInt16) (t : Tunnel) (e : Event) : Tunnel :=
  match t.phase with
  | .opening => t.whileOpening port e
  | .requesting rest => t.whileRequesting port rest e
  | .awaiting => t.whileAwaiting port e
  | .relaying up down => t.whileRelaying up down e
  | .finished _ => t

/-- One step of the whole tunnel, with the port that the handler dials. -/
def step (port : UInt16) (egress : Egress) (t : Tunnel) : Event → Option (Option UInt16 × Tunnel)
  | .handler e => do
    let (dialed, handler) ← t.handler.step egress e
    return (dialed, { t with handler })
  | .app bytes => some (none, { t with localIn := t.localIn.write bytes })
  | .appClose => some (none, { t with localIn := t.localIn.close })
  | .target bytes =>
    some (none, { t with handler := { t.handler with targetIn := t.handler.targetIn.write bytes } })
  | .targetClose =>
    some (none, { t with handler := { t.handler with targetIn := t.handler.targetIn.close } })
  | e => some (none, t.forward port e)

end Tunnel
end HyperionVpn
