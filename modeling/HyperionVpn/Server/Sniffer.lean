import HyperionVpn.Core.KnockHistory
import HyperionVpn.Core.Packet
import HyperionVpn.Server.Firewall

/-! The knock sniffer: one pass of its receive loop, as a step over the knock
verifier and the table of recent firewall openings. -/
namespace HyperionVpn
open Net Word Packet

/-- The arguments of `run_blocking`. -/
structure SnifferConfig where
  knockPort : UInt16
  tunnelPort : UInt16
  psk : Psk
  serverPub : PublicKey
  windowSecs : UInt64
  allowCooldownSecs : UInt64
  firewall : Firewall

namespace Sniffer

def recentAllowCap : Nat := 4096

inductive Received where
  | failed (error : IoError)
  | frame (bytes : List UInt8)
  deriving Repr

/-- What the outside contributes to one pass of the loop. -/
structure Tick where
  received : Received
  now : UInt64
  nft : List String → Spawned

inductive Decision where
  | rejected (error : Error)
  | otherPort (knock : Knock)
  | cooling (knock : Knock)
  | allowed (knock : Knock)
  | allowFailed (knock : Knock) (error : IoError)
  deriving Repr

/-- `knock` records the payload handed to the verifier. -/
inductive Outcome where
  | skipped
  | knock (src : Ipv4Addr) (payload : List UInt8) (decision : Decision)
  deriving Repr

end Sniffer

open Sniffer Knock

structure Sniffer where
  verifier : KnockVerifier
  recentAllows : KeyMap Ipv4Addr UInt64

namespace Sniffer

variable (crypto : Crypto) (config : SnifferConfig)

def new : Sniffer := ⟨KnockVerifier.new crypto config.psk config.serverPub config.windowSecs, ∅⟩

/-- An allow at time `t` is within the cooldown at `now`. -/
def recent (now t : UInt64) : Bool := decide (saturatingSub now t < config.allowCooldownSecs)

/-- A full table first loses the sources that are past their cooldown. -/
def makeRoom (recentAllows : KeyMap Ipv4Addr UInt64) (now : UInt64) : KeyMap Ipv4Addr UInt64 :=
  if recentAllowCap ≤ recentAllows.size then recentAllows.retain (recent config now)
  else recentAllows

/-- The loop's body from the tunnel-port check on, for an accepted knock. -/
def grant (recentAllows : KeyMap Ipv4Addr UInt64) (src : Ipv4Addr) (k : Knock) (tick : Tick) :
    Decision × KeyMap Ipv4Addr UInt64 :=
  if k.tunnelPort ≠ config.tunnelPort then (.otherPort k, recentAllows)
  else if (recentAllows.lookup src).any (recent config tick.now) then (.cooling k, recentAllows)
  else
    let recentAllows := makeRoom config recentAllows tick.now
    match config.firewall.allow src tick.nft with
    | .ok () => (.allowed k, recentAllows.insert src tick.now)
    | .error e => (.allowFailed k e, recentAllows)

/-- One pass of the loop of `run_blocking`. -/
def iterate (s : Sniffer) (tick : Tick) : Option (Outcome × Sniffer) := do
  let .frame frame := tick.received | return (.skipped, s)
  if frame.length = 0 then return (.skipped, s)
  match ← parseEthernetIpv4Udp frame with
  | none => return (.skipped, s)
  | some (src, dstPort, payload) =>
    if dstPort ≠ config.knockPort ∨ payload.length ≠ packetLen then return (.skipped, s)
    let (opened, verifier) ← s.verifier.openKnock crypto payload tick.now
    match opened with
    | .error e => return (.knock src payload (.rejected e), { s with verifier })
    | .ok k =>
      let (decision, recentAllows) := grant config s.recentAllows src k tick
      return (.knock src payload decision, ⟨verifier, recentAllows⟩)

end Sniffer
end HyperionVpn
