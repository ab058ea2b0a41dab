import HyperionVpn.Server.FirewallWindow
import HyperionVpn.Server.Ruleset

/-! Single-packet authorization as a whole: the sniffer, its `nft`, and the kernel's
tables, into which the base ruleset was loaded. -/
namespace HyperionVpn
open Net Knock Machine Sniffer Nftables

/-- How a start of `nft` goes wrong for reasons of its own. -/
inductive Refusal where
  | failed (error : IoError)
  | exited (status : String)
  deriving Repr

def Refusal.spawned : Refusal → Spawned
  | .failed error => .failed error
  | .exited status => .exited false status

/-- What one pass of the sniffer's loop gets. -/
structure Arrival where
  received : Received
  now : UInt64
  refusal : Option Refusal

structure Spa where
  sniffer : Sniffer
  kernel : Kernel NftSet

namespace Spa

/-- A command of `nft` at that second. -/
def nftAt (now : UInt64) (text : String) (kernel : Kernel NftSet) : Option (Kernel NftSet) :=
  nft ∅ (fun set ip ttl => NftSet.add set ip now.toNat ttl) text kernel

/-- `nft` with these arguments, which it puts together. -/
def spawn (e : Arrival) (kernel : Kernel NftSet) (args : List String) : Spawned × Kernel NftSet :=
  match e.refusal with
  | some refusal => (refusal.spawned, kernel)
  | none =>
    match nftAt e.now (" ".intercalate args) kernel with
    | some kernel => (.exited true "exit status: 0", kernel)
    | none => (.exited false "exit status: 1", kernel)

def tick (e : Arrival) (kernel : Kernel NftSet) : Tick :=
  ⟨e.received, e.now, fun args => (spawn e kernel args).1⟩

variable (crypto : Crypto) (k : KnockRuntime)

/-- A pass of the sniffer, with what its `nft` does to the tables. -/
def step (s : Spa) (e : Arrival) : Option (Outcome × Spa) := do
  let (out, sniffer) ← iterate crypto (startSpa k) s.sniffer (tick e s.kernel)
  match out with
  | .knock src _ (.allowed _) | .knock src _ (.allowFailed _ _) =>
    return (out, ⟨sniffer, (spawn e s.kernel ((startSpa k).firewall.addElementArgs src)).2⟩)
  | _ => return (out, ⟨sniffer, s.kernel⟩)

abbrev Trace := List (Arrival × Outcome)

/-- The daemon, over tables that the base ruleset of its config was loaded into. -/
def start (loadedAt : UInt64) (kernel : Kernel NftSet) : Option Spa :=
  (nftAt loadedAt (baseRuleset k.table k.set k.tunnelPort) kernel).map fun kernel =>
    ⟨Sniffer.new crypto (startSpa k), kernel⟩

/-- Whether the tables let a packet in at that moment. -/
def Admits (kernel : Kernel NftSet) (now : Nat) (p : Incoming) : Prop :=
  kernel.Admits (fun set ip => set.Contains ip now) "input" p

/-- What the config has to be for nft to take it as it is meant. -/
structure Usable (k : KnockRuntime) : Prop where
  table : Plain k.table
  set : Plain k.set
  /-- A stay of no time would be one without an end. -/
  ttl : 0 < k.ttlSecs.toNat

end Spa
end HyperionVpn
