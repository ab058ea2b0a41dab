import HyperionVpn.Core.Error
import HyperionVpn.Lib.Ipv4
import HyperionVpn.Lib.KeyMap

/-! The firewall handle of single-packet authorization: the nft command that it
runs, and the timed set of admitted sources that the command writes to. -/
namespace HyperionVpn
open Net

structure Firewall where
  table : String
  set : String
  ttlSecs : UInt64
  deriving Repr

def Firewall.addElementArgs (fw : Firewall) (ip : Ipv4Addr) : List String :=
  ["add", "element", "inet", fw.table, fw.set,
    "\x7b " ++ ip.display ++ " timeout " ++ toString fw.ttlSecs.toNat ++ "s \x7d"]

/-- What starting `nft` and waiting for it returns. -/
inductive Spawned where
  | failed (error : IoError)
  | exited (success : Bool) (status : String)
  deriving Repr

/-- `nft` maps the arguments of a command to how it went. -/
def Firewall.allow (fw : Firewall) (ip : Ipv4Addr) (nft : List String → Spawned) :
    Except IoError Unit :=
  match nft (fw.addElementArgs ip) with
  | .failed e => .error e
  | .exited true _ => .ok ()
  | .exited false status => .error ⟨.other, "nft exited with " ++ status⟩

/-- A set with `flags timeout`: each source with the second it expires at. -/
abbrev NftSet := KeyMap Ipv4Addr Nat

/-- Adding a source that is still present succeeds and changes nothing; an
expired one is added afresh. -/
def NftSet.add (set : NftSet) (ip : Ipv4Addr) (now ttl : Nat) : NftSet :=
  if (set.lookup ip).any (fun expiry => decide (now < expiry)) then set
  else set.insert ip (now + ttl)

def NftSet.Contains (set : NftSet) (ip : Ipv4Addr) (now : Nat) : Prop :=
  ∃ expiry, set.lookup ip = some expiry ∧ now < expiry

namespace NftSet

variable {set : NftSet} {ip other : Ipv4Addr} {now ttl expiry : Nat}

theorem lookup_add_of_ne (h : other ≠ ip) :
    (set.add ip now ttl).lookup other = set.lookup other := by
  unfold add
  split
  · rfl
  · exact AList.lookup_insert_ne h

theorem lookup_add_present (found : set.lookup ip = some expiry) (present : now < expiry) :
    (set.add ip now ttl).lookup ip = some expiry := by
  rw [add, if_pos (by simp [found, present]), found]

theorem lookup_add_absent (absent : ∀ expiry, set.lookup ip = some expiry → expiry ≤ now) :
    (set.add ip now ttl).lookup ip = some (now + ttl) := by
  rw [add, if_neg, AList.lookup_insert]
  cases found : set.lookup ip with
  | none => simp
  | some expiry => simpa using absent expiry found

/-- An addition never shortens the stay of any source. -/
theorem lookup_add_le (found : set.lookup other = some expiry) :
    ∃ later, (set.add ip now ttl).lookup other = some later ∧ expiry ≤ later := by
  by_cases same : other = ip
  · subst same
    by_cases present : now < expiry
    · exact ⟨expiry, lookup_add_present found present, le_rfl⟩
    · refine ⟨now + ttl, lookup_add_absent (fun e he => ?_), by omega⟩
      cases found.symm.trans he
      omega
  · exact ⟨expiry, (lookup_add_of_ne same).trans found, le_rfl⟩

end NftSet
end HyperionVpn
