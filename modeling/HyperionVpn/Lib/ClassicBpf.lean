import HyperionVpn.Lib.Bytes

/-! The classic packet filter: an accumulator, an index register and forward
jumps, over the bytes of one packet. Its answer is how many bytes of the packet
to keep, so zero drops it, as does a load outside the packet. -/
namespace ClassicBpf
open Bytes

/-- An instruction as it is encoded. -/
structure Filter where
  code : UInt16
  jt : UInt8
  jf : UInt8
  k : UInt32
  deriving DecidableEq, Repr

inductive Cond where
  | eq | gt | ge | set
  deriving DecidableEq, Repr

def Cond.test : Cond → UInt32 → UInt32 → Bool
  | .eq, a, k => a = k
  | .gt, a, k => k < a
  | .ge, a, k => k ≤ a
  | .set, a, k => a &&& k ≠ 0

inductive Insn where
  | ldAbs (size : Nat) (k : UInt32)
  | ldInd (size : Nat) (k : UInt32)
  | ldxMsh (k : UInt32)
  | jmp (cond : Cond) (jt jf : Nat) (k : UInt32)
  | ret (k : UInt32)
  deriving DecidableEq, Repr

/-- The instructions with an immediate operand. -/
def Filter.decode (f : Filter) : Option Insn :=
  match f.code with
  | 0x20 => some (.ldAbs 4 f.k)
  | 0x28 => some (.ldAbs 2 f.k)
  | 0x30 => some (.ldAbs 1 f.k)
  | 0x40 => some (.ldInd 4 f.k)
  | 0x48 => some (.ldInd 2 f.k)
  | 0x50 => some (.ldInd 1 f.k)
  | 0xb1 => some (.ldxMsh f.k)
  | 0x15 => some (.jmp .eq f.jt.toNat f.jf.toNat f.k)
  | 0x25 => some (.jmp .gt f.jt.toNat f.jf.toNat f.k)
  | 0x35 => some (.jmp .ge f.jt.toNat f.jf.toNat f.k)
  | 0x45 => some (.jmp .set f.jt.toNat f.jf.toNat f.k)
  | 0x06 => some (.ret f.k)
  | _ => none

def load (packet : List UInt8) (offset : UInt32) (size : Nat) : Option UInt32 :=
  (slice packet offset.toNat (offset.toNat + size)).map fun bytes => UInt32.ofNat (ofBE bytes)

/-- Runs a program from its first instruction that is not skipped. -/
def exec (packet : List UInt8) : List Filter → Nat → UInt32 → UInt32 → UInt32
  | [], _, _, _ => 0
  | _ :: rest, skip + 1, a, x => exec packet rest skip a x
  | f :: rest, 0, a, x =>
    match f.decode with
    | none => 0
    | some (.ldAbs size k) => (load packet k size).elim 0 fun a => exec packet rest 0 a x
    | some (.ldInd size k) => (load packet (x + k) size).elim 0 fun a => exec packet rest 0 a x
    | some (.ldxMsh k) => packet[k.toNat]?.elim 0 fun byte =>
        exec packet rest 0 a ((byte &&& 0xf).toUInt32 * 4)
    | some (.jmp cond jt jf k) => exec packet rest (if cond.test a k then jt else jf) a x
    | some (.ret k) => k

def run (program : List Filter) (packet : List UInt8) : UInt32 := exec packet program 0 0 0

theorem exec_skip (packet : List UInt8) (program : List Filter) (skip : Nat) (a x : UInt32) :
    exec packet program skip a x = exec packet (program.drop skip) 0 a x := by
  induction program generalizing skip with
  | nil => simp [exec]
  | cons f rest ih =>
    cases skip with
    | zero => rfl
    | succ skip => exact ih skip

/-- A branch goes on behind what it skips. -/
theorem exec_branch (packet : List UInt8) (program : List Filter) (taken : Bool) (jt jf : Nat)
    (a x : UInt32) : exec packet program (if taken then jt else jf) a x =
      if taken then exec packet (program.drop jt) 0 a x
      else exec packet (program.drop jf) 0 a x := by
  rw [exec_skip]
  cases taken <;> rfl

/-! A program that keeps something has passed its loads and tests. -/

theorem elim_eq {v : UInt32} (kept : v ≠ 0) {o : Option α} {f : α → UInt32} :
    o.elim 0 f = v ↔ ∃ a, o = some a ∧ f a = v := by
  cases o <;> simp [kept.symm]

theorem ite_eq {v w : UInt32} (kept : v ≠ 0) {p : Prop} [Decidable p] :
    (if p then w else 0) = v ↔ p ∧ w = v := by
  split <;> rename_i h <;> simp [h, kept.symm]

/-- A halfword, as the packet's fields are read. -/
theorem load_two (packet : List UInt8) (offset : UInt32) :
    load packet offset 2 = (be16At packet offset.toNat).map UInt16.toUInt32 := by
  have value (hi lo : UInt8) : UInt32.ofNat (ofBE [hi, lo]) = (u16FromBE hi lo).toUInt32 := by
    have bound := ofBE_lt [hi, lo]
    simp only [List.length_cons, List.length_nil, Nat.reduceAdd, Nat.reducePow] at bound
    rw [← UInt32.toNat_inj, UInt16.toNat_toUInt32, u16FromBE, UInt16.toNat_ofNat',
      UInt32.toNat_ofNat']
    omega
  rw [load, slice_two, be16At]
  cases packet[offset.toNat]? with
  | none => rfl
  | some hi =>
    cases packet[offset.toNat + 1]? with
    | none => rfl
    | some lo => simp [value]

theorem load_one (packet : List UInt8) (offset : UInt32) :
    load packet offset 1 = packet[offset.toNat]?.map UInt8.toUInt32 := by
  have value (byte : UInt8) : UInt32.ofNat (ofBE [byte]) = byte.toUInt32 := by
    rw [← UInt32.toNat_inj, UInt8.toNat_toUInt32, ofBE_cons]
    simp [ofBE]
  rw [load, slice_one]
  cases packet[offset.toNat]? with
  | none => rfl
  | some byte => simp [value]

end ClassicBpf
