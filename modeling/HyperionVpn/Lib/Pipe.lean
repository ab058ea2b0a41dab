import Mathlib

/-! Reliable streams, first in first out, and the copying of one into another
through a buffer. What has been sent and received is kept, to be talked about. -/

structure Pipe (α : Type) where
  received : List α
  buffered : List α
  closed : Bool
  deriving DecidableEq, Repr

namespace Pipe

variable {α : Type}

def empty : Pipe α := ⟨[], [], false⟩

def sent (p : Pipe α) : List α := p.received ++ p.buffered

def write (p : Pipe α) (xs : List α) : Pipe α := { p with buffered := p.buffered ++ xs }

def close (p : Pipe α) : Pipe α := { p with closed := true }

/-- What a read into a buffer of this size yields. -/
def next (p : Pipe α) (n : Nat) : List α := p.buffered.take n

def read (p : Pipe α) (n : Nat) : Pipe α :=
  { p with received := p.received ++ p.next n, buffered := p.buffered.drop n }

/-- The reader has reached the end. -/
def ended (p : Pipe α) : Bool := p.buffered.isEmpty && p.closed

@[simp] theorem sent_empty : (empty : Pipe α).sent = [] := rfl

@[simp] theorem received_empty : (empty : Pipe α).received = [] := rfl

@[simp] theorem sent_write (p : Pipe α) (xs : List α) : (p.write xs).sent = p.sent ++ xs := by
  simp [sent, write]

@[simp] theorem received_write (p : Pipe α) (xs : List α) : (p.write xs).received = p.received := rfl

@[simp] theorem sent_close (p : Pipe α) : p.close.sent = p.sent := rfl

@[simp] theorem received_close (p : Pipe α) : p.close.received = p.received := rfl

@[simp] theorem sent_read (p : Pipe α) (n : Nat) : (p.read n).sent = p.sent := by
  simp [sent, read, next]

@[simp] theorem received_read (p : Pipe α) (n : Nat) :
    (p.read n).received = p.received ++ p.next n := rfl

theorem received_prefix (p : Pipe α) : p.received <+: p.sent := List.prefix_append _ _

end Pipe

/-- One direction of a copy. -/
structure Copy (α : Type) where
  buffer : List α
  eof : Bool
  deriving DecidableEq, Repr

namespace Copy

variable {α : Type}

inductive Op where
  | pull (n : Nat)
  | push (n : Nat)
  deriving DecidableEq, Repr

def start : Copy α := ⟨[], false⟩

/-- All is copied, and the end has been passed on. -/
def finished (c : Copy α) (target : Pipe α) : Bool := c.eof && c.buffer.isEmpty && target.closed

def copier (c : Copy α) (source : Pipe α) : Op → Copy α
  | .pull n => ⟨c.buffer ++ source.next n, c.eof || source.ended⟩
  | .push n => { c with buffer := c.buffer.drop n }

def source (p : Pipe α) : Op → Pipe α
  | .pull n => p.read n
  | .push _ => p

/-- With nothing left to copy the end is passed on. -/
def target (c : Copy α) (p : Pipe α) : Op → Pipe α
  | .pull _ => p
  | .push n => if c.eof && c.buffer.isEmpty then p.close else p.write (c.buffer.take n)

variable (c : Copy α) (from_ to_ : Pipe α) (op : Op)

@[simp] theorem sent_source : (source from_ op).sent = from_.sent := by
  cases op <;> simp [source]

@[simp] theorem received_target : (c.target to_ op).received = to_.received := by
  cases op with
  | pull n => rfl
  | push n =>
    unfold target
    dsimp only
    split <;> rfl

theorem received_source_prefix : from_.received <+: (source from_ op).received := by
  cases op with
  | pull n => exact List.prefix_append _ _
  | push n => exact List.prefix_rfl

theorem sent_target_prefix : to_.sent <+: (c.target to_ op).sent := by
  cases op with
  | pull n => exact List.prefix_rfl
  | push n =>
    unfold target
    dsimp only
    split
    · exact List.prefix_rfl
    · simp

/-- Whatever comes in goes out or stays in the buffer, in order. -/
theorem copied : ∃ xs, (source from_ op).received = from_.received ++ xs ∧
    (c.target to_ op).sent ++ (c.copier from_ op).buffer = to_.sent ++ c.buffer ++ xs := by
  cases op with
  | pull n => exact ⟨from_.next n, rfl, by simp [target, copier]⟩
  | push n =>
    refine ⟨[], by simp [source], ?_⟩
    unfold target copier
    dsimp only
    split <;> rename_i done
    · have empty : c.buffer = [] := by simpa using (Bool.and_eq_true_iff.mp done).2
      simp [empty]
    · simp

end Copy
