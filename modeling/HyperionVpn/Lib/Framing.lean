import HyperionVpn.Lib.Bytes

/-! Frames with a two-byte big-endian length, one after the other on a byte
stream, seen by a reader that holds only a beginning of the stream. -/
namespace Framing
open Bytes

/-- The prefix truncates a length that does not fit. -/
def frame (body : List UInt8) : List UInt8 := u16ToBE (UInt16.ofNat body.length) ++ body

def stream (bodies : List (List UInt8)) : List UInt8 := (bodies.map frame).flatten

@[simp] theorem frame_length (body : List UInt8) : (frame body).length = 2 + body.length := by
  simp [frame]

@[simp] theorem stream_nil : stream [] = [] := rfl

@[simp] theorem stream_cons (body : List UInt8) (rest : List (List UInt8)) :
    stream (body :: rest) = frame body ++ stream rest := rfl

theorem stream_append (a b : List (List UInt8)) : stream (a ++ b) = stream a ++ stream b := by
  simp [stream]

theorem body_infix {body : List UInt8} {bodies : List (List UInt8)} (member : body ∈ bodies) :
    body <:+: stream bodies := by
  obtain ⟨before, after, rfl⟩ := List.append_of_mem member
  refine ⟨stream before ++ u16ToBE (UInt16.ofNat body.length), stream after, ?_⟩
  rw [stream_append, stream_cons, frame]
  simp only [List.append_assoc]

/-- The first two bytes give the length of a body that fits. -/
theorem length_prefix {body held rest more : List UInt8} {a b : UInt8}
    (fits : body.length < 2 ^ 16) (same : a :: b :: held ++ rest = frame body ++ more) :
    (u16FromBE a b).toNat = body.length := by
  obtain ⟨x, y, h⟩ : ∃ x y, u16ToBE (UInt16.ofNat body.length) = [x, y] := ⟨_, _, rfl⟩
  rw [frame, h] at same
  obtain ⟨rfl, rfl⟩ : a = x ∧ b = y := by simp_all
  rw [u16FromBE_toBE h]
  exact UInt16.toNat_ofNat_of_lt fits

/-- A reader that holds a whole frame holds its body and a beginning of what follows. -/
theorem split_frame {body held rest more : List UInt8} (same : held ++ rest = frame body ++ more)
    (enough : 2 + body.length ≤ held.length) :
    (held.take (2 + body.length)).drop 2 = body ∧ held.drop (2 + body.length) ++ rest = more := by
  rw [← List.take_append_drop (2 + body.length) held, List.append_assoc] at same
  obtain ⟨front, back⟩ := List.append_inj same (by rw [frame_length, List.length_take]; omega)
  refine ⟨?_, back⟩
  rw [front, frame, List.drop_append_of_le_length (by simp)]
  simp

theorem frame_injective {a b x y : List UInt8} (ha : a.length < 2 ^ 16) (hb : b.length < 2 ^ 16)
    (same : frame a ++ x = frame b ++ y) : a = b ∧ x = y := by
  obtain ⟨p, q, h⟩ : ∃ p q, u16ToBE (UInt16.ofNat a.length) = [p, q] := ⟨_, _, rfl⟩
  have size : b.length = a.length := by
    have first : p :: q :: (a ++ x) ++ [] = frame b ++ y := by simpa [frame, h] using same
    rw [← length_prefix hb first, u16FromBE_toBE h]
    exact UInt16.toNat_ofNat_of_lt ha
  obtain ⟨front, back⟩ := List.append_inj same (by simp [size])
  exact ⟨(List.append_inj front (by simp)).2, back⟩

/-- A stream that begins with some frames continues with the others. -/
theorem stream_split {a b : List (List UInt8)} {x : List UInt8}
    (ha : ∀ body ∈ a, body.length < 2 ^ 16) (hb : ∀ body ∈ b, body.length < 2 ^ 16)
    (same : stream a ++ x = stream b) : ∃ rest, b = a ++ rest ∧ x = stream rest := by
  induction a generalizing b with
  | nil => exact ⟨b, rfl, same⟩
  | cons body a ih =>
    cases b with
    | nil =>
      have h := congrArg List.length same
      simp at h
    | cons body' b =>
      simp only [stream_cons, List.append_assoc] at same
      obtain ⟨rfl, tail⟩ := frame_injective (ha _ (by simp)) (hb _ (by simp)) same
      obtain ⟨rest, rfl, rfl⟩ :=
        ih (fun e he => ha e (by simp [he])) (fun e he => hb e (by simp [he])) tail
      exact ⟨rest, rfl, rfl⟩

end Framing
