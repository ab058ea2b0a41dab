import HyperionVpn.Lib.Aead
import HyperionVpn.Lib.Bytes

/-! One direction of a transport: a key with the counter of the next message.
Both sides of a direction hold the same state and count in step, so messages
open only in the order in which they were sealed. -/

structure CipherState where
  key : Vector UInt8 32
  /-- Unbounded here; an implementation stops before its 64-bit counter repeats. -/
  n : Nat
  deriving DecidableEq

namespace CipherState

/-- Four zero bytes, then the counter in little-endian order. -/
def nonce (n : Nat) : Vector UInt8 12 :=
  ⟨(List.replicate 4 0 ++ (Bytes.toBE 8 n).reverse).toArray, by simp⟩

def advance (c : CipherState) (k : Nat) : CipherState := ⟨c.key, c.n + k⟩

def encryptVec (aead : Aead) (c : CipherState) (msg : List UInt8) : List UInt8 × CipherState :=
  (aead.encrypt c.key (nonce c.n) [] msg, c.advance 1)

/-- A failed decryption leaves the counter where it was. -/
def decryptVec (aead : Aead) (c : CipherState) (ciphertext : List UInt8) :
    Option (List UInt8 × CipherState) :=
  (aead.decrypt c.key (nonce c.n) [] ciphertext).map fun msg => (msg, c.advance 1)

/-- The ciphertexts of a sequence of messages. -/
def sealAll (aead : Aead) (c : CipherState) : List (List UInt8) → List (List UInt8)
  | [] => []
  | msg :: rest => (c.encryptVec aead msg).1 :: sealAll aead (c.advance 1) rest

variable {aead : Aead} {c : CipherState}

@[simp] theorem advance_zero (c : CipherState) : c.advance 0 = c := rfl

@[simp] theorem advance_advance (c : CipherState) (j k : Nat) :
    (c.advance j).advance k = c.advance (j + k) := by
  simp [advance, Nat.add_assoc]

@[simp] theorem encryptVec_length (msg : List UInt8) :
    (c.encryptVec aead msg).1.length = msg.length + 16 :=
  aead.encrypt_length ..

theorem decryptVec_eq_some {ciphertext msg : List UInt8} {c' : CipherState} :
    c.decryptVec aead ciphertext = some (msg, c') ↔
      ciphertext = (c.encryptVec aead msg).1 ∧ c' = c.advance 1 := by
  simp only [decryptVec, Option.map_eq_some_iff, aead.decrypt_eq_some, encryptVec, Prod.mk.injEq]
  constructor
  · rintro ⟨msg', same, rfl, rfl⟩
    exact ⟨same, rfl⟩
  · rintro ⟨same, rfl⟩
    exact ⟨msg, same, rfl, rfl⟩

theorem decryptVec_encryptVec (msg : List UInt8) :
    c.decryptVec aead (c.encryptVec aead msg).1 = some (msg, c.advance 1) :=
  decryptVec_eq_some.mpr ⟨rfl, rfl⟩

@[simp] theorem sealAll_nil : c.sealAll aead [] = [] := rfl

theorem sealAll_append (msgs more : List (List UInt8)) :
    c.sealAll aead (msgs ++ more) =
      c.sealAll aead msgs ++ (c.advance msgs.length).sealAll aead more := by
  induction msgs generalizing c with
  | nil => simp
  | cons msg rest ih => simp [sealAll, ih, Nat.add_comm 1]

theorem mem_sealAll_length {msgs : List (List UInt8)} {ciphertext : List UInt8}
    (member : ciphertext ∈ c.sealAll aead msgs) :
    ∃ msg ∈ msgs, ciphertext.length = msg.length + 16 := by
  induction msgs generalizing c with
  | nil => contradiction
  | cons msg rest ih =>
    rcases List.mem_cons.mp member with rfl | later
    · exact ⟨msg, by simp, encryptVec_length msg⟩
    · obtain ⟨msg', member', size⟩ := ih later
      exact ⟨msg', by simp [member'], size⟩

theorem sealAll_split {a b : List (List UInt8)} {rest : List (List UInt8)}
    (same : c.sealAll aead b = c.sealAll aead a ++ rest) :
    ∃ d, b = a ++ d ∧ rest = (c.advance a.length).sealAll aead d := by
  induction a generalizing b c with
  | nil => exact ⟨b, rfl, by simpa using same.symm⟩
  | cons msg a ih =>
    cases b with
    | nil => simp [sealAll] at same
    | cons msg' b =>
      simp only [sealAll, List.cons_append, List.cons.injEq] at same
      obtain ⟨d, rfl, rfl⟩ := ih same.2
      obtain rfl : msg' = msg := aead.encrypt_injective same.1
      exact ⟨d, rfl, by simp [Nat.add_comm 1]⟩

theorem getElem?_sealAll (msgs : List (List UInt8)) (i : Nat) :
    (c.sealAll aead msgs)[i]? = msgs[i]?.map fun msg => ((c.advance i).encryptVec aead msg).1 := by
  induction msgs generalizing c i with
  | nil => rfl
  | cons msg rest ih =>
    cases i with
    | zero => rfl
    | succ i => simp [sealAll, ih, Nat.add_comm 1]

end CipherState
