import Mathlib

/-! Base64 in the standard alphabet. A text is canonical: it is padded to groups of
four, and no bit is set that no byte has, so each byte string has one text. -/
namespace Base64

def alphabet : List Char :=
  "ABCDEFGHIJKLMNOPQRSTUVWXYZabcdefghijklmnopqrstuvwxyz0123456789+/".toList

def symbol (n : Nat) : Char := alphabet.getD n '='

def value (c : Char) : Option Nat := if c ∈ alphabet then some (alphabet.idxOf c) else none

/-- Three bytes are four symbols, of six bits each. -/
def encodeChars : List UInt8 → List Char
  | [] => []
  | [a] => [symbol (a.toNat / 4), symbol (a.toNat % 4 * 16), '=', '=']
  | [a, b] =>
    [symbol (a.toNat / 4), symbol (a.toNat % 4 * 16 + b.toNat / 16), symbol (b.toNat % 16 * 4), '=']
  | a :: b :: c :: rest =>
    symbol (a.toNat / 4) :: symbol (a.toNat % 4 * 16 + b.toNat / 16) ::
      symbol (b.toNat % 16 * 4 + c.toNat / 64) :: symbol (c.toNat % 64) :: encodeChars rest

def first (w x : Nat) : UInt8 := .ofNat (w * 4 + x / 16)

def second (x y : Nat) : UInt8 := .ofNat (x % 16 * 16 + y / 4)

def third (y z : Nat) : UInt8 := .ofNat (y % 4 * 64 + z)

def decodeChars : List Char → Option (List UInt8)
  | [] => some []
  | [w, x, '=', '='] => do
    let w ← value w
    let x ← value x
    if x % 16 = 0 then some [first w x] else none
  | [w, x, y, '='] => do
    let w ← value w
    let x ← value x
    let y ← value y
    if y % 4 = 0 then some [first w x, second x y] else none
  | w :: x :: y :: z :: rest => do
    let w ← value w
    let x ← value x
    let y ← value y
    let z ← value z
    let bytes ← decodeChars rest
    return first w x :: second x y :: third y z :: bytes
  | _ => none

def encode (bytes : List UInt8) : String := String.ofList (encodeChars bytes)

def decode (text : String) : Option (List UInt8) := decodeChars text.toList

/-! The symbols. -/

theorem alphabet_nodup : alphabet.Nodup := by decide +kernel

theorem value_eq_some {c : Char} {n : Nat} : value c = some n ↔ n < 64 ∧ symbol n = c := by
  unfold value symbol
  constructor
  · intro found
    split at found
    · rename_i member
      cases found
      have short := List.idxOf_lt_length_of_mem member
      rw [List.getD_eq_getElem _ _ short]
      exact ⟨short, List.getElem_idxOf short⟩
    · cases found
  · rintro ⟨short, rfl⟩
    have short' : n < alphabet.length := short
    rw [List.getD_eq_getElem _ _ short', if_pos (List.getElem_mem short'),
      List.Nodup.idxOf_getElem alphabet_nodup n short']

theorem value_symbol {n : Nat} (short : n < 64) : value (symbol n) = some n :=
  value_eq_some.mpr ⟨short, rfl⟩

theorem value_pad : value '=' = none := by decide +kernel

theorem symbol_ne_pad {n : Nat} (short : n < 64) : symbol n ≠ '=' := by
  intro pad
  have known := value_symbol short
  rw [pad, value_pad] at known
  cases known

/-! There and back. -/

theorem decodeChars_one {w x : Nat} (hw : w < 64) (hx : x < 64) (canonical : x % 16 = 0) :
    decodeChars [symbol w, symbol x, '=', '='] = some [first w x] := by
  simp [decodeChars, value_symbol hw, value_symbol hx, canonical]

theorem decodeChars_two {w x y : Nat} (hw : w < 64) (hx : x < 64) (hy : y < 64)
    (canonical : y % 4 = 0) :
    decodeChars [symbol w, symbol x, symbol y, '='] = some [first w x, second x y] := by
  simp [decodeChars, value_symbol hw, value_symbol hx, value_symbol hy, canonical, symbol_ne_pad hy]

theorem decodeChars_group {w x y z : Nat} (hw : w < 64) (hx : x < 64) (hy : y < 64) (hz : z < 64)
    (rest : List Char) : decodeChars (symbol w :: symbol x :: symbol y :: symbol z :: rest) =
      (decodeChars rest).map fun bytes => first w x :: second x y :: third y z :: bytes := by
  rw [decodeChars]
  · simp [value_symbol hw, value_symbol hx, value_symbol hy, value_symbol hz, Option.map_eq_bind]
  · intro _ pad _
    exact symbol_ne_pad hz pad
  · intro pad _
    exact symbol_ne_pad hz pad

theorem first_bits (a : UInt8) (b : Nat) (short : b < 16) :
    first (a.toNat / 4) (a.toNat % 4 * 16 + b) = a := by
  rw [← UInt8.toNat_inj, first, UInt8.toNat_ofNat']
  have bound := a.toNat_lt
  omega

theorem second_bits (a b : UInt8) (c : Nat) (short : c < 4) :
    second (a.toNat % 4 * 16 + b.toNat / 16) (b.toNat % 16 * 4 + c) = b := by
  rw [← UInt8.toNat_inj, second, UInt8.toNat_ofNat']
  have bound := b.toNat_lt
  omega

theorem third_bits (b c : UInt8) : third (b.toNat % 16 * 4 + c.toNat / 64) (c.toNat % 64) = c := by
  rw [← UInt8.toNat_inj, third, UInt8.toNat_ofNat']
  have bound := c.toNat_lt
  omega

theorem decodeChars_encodeChars (bytes : List UInt8) : decodeChars (encodeChars bytes) = some bytes := by
  induction bytes using encodeChars.induct with
  | case1 => rfl
  | case2 a =>
    have bound := a.toNat_lt
    rw [encodeChars, decodeChars_one (by omega) (by omega) (by omega)]
    exact congrArg (fun a => some [a]) (first_bits a 0 (by omega))
  | case3 a b =>
    have bound := a.toNat_lt
    have bound' := b.toNat_lt
    rw [encodeChars, decodeChars_two (by omega) (by omega) (by omega) (by omega),
      first_bits a _ (by omega)]
    exact congrArg (fun b => some [a, b]) (second_bits a b 0 (by omega))
  | case4 a b c rest ih =>
    have bound := a.toNat_lt
    have bound' := b.toNat_lt
    have bound'' := c.toNat_lt
    rw [encodeChars, decodeChars_group (by omega) (by omega) (by omega) (by omega), ih,
      first_bits a _ (by omega), second_bits a b _ (by omega), third_bits]
    rfl

theorem first_toNat {w x : Nat} (hw : w < 64) (hx : x < 64) : (first w x).toNat = w * 4 + x / 16 := by
  rw [first, UInt8.toNat_ofNat']
  omega

theorem second_toNat {x y : Nat} (hy : y < 64) : (second x y).toNat = x % 16 * 16 + y / 4 := by
  rw [second, UInt8.toNat_ofNat']
  omega

theorem third_toNat {y z : Nat} (hz : z < 64) : (third y z).toNat = y % 4 * 64 + z := by
  rw [third, UInt8.toNat_ofNat']
  omega

theorem encodeChars_one {w x : Nat} (hw : w < 64) (hx : x < 64) (canonical : x % 16 = 0) :
    encodeChars [first w x] = [symbol w, symbol x, '=', '='] := by
  have high : (w * 4 + x / 16) / 4 = w := by omega
  have low : (w * 4 + x / 16) % 4 * 16 = x := by omega
  rw [encodeChars, first_toNat hw hx, high, low]

theorem encodeChars_two {w x y : Nat} (hw : w < 64) (hx : x < 64) (hy : y < 64)
    (canonical : y % 4 = 0) :
    encodeChars [first w x, second x y] = [symbol w, symbol x, symbol y, '='] := by
  have high : (w * 4 + x / 16) / 4 = w := by omega
  have middle : (w * 4 + x / 16) % 4 * 16 + (x % 16 * 16 + y / 4) / 16 = x := by omega
  have low : (x % 16 * 16 + y / 4) % 16 * 4 = y := by omega
  rw [encodeChars, first_toNat hw hx, second_toNat hy, high, middle, low]

theorem encodeChars_group {w x y z : Nat} (hw : w < 64) (hx : x < 64) (hy : y < 64) (hz : z < 64)
    (bytes : List UInt8) : encodeChars (first w x :: second x y :: third y z :: bytes) =
      symbol w :: symbol x :: symbol y :: symbol z :: encodeChars bytes := by
  have one : (w * 4 + x / 16) / 4 = w := by omega
  have two : (w * 4 + x / 16) % 4 * 16 + (x % 16 * 16 + y / 4) / 16 = x := by omega
  have three : (x % 16 * 16 + y / 4) % 16 * 4 + (y % 4 * 64 + z) / 64 = y := by omega
  have four : (y % 4 * 64 + z) % 64 = z := by omega
  rw [encodeChars, first_toNat hw hx, second_toNat hy, third_toNat hz, one, two, three, four]

theorem encodeChars_decodeChars {text : List Char} {bytes : List UInt8}
    (decoded : decodeChars text = some bytes) : encodeChars bytes = text := by
  induction text using decodeChars.induct generalizing bytes with
  | case1 =>
    cases decoded
    rfl
  | case2 w x =>
    simp only [decodeChars, Option.bind_eq_bind, Option.bind_eq_some_iff, value_eq_some] at decoded
    obtain ⟨w, ⟨hw, rfl⟩, x, ⟨hx, rfl⟩, decoded⟩ := decoded
    split at decoded <;> cases decoded
    exact encodeChars_one hw hx ‹_›
  | case3 w x y other =>
    rw [decodeChars.eq_3 w x y other] at decoded
    simp only [Option.bind_eq_bind, Option.bind_eq_some_iff, value_eq_some] at decoded
    obtain ⟨w, ⟨hw, rfl⟩, x, ⟨hx, rfl⟩, y, ⟨hy, rfl⟩, decoded⟩ := decoded
    split at decoded <;> cases decoded
    exact encodeChars_two hw hx hy ‹_›
  | case4 w x y z rest other other' ih =>
    rw [decodeChars.eq_4 w x y z rest other other'] at decoded
    simp only [Option.bind_eq_bind, Option.bind_eq_some_iff, value_eq_some] at decoded
    obtain ⟨w, ⟨hw, rfl⟩, x, ⟨hx, rfl⟩, y, ⟨hy, rfl⟩, z, ⟨hz, rfl⟩, bytes', decoded, same⟩ := decoded
    cases same
    rw [encodeChars_group hw hx hy hz, ih decoded]
  | case5 text empty one two group =>
    rw [decodeChars.eq_5 text empty one two group] at decoded
    cases decoded

theorem decode_eq_some {text : String} {bytes : List UInt8} :
    decode text = some bytes ↔ text = encode bytes := by
  constructor
  · intro decoded
    rw [encode, encodeChars_decodeChars decoded, String.ofList_toList]
  · rintro rfl
    rw [decode, encode, String.toList_ofList, decodeChars_encodeChars]

theorem mem_encodeChars {bytes : List UInt8} {c : Char} (member : c ∈ encodeChars bytes) :
    c ∈ alphabet ∨ c = '=' := by
  have known (n : Nat) : symbol n ∈ alphabet ∨ symbol n = '=' := by
    unfold symbol
    rcases Nat.lt_or_ge n alphabet.length with short | long
    · rw [List.getD_eq_getElem _ _ short]
      exact .inl (List.getElem_mem short)
    · exact .inr (List.getD_eq_default _ _ long)
  induction bytes using encodeChars.induct with
  | case1 => cases member
  | case2 a =>
    simp only [encodeChars, List.mem_cons, List.not_mem_nil, or_false] at member
    rcases member with rfl | rfl | rfl | rfl
    · exact known _
    · exact known _
    · exact .inr rfl
    · exact .inr rfl
  | case3 a b =>
    simp only [encodeChars, List.mem_cons, List.not_mem_nil, or_false] at member
    rcases member with rfl | rfl | rfl | rfl
    · exact known _
    · exact known _
    · exact known _
    · exact .inr rfl
  | case4 a b c rest ih =>
    simp only [encodeChars, List.mem_cons] at member
    rcases member with rfl | rfl | rfl | rfl | member
    · exact known _
    · exact known _
    · exact known _
    · exact known _
    · exact ih member

end Base64
