import HyperionVpn.Lib.Digits

/-! IPv4 addresses as four octets: their text form, and their order as words. -/
namespace Net
open Text

structure Ipv4Addr where
  a : UInt8
  b : UInt8
  c : UInt8
  d : UInt8
  deriving DecidableEq, Repr

namespace Ipv4Addr

/-- Dotted decimal, without leading zeros. -/
def display (ip : Ipv4Addr) : String :=
  ".".intercalate [toString ip.a.toNat, toString ip.b.toNat, toString ip.c.toNat,
    toString ip.d.toNat]

def readOctet (first : Bool) : Reader UInt8 := fun s => do
  let (n, rest) ← readSeparator '.' first (readNumber 10 (some 3) false 255) s
  return (UInt8.ofNat n, rest)

def read : Reader Ipv4Addr := fun s => do
  let (a, s) ← readOctet true s
  let (b, s) ← readOctet false s
  let (c, s) ← readOctet false s
  let (d, s) ← readOctet false s
  return (⟨a, b, c, d⟩, s)

def parse (s : String) : Option Ipv4Addr := parseWith read s

/-! Texts. -/

def octet (n : UInt8) : List Char := Nat.toDigits 10 n.toNat

theorem display_toList (ip : Ipv4Addr) : ip.display.toList =
    octet ip.a ++ '.' :: (octet ip.b ++ '.' :: (octet ip.c ++ '.' :: octet ip.d)) := by
  simp [display, octet, String.intercalate_cons_cons]

theorem readNumber_octet (n : UInt8) {rest : List Char} (stop : NoDigit 10 rest) :
    readNumber 10 (some 3) false 255 (octet n ++ rest) = some (n.toNat, rest) := by
  have small := n.toNat_lt
  apply readNumber_toDigits (by decide) (by decide) false (by omega) _ stop
  rintro k ⟨⟩
  exact ⟨by decide, by omega⟩

theorem readOctet_first (n : UInt8) {rest : List Char} (stop : NoDigit 10 rest) :
    readOctet true (octet n ++ rest) = some (n, rest) := by
  simp [readOctet, readSeparator, readNumber_octet n stop]

theorem readOctet_next (n : UInt8) {rest : List Char} (stop : NoDigit 10 rest) :
    readOctet false ('.' :: (octet n ++ rest)) = some (n, rest) := by
  simp [readOctet, readSeparator, readGivenChar, readNumber_octet n stop]

/-- A printed address reads back in front of any text that does not go on
with a digit. -/
theorem read_display (ip : Ipv4Addr) {rest : List Char} (stop : NoDigit 10 rest) :
    read (ip.display.toList ++ rest) = some (ip, rest) := by
  simp only [display_toList, List.append_assoc, List.cons_append, read, Option.bind_eq_bind]
  rw [readOctet_first _ (noDigit_mark (by simp) _), Option.bind_some]
  rw [readOctet_next _ (noDigit_mark (by simp) _), Option.bind_some]
  rw [readOctet_next _ (noDigit_mark (by simp) _), Option.bind_some]
  rw [readOctet_next _ stop, Option.bind_some]
  rfl

theorem parse_display (ip : Ipv4Addr) : parse ip.display = some ip := by
  have whole := ip.read_display noDigit_nil
  rw [List.append_nil] at whole
  simp only [parse, parseWith, whole]

/-- Only a number and a dot start an address. -/
theorem read_no_dot {s : List Char} (other : (s.dropWhile (IsDigit 10)).head? ≠ some '.') :
    read s = none := by
  unfold read readOctet
  cases first : readSeparator '.' true (readNumber 10 (some 3) false 255) s with
  | none => rfl
  | some r =>
    obtain ⟨n, rest⟩ := r
    have left := (readNumber_rest first).1
    subst left
    have stuck : readGivenChar '.' (s.dropWhile (IsDigit 10)) = none := by
      cases next : s.dropWhile (IsDigit 10) with
      | nil => rfl
      | cons c tail =>
        rw [next] at other
        simp only [List.head?_cons, ne_eq, Option.some.injEq] at other
        exact if_neg other
    simp [readSeparator, stuck]

/-! Words. -/

def toNat (ip : Ipv4Addr) : Nat :=
  ip.a.toNat * 2 ^ 24 + ip.b.toNat * 2 ^ 16 + ip.c.toNat * 2 ^ 8 + ip.d.toNat

/-- The address as a word, in network order. -/
def toU32 (ip : Ipv4Addr) : UInt32 := UInt32.ofNat ip.toNat

def ofU32 (w : UInt32) : Ipv4Addr :=
  ⟨(w >>> 24).toUInt8, (w >>> 16).toUInt8, (w >>> 8).toUInt8, w.toUInt8⟩

theorem toNat_lt (ip : Ipv4Addr) : ip.toNat < 2 ^ 32 := by
  have ha := ip.a.toNat_lt
  have hb := ip.b.toNat_lt
  have hc := ip.c.toNat_lt
  have hd := ip.d.toNat_lt
  unfold toNat
  omega

@[simp] theorem toU32_toNat (ip : Ipv4Addr) : ip.toU32.toNat = ip.toNat :=
  UInt32.toNat_ofNat_of_lt' ip.toNat_lt

@[simp] theorem ofU32_toNat (w : UInt32) : (ofU32 w).toNat = w.toNat := by
  have bound := w.toNat_lt
  simp only [ofU32, toNat, UInt32.toNat_toUInt8, UInt32.toNat_shiftRight, UInt32.reduceToNat,
    Nat.shiftRight_eq_div_pow]
  norm_num
  omega

theorem toNat_injective : Function.Injective toNat := by
  rintro ⟨a, b, c, d⟩ ⟨a', b', c', d'⟩ same
  have ha := a.toNat_lt
  have hb := b.toNat_lt
  have hc := c.toNat_lt
  have hd := d.toNat_lt
  have ha' := a'.toNat_lt
  have hb' := b'.toNat_lt
  have hc' := c'.toNat_lt
  have hd' := d'.toNat_lt
  simp only [toNat] at same
  rw [mk.injEq, ← UInt8.toNat_inj, ← UInt8.toNat_inj, ← UInt8.toNat_inj, ← UInt8.toNat_inj]
  omega

/-- Addresses are ordered as their words, which is octet by octet. -/
instance : LinearOrder Ipv4Addr where
  le x y := x.toNat ≤ y.toNat
  lt x y := x.toNat < y.toNat
  le_refl _ := le_refl _
  le_trans _ _ _ := le_trans
  lt_iff_le_not_ge _ _ := lt_iff_le_not_ge
  le_antisymm _ _ low high := toNat_injective (le_antisymm low high)
  le_total _ _ := le_total _ _
  toDecidableLE x y := inferInstanceAs (Decidable (x.toNat ≤ y.toNat))
  toDecidableLT x y := inferInstanceAs (Decidable (x.toNat < y.toNat))
  toDecidableEq := inferInstance

theorem lt_iff_toNat {x y : Ipv4Addr} : x < y ↔ x.toNat < y.toNat := Iff.rfl

end Ipv4Addr
end Net
