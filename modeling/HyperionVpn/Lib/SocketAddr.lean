import HyperionVpn.Lib.Bytes
import HyperionVpn.Lib.Ipv4

/-! IPv6 and socket addresses. Both print with the longest run of zeros left
out, and every printed address reads back as the address. -/
namespace Net
open Text Bytes

structure Ipv6Addr where
  segments : List UInt16
  length_segments : segments.length = 8
  deriving DecidableEq, Repr

structure Span where
  start : Nat
  len : Nat
  deriving DecidableEq, Repr

/-- The run goes on at index `i`, or begins there. -/
def Span.extend (current : Span) (i : Nat) : Span :=
  ⟨if current.len = 0 then i else current.start, current.len + 1⟩

namespace Ipv6Addr

/-- Eight groups, with zeros for those that are missing. -/
def ofGroups (groups : List UInt16) : Ipv6Addr :=
  ⟨(groups ++ List.replicate 8 0).take 8, by simp⟩

/-- `::ffff:a.b.c.d`, in which an IPv4 address is embedded. -/
def ofIpv4Mapped (ip : Ipv4Addr) : Ipv6Addr :=
  ofGroups [0, 0, 0, 0, 0, 0xffff, u16FromBE ip.a ip.b, u16FromBE ip.c ip.d]

def toIpv4Mapped (ip : Ipv6Addr) : Option Ipv4Addr :=
  match ip.segments with
  | [0, 0, 0, 0, 0, 0xffff, high, low] =>
    some ⟨(high >>> 8).toUInt8, high.toUInt8, (low >>> 8).toUInt8, low.toUInt8⟩
  | _ => none

/-- The loop over the segments from index `i` on that looks for the longest
run of zeros. -/
def longestZeros (i : Nat) (longest current : Span) : List UInt16 → Span
  | [] => longest
  | segment :: rest =>
    if segment = 0 then
      let current := current.extend i
      longestZeros (i + 1) (if longest.len < current.len then current else longest) current rest
    else longestZeros (i + 1) longest ⟨0, 0⟩ rest

def hex (segment : UInt16) : List Char := Nat.toDigits 16 segment.toNat

def fmtSubslice (chunk : List UInt16) : String :=
  ":".intercalate (chunk.map fun segment => String.ofList (hex segment))

def display (ip : Ipv6Addr) : String :=
  match ip.toIpv4Mapped with
  | some v4 => "::ffff:" ++ v4.display
  | none =>
    let zeros := longestZeros 0 ⟨0, 0⟩ ⟨0, 0⟩ ip.segments
    if 1 < zeros.len then
      fmtSubslice (ip.segments.take zeros.start) ++ "::" ++
        fmtSubslice (ip.segments.drop (zeros.start + zeros.len))
    else fmtSubslice ip.segments

/-- At most `left` groups; two of them may be written as an IPv4 address, which
ends the sequence. -/
def readGroups : Nat → Bool → List Char → List UInt16 × Bool × List Char
  | 0, _, s => ([], false, s)
  | left + 1, first, s =>
    match if 0 < left then readSeparator ':' first Ipv4Addr.read s else none with
    | some (v4, rest) => ([u16FromBE v4.a v4.b, u16FromBE v4.c v4.d], true, rest)
    | none =>
      match readSeparator ':' first (readNumber 16 (some 4) true 65535) s with
      | none => ([], false, s)
      | some (group, rest) =>
        let (groups, v4, rest) := readGroups left false rest
        (UInt16.ofNat group :: groups, v4, rest)

def read : Reader Ipv6Addr := fun s =>
  let (head, v4, s) := readGroups 8 true s
  if head.length = 8 then some (ofGroups head, s)
  else if v4 then none
  else do
    let s ← readGivenChar ':' s
    let s ← readGivenChar ':' s
    let (tail, _, s) := readGroups (8 - (head.length + 1)) true s
    return (ofGroups (head ++ List.replicate (8 - head.length - tail.length) 0 ++ tail), s)

/-! Texts. -/

/-- What may follow the groups that are read. -/
def Stops : List Char → Prop
  | ']' :: _ | '%' :: _ | ':' :: ':' :: _ => True
  | _ => False

theorem stops_bracket (s : List Char) : Stops (']' :: s) := trivial

theorem stops_scope (s : List Char) : Stops ('%' :: s) := trivial

/-- Groups after the first, as they are printed. -/
def tailText (groups : List UInt16) : List Char := groups.flatMap fun segment => ':' :: hex segment

theorem fmtSubslice_cons (segment : UInt16) (chunk : List UInt16) :
    (fmtSubslice (segment :: chunk)).toList = hex segment ++ tailText chunk := by
  induction chunk generalizing segment with
  | nil => simp [fmtSubslice, tailText]
  | cons next chunk ih =>
    simp only [fmtSubslice, List.map_cons, String.intercalate_cons_cons] at ih ⊢
    simp [ih next, tailText]

theorem u16FromBE_high_low (w : UInt16) : u16FromBE (w >>> 8).toUInt8 w.toUInt8 = w := by
  have bound := w.toNat_lt
  apply UInt16.toNat_inj.mp
  simp only [u16FromBE, ofBE, UInt16.toNat_ofNat']
  simp [Nat.shiftRight_eq_div_pow]
  omega

theorem toIpv4Mapped_eq_some {ip : Ipv6Addr} {v4 : Ipv4Addr} (mapped : ip.toIpv4Mapped = some v4) :
    ip = ofIpv4Mapped v4 := by
  obtain ⟨segments, eight⟩ := ip
  simp only [toIpv4Mapped] at mapped
  split at mapped
  · cases mapped
    simp [ofIpv4Mapped, ofGroups, u16FromBE_high_low]
  · cases mapped

/-! The run of zeros. -/

/-- The span is a run of zeros in the segments seen so far. -/
def IsRun (seen : List UInt16) (span : Span) : Prop :=
  ∃ before after, seen = before ++ List.replicate span.len 0 ++ after ∧
    (span.len ≠ 0 → before.length = span.start)

/-- The span is a run of zeros that may go on. -/
def IsLastRun (seen : List UInt16) (span : Span) : Prop :=
  ∃ before, seen = before ++ List.replicate span.len 0 ∧
    (span.len ≠ 0 → before.length = span.start)

theorem longestZeros_isRun {seen rest : List UInt16} {longest current : Span}
    (run : IsRun seen longest) (last : IsLastRun seen current) :
    IsRun (seen ++ rest) (longestZeros seen.length longest current rest) := by
  induction rest generalizing seen longest current with
  | nil => simpa [longestZeros] using run
  | cons segment rest ih =>
    have split : seen ++ segment :: rest = (seen ++ [segment]) ++ rest := by simp
    have size : seen.length + 1 = (seen ++ [segment]).length := by simp
    have kept : IsRun (seen ++ [segment]) longest := by
      obtain ⟨before, after, rfl, start⟩ := run
      exact ⟨before, after ++ [segment], by simp, start⟩
    rw [split, longestZeros, size]
    split
    · rename_i zero
      subst zero
      have grown : IsLastRun (seen ++ [0]) (current.extend seen.length) := by
        obtain ⟨before, same, start⟩ := last
        refine ⟨before, ?_, ?_⟩
        · rw [same, Span.extend, List.replicate_succ', List.append_assoc]
        · intro _
          by_cases new : current.len = 0
          · simp [Span.extend, same, new]
          · simp [Span.extend, new, start new]
      apply ih _ grown
      by_cases longer : longest.len < (current.extend seen.length).len
      · obtain ⟨before, same, start⟩ := grown
        rw [if_pos longer]
        exact ⟨before, [], by simpa using same, start⟩
      · rwa [if_neg longer]
    · exact ih kept ⟨seen ++ [segment], by simp, by simp⟩

/-- The longest run of zeros splits the segments. -/
theorem longestZeros_split (segments : List UInt16) {zeros : Span}
    (found : longestZeros 0 ⟨0, 0⟩ ⟨0, 0⟩ segments = zeros) (some : 1 < zeros.len) :
    segments = segments.take zeros.start ++ List.replicate zeros.len 0 ++
      segments.drop (zeros.start + zeros.len) ∧ zeros.start + zeros.len ≤ segments.length := by
  have run : IsRun ([] ++ segments) (longestZeros 0 ⟨0, 0⟩ ⟨0, 0⟩ segments) :=
    longestZeros_isRun ⟨[], [], rfl, by simp⟩ ⟨[], rfl, by simp⟩
  rw [found] at run
  obtain ⟨before, after, same, start⟩ := run
  have start := start (by omega)
  rw [List.nil_append] at same
  subst same
  constructor
  · rw [← start]
    simp [List.append_assoc]
  · simp only [List.length_append, List.length_replicate]
    omega

/-! Reading groups. -/

theorem noDigit_colon (s : List Char) : NoDigit radix (':' :: s) := noDigit_mark (by simp) s

theorem Stops.noDigit {rest : List Char} (stop : Stops rest) : NoDigit radix rest := by
  unfold Stops at stop
  split at stop
  · exact noDigit_mark (by simp) _
  · exact noDigit_mark (by simp) _
  · exact noDigit_mark (by simp) _
  · exact stop.elim

theorem read_v4_noDigit {s : List Char} (stop : ∀ radix, NoDigit radix s)
    (other : s.head? ≠ some '.') : Ipv4Addr.read s = none := by
  apply Ipv4Addr.read_no_dot
  rwa [dropWhile_noDigit (stop 10)]

theorem Stops.head_ne_dot {rest : List Char} (stop : Stops rest) : rest.head? ≠ some '.' := by
  unfold Stops at stop
  split at stop <;> simp_all

/-- No group after the first can be read. -/
theorem Stops.separator {inner : Reader α} {rest : List Char} (stop : Stops rest)
    (fails : ∀ tail, inner (':' :: tail) = none) : readSeparator ':' false inner rest = none := by
  unfold Stops at stop
  split at stop
  · rfl
  · rfl
  · exact fails _
  · exact stop.elim

theorem read_v4_colon (s : List Char) : Ipv4Addr.read (':' :: s) = none :=
  read_v4_noDigit (fun _ => noDigit_colon s) (by simp)

theorem tailText_head (groups : List UInt16) {rest : List Char} (stop : Stops rest) :
    (∀ radix, NoDigit radix (tailText groups ++ rest)) ∧
      (tailText groups ++ rest).head? ≠ some '.' := by
  cases groups with
  | nil => exact ⟨fun radix => stop.noDigit, stop.head_ne_dot⟩
  | cons segment groups => exact ⟨fun radix => noDigit_colon _, by simp [tailText]⟩

theorem hex_no_dot (segment : UInt16) : '.' ∉ hex segment := by
  intro member
  have digit := (isDigit_toDigits (by decide) (by decide) _ member : IsDigit 16 _ = true)
  revert digit
  decide

theorem dropWhile_no_dot {digits rest : List Char} (plain : '.' ∉ digits) (stop : NoDigit 10 rest)
    (other : rest.head? ≠ some '.') :
    ((digits ++ rest).dropWhile (IsDigit 10)).head? ≠ some '.' := by
  induction digits with
  | nil => rwa [List.nil_append, dropWhile_noDigit stop]
  | cons c digits ih =>
    rw [List.cons_append, List.dropWhile_cons]
    rw [List.mem_cons, not_or] at plain
    split
    · exact ih plain.2
    · intro dot
      exact plain.1 (Option.some.inj dot).symm

/-- A group is not the first number of an IPv4 address unless a dot follows. -/
theorem read_v4_hex (segment : UInt16) {rest : List Char} (stop : NoDigit 10 rest)
    (other : rest.head? ≠ some '.') : Ipv4Addr.read (hex segment ++ rest) = none :=
  Ipv4Addr.read_no_dot (dropWhile_no_dot (hex_no_dot segment) stop other)

theorem readNumber_hex (segment : UInt16) {rest : List Char} (stop : NoDigit 16 rest) :
    readNumber 16 (some 4) true 65535 (hex segment ++ rest) = some (segment.toNat, rest) := by
  have small := segment.toNat_lt
  apply readNumber_toDigits (by decide) (by decide) true (by omega) _ stop
  rintro k ⟨⟩
  exact ⟨by decide, by omega⟩

/-- The next group is read and the rest follows, wherever it stands. -/
theorem readGroups_hex (first : Bool) (left : Nat) (segment : UInt16) {rest : List Char}
    (noDigit : ∀ radix, NoDigit radix rest) (noDot : rest.head? ≠ some '.') :
    readGroups (left + 1) first ((if first then [] else [':']) ++ (hex segment ++ rest)) =
      (segment :: (readGroups left false rest).1, (readGroups left false rest).2) := by
  have sep {α : Type} (inner : Reader α) (s : List Char) :
      readSeparator ':' first inner ((if first then [] else [':']) ++ s) = inner s := by
    cases first <;> simp
  have v4 := read_v4_hex segment (noDigit 10) noDot
  have number := readNumber_hex segment (noDigit 16)
  simp only [readGroups, sep, v4, number, ite_self, UInt16.ofNat_toNat]

/-- Where no group can be read, none is. -/
theorem readGroups_none {first : Bool} {text : List Char} (left : Nat)
    (sep : readSeparator (α := Ipv4Addr) ':' first Ipv4Addr.read text = none)
    (number : readSeparator ':' first (readNumber 16 (some 4) true 65535) text = none) :
    readGroups left first text = ([], false, text) := by
  cases left with
  | zero => rfl
  | succ left => simp only [readGroups, sep, number, ite_self]

theorem readGroups_next {groups : List UInt16} {rest : List Char} {left : Nat}
    (room : groups.length ≤ left) (stop : Stops rest) :
    readGroups left false (tailText groups ++ rest) = (groups, false, rest) := by
  induction groups generalizing left with
  | nil =>
    apply readGroups_none
    · exact stop.separator read_v4_colon
    · exact stop.separator fun s => readNumber_noDigit (noDigit_colon s)
  | cons segment groups ih =>
    rw [List.length_cons] at room
    obtain ⟨left, rfl⟩ : ∃ k, left = k + 1 := Nat.exists_eq_add_one.mpr (by omega)
    obtain ⟨noDigit, noDot⟩ := tailText_head groups stop
    have text : tailText (segment :: groups) ++ rest =
        [':'] ++ (hex segment ++ (tailText groups ++ rest)) := by simp [tailText]
    have next := readGroups_hex false left segment noDigit noDot
    rw [ih (Nat.le_of_succ_le_succ room)] at next
    rw [text]
    exact next

/-- Printed groups read back. -/
theorem readGroups_fmtSubslice {groups : List UInt16} {rest : List Char} {left : Nat}
    (room : groups.length ≤ left) (stop : Stops rest) :
    readGroups left true ((fmtSubslice groups).toList ++ rest) = (groups, false, rest) := by
  cases groups with
  | nil =>
    apply readGroups_none
    · exact read_v4_noDigit (fun _ => stop.noDigit) stop.head_ne_dot
    · exact readNumber_noDigit stop.noDigit
  | cons segment groups =>
    rw [List.length_cons] at room
    obtain ⟨left, rfl⟩ : ∃ k, left = k + 1 := Nat.exists_eq_add_one.mpr (by omega)
    obtain ⟨noDigit, noDot⟩ := tailText_head groups stop
    have next := readGroups_hex true left segment noDigit noDot
    rw [readGroups_next (Nat.le_of_succ_le_succ room) stop] at next
    rw [fmtSubslice_cons, List.append_assoc]
    exact next

/-- The groups of an embedded IPv4 address read back. -/
theorem readGroups_mapped (v4 : Ipv4Addr) {rest : List Char} (stop : Stops rest) :
    readGroups 7 true (hex 0xffff ++ ':' :: (v4.display.toList ++ rest)) =
      ([0xffff, u16FromBE v4.a v4.b, u16FromBE v4.c v4.d], true, rest) := by
  have embedded : readSeparator ':' false Ipv4Addr.read (':' :: (v4.display.toList ++ rest)) =
      some (v4, rest) := by rw [readSeparator_next, v4.read_display stop.noDigit]
  have next := readGroups_hex true 6 0xffff
    (fun _ => noDigit_colon (v4.display.toList ++ rest)) (by simp)
  have last : readGroups 6 false (':' :: (v4.display.toList ++ rest)) =
      ([u16FromBE v4.a v4.b, u16FromBE v4.c v4.d], true, rest) := by
    simp only [readGroups, embedded, Nat.zero_lt_succ, if_true]
  simp only [last, if_true, List.nil_append] at next
  exact next

theorem ofGroups_segments (ip : Ipv6Addr) : ofGroups ip.segments = ip := by
  obtain ⟨segments, eight⟩ := ip
  simp [ofGroups, eight]

/-- After a double colon, the missing groups are zeros. -/
theorem read_compressed {head tail : List UInt16} {text after rest : List Char}
    (front : readGroups 8 true text = (head, false, ':' :: ':' :: after))
    (back : readGroups (8 - (head.length + 1)) true after = (tail, v4, rest))
    (short : head.length < 8) : read text =
      some (ofGroups (head ++ List.replicate (8 - head.length - tail.length) 0 ++ tail), rest) := by
  have colon (s : List Char) : readGivenChar ':' (':' :: s) = some s := rfl
  simp only [read, front, if_neg (Nat.ne_of_lt short), Bool.false_eq_true, if_false,
    Option.bind_eq_bind]
  rw [colon, Option.bind_some, colon, Option.bind_some, back]
  rfl

/-- A printed address reads back in front of a bracket or a scope. -/
theorem read_display (ip : Ipv6Addr) {rest : List Char} (stop : Stops rest) :
    read (ip.display.toList ++ rest) = some (ip, rest) := by
  unfold display
  split
  · rename_i v4 mapped
    obtain rfl := toIpv4Mapped_eq_some mapped
    have front : readGroups 8 true
        (':' :: ':' :: (hex 0xffff ++ ':' :: (v4.display.toList ++ rest))) =
        ([], false, ':' :: ':' :: (hex 0xffff ++ ':' :: (v4.display.toList ++ rest))) := by
      apply readGroups_none
      · rw [readSeparator_first, read_v4_colon]
      · rw [readSeparator_first, readNumber_noDigit (noDigit_colon _)]
    have text : ("::ffff:" ++ v4.display).toList ++ rest =
        ':' :: ':' :: (hex 0xffff ++ ':' :: (v4.display.toList ++ rest)) := by
      have digits : hex 0xffff = ['f', 'f', 'f', 'f'] := by decide
      simp [digits]
    rw [text, read_compressed front (readGroups_mapped v4 stop) (by decide)]
    rfl
  · dsimp only
    generalize found : longestZeros 0 ⟨0, 0⟩ ⟨0, 0⟩ ip.segments = zeros
    have eight := ip.length_segments
    split
    · rename_i some
      obtain ⟨split, inside⟩ := longestZeros_split ip.segments found some
      have size : (ip.segments.take zeros.start).length = zeros.start := by
        rw [List.length_take]
        omega
      have sizeTail : (ip.segments.drop (zeros.start + zeros.len)).length =
          8 - (zeros.start + zeros.len) := by rw [List.length_drop, eight]
      generalize ip.segments.take zeros.start = head at *
      generalize ip.segments.drop (zeros.start + zeros.len) = tail at *
      have front : readGroups 8 true ((fmtSubslice head).toList ++
          ':' :: ':' :: ((fmtSubslice tail).toList ++ rest)) = _ :=
        readGroups_fmtSubslice (by omega) trivial
      have back : readGroups (8 - (head.length + 1)) true ((fmtSubslice tail).toList ++ rest) = _ :=
        readGroups_fmtSubslice (by omega) stop
      have text : (fmtSubslice head ++ "::" ++ fmtSubslice tail).toList ++ rest =
          (fmtSubslice head).toList ++ ':' :: ':' :: ((fmtSubslice tail).toList ++ rest) := by
        simp
      have gap : 8 - head.length - tail.length = zeros.len := by omega
      rw [text, read_compressed front back (by omega), gap, ← split, ofGroups_segments]
    · have whole : readGroups 8 true ((fmtSubslice ip.segments).toList ++ rest) = _ :=
        readGroups_fmtSubslice (by omega) stop
      simp only [read, whole, eight, if_true, ofGroups_segments]

end Ipv6Addr

inductive IpAddr where
  | v4 (ip : Ipv4Addr)
  | v6 (ip : Ipv6Addr)
  deriving DecidableEq, Repr

inductive SocketAddr where
  | v4 (ip : Ipv4Addr) (port : UInt16)
  | v6 (ip : Ipv6Addr) (scopeId : UInt32) (port : UInt16)
  deriving DecidableEq, Repr

namespace SocketAddr

def ip : SocketAddr → IpAddr
  | v4 ip _ => .v4 ip
  | v6 ip _ _ => .v6 ip

def port : SocketAddr → UInt16
  | v4 _ port | v6 _ _ port => port

def display : SocketAddr → String
  | v4 ip port => ip.display ++ ":" ++ toString port.toNat
  | v6 ip scopeId port =>
    if scopeId = 0 then "[" ++ ip.display ++ "]:" ++ toString port.toNat
    else "[" ++ ip.display ++ "%" ++ toString scopeId.toNat ++ "]:" ++ toString port.toNat

def readPort : Reader UInt16 := fun s => do
  let s ← readGivenChar ':' s
  let (n, s) ← readNumber 10 none true 65535 s
  return (UInt16.ofNat n, s)

def readScopeId : Reader UInt32 := fun s => do
  let s ← readGivenChar '%' s
  let (n, s) ← readNumber 10 none true 4294967295 s
  return (UInt32.ofNat n, s)

def readV4 : Reader SocketAddr := fun s => do
  let (ip, s) ← Ipv4Addr.read s
  let (port, s) ← readPort s
  return (v4 ip port, s)

def readV6 : Reader SocketAddr := fun s => do
  let s ← readGivenChar '[' s
  let (ip, s) ← Ipv6Addr.read s
  let (scopeId, s) := (readScopeId s).getD (0, s)
  let s ← readGivenChar ']' s
  let (port, s) ← readPort s
  return (v6 ip scopeId port, s)

def read : Reader SocketAddr := fun s => (readV4 s).or (readV6 s)

def parse (s : String) : Option SocketAddr := parseWith read s

theorem readGivenChar_self (c : Char) (s : List Char) : readGivenChar c (c :: s) = some s := by
  simp [readGivenChar]

theorem readPort_toDigits (port : UInt16) :
    readPort (':' :: Nat.toDigits 10 port.toNat) = some (port, []) := by
  have small := port.toNat_lt
  have number : readNumber 10 none true 65535 (Nat.toDigits 10 port.toNat ++ []) =
      some (port.toNat, []) :=
    readNumber_toDigits (by decide) (by decide) true (by omega) (by simp) noDigit_nil
  rw [List.append_nil] at number
  simp only [readPort, readGivenChar_self, Option.bind_eq_bind]
  rw [Option.bind_some, number]
  simp

theorem readScopeId_toDigits (scopeId : UInt32) (s : List Char) :
    readScopeId ('%' :: (Nat.toDigits 10 scopeId.toNat ++ ']' :: s)) = some (scopeId, ']' :: s) := by
  have small := scopeId.toNat_lt
  have number : readNumber 10 none true 4294967295 (Nat.toDigits 10 scopeId.toNat ++ ']' :: s) =
      some (scopeId.toNat, ']' :: s) :=
    readNumber_toDigits (by decide) (by decide) true (by omega) (by simp) (noDigit_mark (by simp) s)
  simp only [readScopeId, readGivenChar_self, Option.bind_eq_bind]
  rw [Option.bind_some, number]
  simp

theorem readV4_bracket (s : List Char) : readV4 ('[' :: s) = none := by
  have stuck : Ipv4Addr.read ('[' :: s) = none :=
    Ipv6Addr.read_v4_noDigit (fun _ => noDigit_mark (by simp) s) (by simp)
  simp [readV4, stuck]

/-- A printed address reads back as the address. -/
theorem parse_display (addr : SocketAddr) : parse addr.display = some addr := by
  suffices whole : read addr.display.toList = some (addr, []) by simp only [parse, parseWith, whole]
  cases addr with
  | v4 ip port =>
    have text : (display (v4 ip port)).toList =
        ip.display.toList ++ ':' :: Nat.toDigits 10 port.toNat := by simp [display]
    have v4Text : readV4 (ip.display.toList ++ ':' :: Nat.toDigits 10 port.toNat) =
        some (v4 ip port, []) := by
      simp only [readV4, Option.bind_eq_bind]
      rw [ip.read_display (noDigit_mark (by simp) _), Option.bind_some, readPort_toDigits,
        Option.bind_some]
      rfl
    rw [text, read, v4Text, Option.some_or]
  | v6 ip scopeId port =>
    by_cases zero : scopeId = 0
    · subst zero
      have text : (display (v6 ip 0 port)).toList =
          '[' :: (ip.display.toList ++ ']' :: ':' :: Nat.toDigits 10 port.toNat) := by
        simp [display]
      have unscoped (s : List Char) : readScopeId (']' :: s) = none := by
        simp [readScopeId, readGivenChar]
      have v6Text : readV6 ('[' :: (ip.display.toList ++ ']' :: ':' :: Nat.toDigits 10 port.toNat)) =
          some (v6 ip 0 port, []) := by
        simp only [readV6, Option.bind_eq_bind]
        rw [readGivenChar_self, Option.bind_some,
          ip.read_display (Ipv6Addr.stops_bracket _), Option.bind_some, unscoped, Option.getD_none,
          readGivenChar_self, Option.bind_some, readPort_toDigits, Option.bind_some]
        rfl
      rw [text, read, readV4_bracket, v6Text, Option.none_or]
    · have text : (display (v6 ip scopeId port)).toList = '[' :: (ip.display.toList ++
          '%' :: (Nat.toDigits 10 scopeId.toNat ++ ']' :: ':' :: Nat.toDigits 10 port.toNat)) := by
        simp [display, zero]
      have v6Text : readV6 ('[' :: (ip.display.toList ++
          '%' :: (Nat.toDigits 10 scopeId.toNat ++ ']' :: ':' :: Nat.toDigits 10 port.toNat))) =
          some (v6 ip scopeId port, []) := by
        simp only [readV6, Option.bind_eq_bind]
        rw [readGivenChar_self, Option.bind_some,
          ip.read_display (Ipv6Addr.stops_scope _), Option.bind_some, readScopeId_toDigits,
          Option.getD_some, readGivenChar_self, Option.bind_some, readPort_toDigits,
          Option.bind_some]
        rfl
      rw [text, read, readV4_bracket, v6Text, Option.none_or]

end SocketAddr
end Net
