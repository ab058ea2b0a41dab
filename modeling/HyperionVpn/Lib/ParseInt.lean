import HyperionVpn.Lib.SocketAddr

/-! Unsigned integers as the standard library's `parse` reads them: digits, with a
plus before them or not. The port of a socket address is one. -/
namespace Text

inductive ParseIntError where
  | empty
  | invalidDigit
  | posOverflow
  deriving DecidableEq, Repr

/-- The first error of the digits from the left is the one that is told. -/
def parseDigits (max acc : Nat) : List Char → Except ParseIntError Nat
  | [] => .ok acc
  | c :: rest =>
    match toDigit 10 c with
    | none => .error .invalidDigit
    | some d =>
      if max < acc * 10 + d then .error .posOverflow else parseDigits max (acc * 10 + d) rest

def parseUnsigned (max : Nat) (s : String) : Except ParseIntError Nat :=
  match s.toList with
  | [] => .error .empty
  | ['+'] => .error .invalidDigit
  | '+' :: digits => parseDigits max 0 digits
  | digits => parseDigits max 0 digits

/-- Digits, at least one, as a number up to `max`. -/
structure Reads (max : Nat) (digits : List Char) (n : Nat) : Prop where
  nonempty : digits ≠ []
  all : ∀ c ∈ digits, IsDigit 10 c = true
  value : ofDigits 10 digits = n
  bound : n ≤ max

theorem ofDigits_cons {c : Char} {d : Nat} (digit : toDigit 10 c = some d) (rest : List Char) :
    ofDigits 10 (c :: rest) = d * 10 ^ rest.length + ofDigits 10 rest := by
  have single : ofDigits 10 [c] = d := by
    simp [ofDigits, digit]
  rw [← List.singleton_append, ofDigits_append, single]

theorem parseDigits_eq_ok {max acc n : Nat} {digits : List Char} (small : acc ≤ max) :
    parseDigits max acc digits = .ok n ↔ (∀ c ∈ digits, IsDigit 10 c = true) ∧
      acc * 10 ^ digits.length + ofDigits 10 digits = n ∧ n ≤ max := by
  induction digits generalizing acc with
  | nil =>
    simp only [parseDigits, Except.ok.injEq, List.not_mem_nil, false_imp_iff, implies_true,
      List.length_nil, true_and, ofDigits, List.foldl_nil]
    omega
  | cons c rest ih =>
    rw [parseDigits, List.forall_mem_cons]
    cases digit : toDigit 10 c with
    | none => simp [IsDigit, digit]
    | some d =>
      have isDigit : IsDigit 10 c = true := by simp [IsDigit, digit]
      have value : acc * 10 ^ (c :: rest).length + ofDigits 10 (c :: rest) =
          (acc * 10 + d) * 10 ^ rest.length + ofDigits 10 rest := by
        rw [ofDigits_cons digit, List.length_cons]
        ring
      rw [value]
      dsimp only
      split
      · rename_i large
        have power := Nat.one_le_pow rest.length 10 (by decide)
        have grows := Nat.le_mul_of_pos_right (acc * 10 + d) power
        simp only [reduceCtorEq, false_iff, not_and]
        intro _ _
        omega
      · rename_i fits
        rw [ih (Nat.not_lt.mp fits)]
        simp [isDigit]

theorem parseUnsigned_eq_ok {max n : Nat} {s : String} : parseUnsigned max s = .ok n ↔
    ∃ digits, (s.toList = digits ∨ s.toList = '+' :: digits) ∧ Reads max digits n := by
  have plus : IsDigit 10 '+' = false := by decide
  have whole (digits : List Char) (nonempty : digits ≠ []) :
      parseDigits max 0 digits = .ok n ↔ Reads max digits n := by
    rw [parseDigits_eq_ok (Nat.zero_le max), Nat.zero_mul, Nat.zero_add]
    exact ⟨fun h => ⟨nonempty, h.1, h.2.1, h.2.2⟩, fun h => ⟨h.all, h.value, h.bound⟩⟩
  have signed {digits : List Char} (reads : Reads max ('+' :: digits) n) : False := by
    have := reads.all '+' (.head _)
    rw [plus] at this
    cases this
  unfold parseUnsigned
  split
  · rename_i text
    rw [text]
    simp only [reduceCtorEq, false_iff, not_exists, not_and, or_false]
    rintro digits rfl reads
    exact reads.nonempty rfl
  · rename_i text
    rw [text]
    simp only [reduceCtorEq, false_iff, not_exists, not_and]
    rintro digits (rfl | same) reads
    · exact signed reads
    · cases same
      exact reads.nonempty rfl
  · rename_i digits nonempty text
    rw [text, whole digits (fun empty => nonempty (by rw [empty]))]
    constructor
    · exact fun reads => ⟨digits, .inr rfl, reads⟩
    · rintro ⟨digits', rfl | same, reads⟩
      · exact (signed reads).elim
      · cases same
        exact reads
  · rename_i other empty noSign sign
    rw [whole _ empty]
    constructor
    · exact fun reads => ⟨_, .inl rfl, reads⟩
    · rintro ⟨digits, rfl | same, reads⟩
      · exact reads
      · exact (sign digits same).elim

/-! What a reader leaves is the end of its text. -/

theorem readGivenChar_eq_some {c : Char} {s rest : List Char} :
    readGivenChar c s = some rest ↔ s = c :: rest := by
  cases s with
  | nil => simp [readGivenChar]
  | cons d s =>
    simp only [readGivenChar, Option.ite_none_right_eq_some, Option.some.injEq, List.cons.injEq]

theorem readGivenChar_suffix {c : Char} {s rest : List Char} (read : readGivenChar c s = some rest) :
    rest <:+ s := by
  rw [readGivenChar_eq_some.mp read]
  exact List.suffix_cons c rest

theorem readNumber_suffix {radix max n : Nat} {maxDigits : Option Nat} {allowZeroPrefix : Bool}
    {s rest : List Char} (read : readNumber radix maxDigits allowZeroPrefix max s = some (n, rest)) :
    rest <:+ s := by
  rw [(readNumber_rest read).1]
  exact List.dropWhile_suffix _

theorem readSeparator_suffix {sep : Char} {firstOne : Bool} {inner : Reader α} {s rest : List Char}
    {a : α} (suffix : ∀ {s rest a}, inner s = some (a, rest) → rest <:+ s)
    (read : readSeparator sep firstOne inner s = some (a, rest)) : rest <:+ s := by
  cases firstOne with
  | true => exact suffix read
  | false =>
    obtain ⟨s', given, read⟩ := Option.bind_eq_some_iff.mp read
    exact (suffix read).trans (readGivenChar_suffix given)

end Text

namespace Net
open Text

theorem Ipv4Addr.read_suffix {s rest : List Char} {ip : Ipv4Addr}
    (found : Ipv4Addr.read s = some (ip, rest)) : rest <:+ s := by
  have octet {firstOne : Bool} {s rest : List Char} {n : UInt8}
      (found : readOctet firstOne s = some (n, rest)) : rest <:+ s := by
    obtain ⟨⟨m, s'⟩, read, same⟩ := Option.bind_eq_some_iff.mp found
    cases same
    exact readSeparator_suffix readNumber_suffix read
  simp only [Ipv4Addr.read, Option.bind_eq_bind, Option.bind_eq_some_iff] at found
  obtain ⟨⟨a, s₁⟩, one, ⟨b, s₂⟩, two, ⟨c, s₃⟩, three, ⟨d, s₄⟩, four, same⟩ := found
  cases same
  exact (octet four).trans ((octet three).trans ((octet two).trans (octet one)))

theorem Ipv6Addr.readGroups_suffix (left : Nat) (firstOne : Bool) (s : List Char) :
    (readGroups left firstOne s).2.2 <:+ s := by
  induction left generalizing firstOne s with
  | zero => exact List.suffix_rfl
  | succ left ih =>
    rw [readGroups]
    split
    · rename_i v4 rest found
      split at found
      · exact readSeparator_suffix Ipv4Addr.read_suffix found
      · cases found
    · split
      · exact List.suffix_rfl
      · rename_i group rest found
        exact (ih false rest).trans (readSeparator_suffix readNumber_suffix found)

theorem Ipv6Addr.read_suffix {s rest : List Char} {ip : Ipv6Addr}
    (found : Ipv6Addr.read s = some (ip, rest)) : rest <:+ s := by
  have head := readGroups_suffix 8 true s
  unfold Ipv6Addr.read at found
  generalize readGroups 8 true s = groups at found head
  obtain ⟨groups, v4, s'⟩ := groups
  dsimp only at found head
  split at found
  · cases found
    exact head
  split at found
  · cases found
  · simp only [Option.bind_eq_bind, Option.bind_eq_some_iff] at found
    obtain ⟨s₁, one, s₂, two, same⟩ := found
    have tail := readGroups_suffix (8 - (groups.length + 1)) true s₂
    generalize readGroups (8 - (groups.length + 1)) true s₂ = groups' at same tail
    cases same
    exact tail.trans ((readGivenChar_suffix two).trans ((readGivenChar_suffix one).trans head))

namespace SocketAddr

theorem readScopeId_suffix (s : List Char) : ((readScopeId s).getD (0, s)).2 <:+ s := by
  cases found : readScopeId s with
  | none => exact List.suffix_rfl
  | some result =>
    simp only [readScopeId, Option.bind_eq_bind, Option.bind_eq_some_iff] at found
    obtain ⟨s', given, ⟨n, rest⟩, number, same⟩ := found
    cases same
    exact (readNumber_suffix number).trans (readGivenChar_suffix given)

theorem readPort_whole {s : List Char} {port : UInt16} (found : readPort s = some (port, [])) :
    ∃ digits, s = ':' :: digits ∧ Reads 65535 digits port.toNat := by
  simp only [readPort, Option.bind_eq_bind, Option.bind_eq_some_iff] at found
  obtain ⟨digits, given, ⟨n, rest⟩, number, same⟩ := found
  cases same
  refine ⟨digits, readGivenChar_eq_some.mp given, ?_⟩
  obtain ⟨dropped, bound⟩ := readNumber_rest number
  have all : ∀ c ∈ digits, IsDigit 10 c = true := by
    simpa using List.dropWhile_eq_nil_iff.mp dropped.symm
  have taken : digits.takeWhile (IsDigit 10) = digits := List.takeWhile_eq_self_iff.mpr all
  simp only [readNumber, taken, Option.any_none, Bool.false_eq_true, if_false] at number
  split at number
  · cases number
  rename_i nonempty
  split at number
  · cases number
  split at number
  · cases number
  · obtain ⟨rfl, -⟩ := Prod.mk.inj (Option.some.inj number)
    refine ⟨nonempty, all, ?_, ?_⟩
    · rw [UInt16.toNat_ofNat_of_lt' (Nat.lt_succ_of_le bound)]
    · rw [UInt16.toNat_ofNat_of_lt' (Nat.lt_succ_of_le bound)]
      exact bound

/-- The text of an address ends in that of its port, after the last colon. -/
theorem parse_port {s : String} {addr : SocketAddr} (parsed : parse s = some addr) :
    ∃ front digits, s.toList = front ++ ':' :: digits ∧ Reads 65535 digits addr.port.toNat := by
  have found : read s.toList = some (addr, []) := by
    unfold parse parseWith at parsed
    split at parsed
    · cases parsed
      assumption
    · cases parsed
  rw [read, Option.or_eq_some_iff] at found
  rcases found with v4 | ⟨-, v6⟩
  · simp only [readV4, Option.bind_eq_bind, Option.bind_eq_some_iff] at v4
    obtain ⟨⟨ip, s₁⟩, one, ⟨port, s₂⟩, two, same⟩ := v4
    cases same
    obtain ⟨digits, rfl, reads⟩ := readPort_whole two
    obtain ⟨front, split⟩ := Ipv4Addr.read_suffix one
    exact ⟨front, digits, split.symm, reads⟩
  · simp only [readV6, Option.bind_eq_bind, Option.bind_eq_some_iff] at v6
    obtain ⟨s₁, one, ⟨ip, s₂⟩, two, s₃, three, ⟨port, s₄⟩, four, same⟩ := v6
    cases same
    obtain ⟨digits, rfl, reads⟩ := readPort_whole four
    have suffix := (readGivenChar_suffix three).trans ((readScopeId_suffix s₂).trans
      ((Ipv6Addr.read_suffix two).trans (readGivenChar_suffix one)))
    obtain ⟨front, split⟩ := suffix
    exact ⟨front, digits, split.symm, reads⟩

end SocketAddr
end Net
