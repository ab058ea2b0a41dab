import HyperionVpn.Core.Keys
import HyperionVpn.Lib.Base64

/-! The texts of keys, with the base64 engine that they are written and read with,
which is a parameter. -/
namespace HyperionVpn

/-- `general_purpose::STANDARD`. It has one text for each byte string, without
blanks, and reads no other: the padding must be there, and no bit set that no byte has. -/
structure Engine where
  encode : List UInt8 → String
  decode : String → Option (List UInt8)
  decode_eq_some : ∀ {text : String} {bytes : List UInt8}, decode text = some bytes ↔ text = encode bytes
  solid : ∀ bytes, ∀ c ∈ (encode bytes).toList, isWhitespace c = false

variable (engine : Engine)

def SecretKey.toBase64 (k : SecretKey) : String := engine.encode k.bytes.toList

def PublicKey.toBase64 (k : PublicKey) : String := engine.encode k.bytes.toList

/-- The password hash stays a parameter too. -/
def Engine.library (hashPasswordInto : List UInt8 → List UInt8 → Option (Vector UInt8 32)) :
    KeyLibrary :=
  ⟨engine.decode, hashPasswordInto⟩

variable {engine}

theorem Engine.encode_injective {a b : List UInt8} (same : engine.encode a = engine.encode b) :
    a = b := by
  have read := engine.decode_eq_some.mpr same
  exact Option.some.inj ((engine.decode_eq_some.mpr rfl).symm.trans read)

theorem SecretKey.toBase64_injective {a b : SecretKey} (same : a.toBase64 engine = b.toBase64 engine) :
    a = b := by
  obtain ⟨a⟩ := a
  obtain ⟨b⟩ := b
  exact congrArg SecretKey.mk (Vector.toList_inj.mp (engine.encode_injective same))

theorem PublicKey.toBase64_injective {a b : PublicKey} (same : a.toBase64 engine = b.toBase64 engine) :
    a = b := by
  obtain ⟨a⟩ := a
  obtain ⟨b⟩ := b
  exact congrArg PublicKey.mk (Vector.toList_inj.mp (engine.encode_injective same))

/-- What `write_secret` writes to a file. -/
def secretText (contents : String) : String := contents ++ "\n"

/-! Trimming. -/

theorem trim_toList (s : String) : (trim s).toList =
    ((s.toList.dropWhile isWhitespace).reverse.dropWhile isWhitespace).reverse := by
  rw [trim, String.toList_ofList]

/-- Blanks at its end are cut off from a text that has none. -/
theorem trim_append {s blanks : String} (solid : ∀ c ∈ s.toList, isWhitespace c = false)
    (blank : ∀ c ∈ blanks.toList, isWhitespace c = true) : trim (s ++ blanks) = s := by
  rw [← String.toList_inj, trim_toList, String.toList_append]
  have none_dropped {l : List Char} (solid : ∀ c ∈ l, isWhitespace c = false) :
      l.dropWhile isWhitespace = l := by
    cases l with
    | nil => rfl
    | cons c l =>
      rw [List.dropWhile_cons_of_neg]
      simp [solid c List.mem_cons_self]
  have all_dropped {l : List Char} (blank : ∀ c ∈ l, isWhitespace c = true) :
      l.dropWhile isWhitespace = [] :=
    List.dropWhile_eq_nil_iff.mpr blank
  cases text : s.toList with
  | nil => simp [all_dropped blank]
  | cons c l =>
    have front : (c :: l ++ blanks.toList).dropWhile isWhitespace = c :: l ++ blanks.toList := by
      rw [List.cons_append, List.dropWhile_cons_of_neg]
      simp [solid c (text ▸ List.mem_cons_self)]
    rw [front, List.reverse_append, List.dropWhile_append,
      all_dropped (fun c member => blank c (List.mem_reverse.mp member)), List.isEmpty_nil, if_pos rfl,
      none_dropped (fun c member => solid c (text ▸ List.mem_reverse.mp member)), List.reverse_reverse]

theorem trim_solid {s : String} (solid : ∀ c ∈ s.toList, isWhitespace c = false) : trim s = s := by
  have whole : trim (s ++ "") = s := trim_append solid (by simp)
  rwa [String.append_empty] at whole

theorem trim_encode (bytes : List UInt8) : trim (engine.encode bytes) = engine.encode bytes :=
  trim_solid (engine.solid bytes)

theorem trim_secretText (bytes : List UInt8) :
    trim (secretText (engine.encode bytes)) = engine.encode bytes :=
  trim_append (engine.solid bytes) (by simp [isWhitespace])

/-! Reading. -/

variable {hash : List UInt8 → List UInt8 → Option (Vector UInt8 32)}

/-- A key is read from its own text, with blanks around it, and from no other. -/
theorem decodeKey_eq_ok {s : String} {bytes : Vector UInt8 32} :
    decodeKey (engine.library hash) s = .ok bytes ↔ trim s = engine.encode bytes.toList := by
  have decoder : (engine.library hash).decode (trim s) = engine.decode (trim s) := rfl
  rw [decodeKey, decodeBytes, decoder, ← engine.decode_eq_some]
  cases decoded : engine.decode (trim s) with
  | none => simp
  | some raw =>
    dsimp only
    rw [Option.some.injEq]
    cases fits : Bytes.tryInto 32 raw with
    | none =>
      simp only [reduceCtorEq, false_iff]
      rintro rfl
      rw [Bytes.tryInto_toList] at fits
      cases fits
    | some v =>
      have same := Bytes.tryInto_eq_some.mp fits
      subst same
      rw [Except.ok.injEq]
      exact ⟨fun h => h ▸ rfl, fun h => Option.some.inj ((Bytes.tryInto_toList v).symm.trans
        (h ▸ Bytes.tryInto_toList bytes))⟩

theorem PublicKey.fromBase64_eq_ok {s : String} {k : PublicKey} :
    PublicKey.fromBase64 (engine.library hash) s = .ok k ↔ trim s = k.toBase64 engine := by
  unfold fromBase64 toBase64
  rw [← decodeKey_eq_ok]
  cases decodeKey (engine.library hash) s with
  | error e => simp [Except.map]
  | ok bytes =>
    obtain ⟨v⟩ := k
    simp [Except.map]

theorem SecretKey.fromBase64_eq_ok {s : String} {k : SecretKey} :
    SecretKey.fromBase64 (engine.library hash) s = .ok k ↔ trim s = k.toBase64 engine := by
  unfold fromBase64 toBase64
  rw [← decodeKey_eq_ok]
  cases decodeKey (engine.library hash) s with
  | error e => simp [Except.map]
  | ok bytes =>
    obtain ⟨v⟩ := k
    simp [Except.map]

/-! The engine as it is. -/

theorem standard_solid (bytes : List UInt8) :
    ∀ c ∈ (Base64.encode bytes).toList, isWhitespace c = false := by
  intro c member
  rw [Base64.encode, String.toList_ofList] at member
  have all : ('=' :: Base64.alphabet).all (isWhitespace · = false) = true := by decide +kernel
  have known := List.all_eq_true.mp all
  rcases Base64.mem_encodeChars member with symbol | rfl
  · exact of_decide_eq_true (known c (.tail _ symbol))
  · exact of_decide_eq_true (known _ (.head _))

def Engine.standard : Engine where
  encode := Base64.encode
  decode := Base64.decode
  decode_eq_some := Base64.decode_eq_some
  solid := standard_solid

end HyperionVpn
