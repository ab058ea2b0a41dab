import HyperionVpn.Core.Error
import HyperionVpn.Lib.Bytes

/-! Keys and pre-shared keys from their texts. The base64 decoder and the
password hash are parameters: any functions of their libraries' types. -/
namespace HyperionVpn

structure SecretKey where
  bytes : Vector UInt8 32
  deriving DecidableEq

/-- `decode` is the standard base64 engine's, `hashPasswordInto` the default
argon2 of a passphrase and a salt. -/
structure KeyLibrary where
  decode : String → Option (List UInt8)
  hashPasswordInto : List UInt8 → List UInt8 → Option (Vector UInt8 32)

/-- `char::is_whitespace`. -/
def isWhitespace (c : Char) : Bool :=
  let n := c.toNat
  (9 ≤ n && n ≤ 13) || n = 0x20 || n = 0x85 || n = 0xa0 || n = 0x1680 ||
    (0x2000 ≤ n && n ≤ 0x200a) || n = 0x2028 || n = 0x2029 || n = 0x202f || n = 0x205f || n = 0x3000

def trim (s : String) : String :=
  String.ofList ((s.toList.dropWhile isWhitespace).reverse.dropWhile isWhitespace).reverse

def Error.display : Error → String
  | .io e => "io error: " ++ e.message
  | .handshake => "handshake failed"
  | .unauthorized => "peer is not an authorized admin"
  | .protocol message => "protocol violation: " ++ message
  | .egressDenied destination => "destination not permitted: " ++ destination

variable (library : KeyLibrary)

/-- The two key formats differ in the texts of their errors only. -/
def decodeBytes (noBase64 noLength : String) (s : String) : Except Error (Vector UInt8 32) :=
  match library.decode (trim s) with
  | none => .error (.protocol noBase64)
  | some raw =>
    match Bytes.tryInto 32 raw with
    | none => .error (.protocol noLength)
    | some bytes => .ok bytes

def decodeKey (s : String) : Except Error (Vector UInt8 32) :=
  decodeBytes library "invalid base64 key" "key must be 32 bytes" s

def SecretKey.fromBase64 (s : String) : Except Error SecretKey :=
  (decodeKey library s).map SecretKey.mk

def PublicKey.fromBase64 (s : String) : Except Error PublicKey :=
  (decodeKey library s).map PublicKey.mk

def Psk.fromBase64 (s : String) : Except Error Psk :=
  (decodeBytes library "invalid base64 psk" "psk must be 32 bytes" s).map Psk.mk

def minSaltLen : Nat := 8

def Psk.fromPassphrase (passphrase salt : List UInt8) : Except Error Psk :=
  if salt.length < minSaltLen then .error (.protocol "salt must be at least 8 bytes")
  else match library.hashPasswordInto passphrase salt with
    | none => .error (.protocol "argon2 derivation failed")
    | some bytes => .ok ⟨bytes⟩

end HyperionVpn
