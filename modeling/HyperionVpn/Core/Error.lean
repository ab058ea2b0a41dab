import Mathlib

/-! The core crate's error type, its version constant and the types that
several of its modules share. -/
namespace HyperionVpn

inductive Poll (α : Type) where
  | pending
  | ready (value : α)
  deriving DecidableEq, Repr

/-- `std::io::ErrorKind`, as far as the crate constructs or inspects it. -/
inductive ErrorKind where
  | writeZero
  | unexpectedEof
  | invalidData
  | interrupted
  | other
  | os (code : Nat)
  deriving DecidableEq, Repr

structure IoError where
  kind : ErrorKind
  message : String
  deriving DecidableEq, Repr

inductive Error where
  | io (error : IoError)
  | handshake
  | unauthorized
  | protocol (message : String)
  | egressDenied (destination : String)
  deriving DecidableEq, Repr

def protocolVersion : UInt16 := 1

def defaultListenPort : UInt16 := 8443

structure Psk where
  bytes : Vector UInt8 32
  deriving DecidableEq

structure PublicKey where
  bytes : Vector UInt8 32
  deriving DecidableEq

end HyperionVpn
