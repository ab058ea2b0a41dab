import HyperionVpn.Core.Error
import HyperionVpn.Lib.Bytes

/-! What the two ends of a stream say before they relay on it: the port that
the client asks for, and the server's answer. -/
namespace HyperionVpn
open Bytes

structure ConnectRequest where
  port : UInt16
  deriving DecidableEq, Repr

inductive ConnectResponse where
  | ok
  | denied
  | unreachable
  deriving DecidableEq, Repr

namespace ConnectResponse

def code : ConnectResponse → UInt8
  | ok => 0
  | denied => 1
  | unreachable => 2

def fromCode (code : UInt8) : Except Error ConnectResponse :=
  if code = 0 then .ok ok
  else if code = 1 then .ok denied
  else if code = 2 then .ok unreachable
  else .error (.protocol "invalid connect response code")

theorem fromCode_code (r : ConnectResponse) : fromCode r.code = .ok r := by
  cases r <;> rfl

theorem fromCode_eq_ok {code : UInt8} {r : ConnectResponse} : fromCode code = .ok r ↔ code = r.code := by
  constructor
  · intro decoded
    unfold fromCode at decoded
    split at decoded
    · cases decoded
      assumption
    split at decoded
    · cases decoded
      assumption
    split at decoded
    · cases decoded
      assumption
    · cases decoded
  · rintro rfl
    exact fromCode_code r

end ConnectResponse

namespace ConnectRequest

/-- What `write_connect_request` writes. -/
def bytes (request : ConnectRequest) : List UInt8 := u16ToBE request.port

/-- What `read_connect_request` makes of the two bytes that it reads. -/
def fromBytes (hi lo : UInt8) : ConnectRequest := ⟨u16FromBE hi lo⟩

@[simp] theorem bytes_length (request : ConnectRequest) : request.bytes.length = 2 :=
  u16ToBE_length _

theorem bytes_fromBytes (hi lo : UInt8) : (fromBytes hi lo).bytes = [hi, lo] := u16ToBE_fromBE hi lo

theorem fromBytes_eq {request : ConnectRequest} {hi lo : UInt8} (same : request.bytes = [hi, lo]) :
    fromBytes hi lo = request := by
  obtain ⟨port⟩ := request
  simpa only [fromBytes, mk.injEq] using u16FromBE_toBE same

end ConnectRequest
end HyperionVpn
