import HyperionVpn.Core.HandshakeProofs

/-! Who gets a stream out of the handshake: the results of the plain exchange, with
a library that keeps to the pattern IKpsk2. -/
namespace HyperionVpn
open Bytes Framing Machine

namespace Handshake

variable {noise : HandshakeLibrary} {publicKey : SecretKey → PublicKey} {s : HandshakeSetup}

end Handshake
end HyperionVpn
