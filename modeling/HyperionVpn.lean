import HyperionVpn.Core.KnockReplay
import HyperionVpn.Core.NoiseIntegrity
import HyperionVpn.Core.PoolProofs
import HyperionVpn.Server.FirewallWindow
import HyperionVpn.Client.Config
import HyperionVpn.Lib.FirstFit
import HyperionVpn.Client.VirtualIps
import HyperionVpn.Client.Editing
import HyperionVpn.Client.StableIps
import HyperionVpn.Client.Loading
import HyperionVpn.Client.Reloading
import HyperionVpn.Client.Registry
import HyperionVpn.Client.Managed
import HyperionVpn.Core.NoiseRetry
import HyperionVpn.Core.NoiseTruncation
import HyperionVpn.Core.NoiseInvariant
import HyperionVpn.Core.KnockBinding
import HyperionVpn.Lib.ClassicBpf
import HyperionVpn.Server.KnockFilter
import HyperionVpn.Server.CooldownTable
import HyperionVpn.Client.TunMode
import HyperionVpn.Core.Mux
import HyperionVpn.Core.MuxProofs
import HyperionVpn.Core.MuxRuns
import HyperionVpn.Lib.Pipe
import HyperionVpn.Core.HandleStream
import HyperionVpn.Core.ForwardOne
import HyperionVpn.Core.Relay
import HyperionVpn.Core.Accept
import HyperionVpn.Lib.Interleaving
import HyperionVpn.Core.ServeConnection
import HyperionVpn.Core.Answers
import HyperionVpn.Core.ServeConnectionProofs
import HyperionVpn.Core.AccessControl
import HyperionVpn.Client.UsableIps
import HyperionVpn.Lib.Shell
import HyperionVpn.Lib.PolicyRouting
import HyperionVpn.Client.Routes
import HyperionVpn.Client.Routing
import HyperionVpn.Server.Serve
import HyperionVpn.Common.Daemon
import HyperionVpn.Server.Config
import HyperionVpn.Common.Up
import HyperionVpn.Core.PacketGrammar
import HyperionVpn.Core.HandshakeAgreement
import HyperionVpn.Core.SuperviseProofs
import HyperionVpn.Core.SupervisionProofs
import HyperionVpn.Common.LifecycleSignals
import HyperionVpn.Lib.Nftables
import HyperionVpn.Server.SpaProofs
import HyperionVpn.Common.ProvisioningProofs
