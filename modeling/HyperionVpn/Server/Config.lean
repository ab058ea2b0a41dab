import HyperionVpn.Client.Config
import HyperionVpn.Core.ServeConnection
import HyperionVpn.Server.FirewallWindow

/-! The server's config file and how it is loaded. As for the client's, a file is
the value that its TOML text stands for. -/
namespace HyperionVpn.Server
open Net Client

structure KeySource where
  source : String
  envVar : Option String
  file : Option String
  value : Option String
  passphraseEnv : Option String
  salt : Option String
  deriving DecidableEq, Repr

structure Identity where
  staticKeyFile : String
  adminPubkeys : List String
  deriving DecidableEq, Repr

structure KnockSection where
  enabled : Bool
  knockPort : Option UInt16
  windowSecs : Option UInt64
  deriving DecidableEq, Repr

structure FirewallSection where
  table : String
  set : String
  ttlSecs : UInt64
  deriving DecidableEq, Repr

structure FileConfig where
  listen : String
  key : KeySource
  identity : Identity
  egress : List UInt16
  knock : KnockSection
  firewall : FirewallSection
  deriving DecidableEq, Repr

structure LoadedConfig where
  listen : SocketAddr
  server : ServerConfig
  knock : Option KnockRuntime

structure Summary where
  listen : String
  knockEnabled : Bool
  egress : List UInt16
  adminCount : Nat
  keyIsPassphrase : Bool
  passphraseEnv : Option String
  deriving DecidableEq, Repr

def summarize (file : FileConfig) : Summary :=
  let (keyIsPassphrase, passphraseEnv) :=
    if file.key.source = "passphrase" then (true, file.key.passphraseEnv) else (false, none)
  { listen := file.listen
    knockEnabled := file.knock.enabled
    egress := file.egress
    adminCount := file.identity.adminPubkeys.length
    keyIsPassphrase
    passphraseEnv }

section Environment
variable (env : Environment)

def loadPsk (key : KeySource) : Anyhow Psk := do
  if key.source = "passphrase" then
    let salt ← contextNone "key.source = passphrase requires key.salt" key.salt
    let passphrase ← readPassphrase env "hyperion server passphrase: " key.passphraseEnv
    contextError "deriving PSK from passphrase" Error.display
      (Psk.fromPassphrase env.library passphrase.toUTF8.toList salt.toUTF8.toList)
  else if key.source = "env" then
    let var ← contextNone "key.source = env requires key.env_var" key.envVar
    pskFromBase64 env (← envVar env var)
  else if key.source = "file" then
    let file ← contextNone "key.source = file requires key.file" key.file
    let path := expandHome env file
    pskFromBase64 env (← contextError s!"reading psk file {path}" id (env.readToString path))
  else if key.source = "value" then
    pskFromBase64 env (← contextNone "key.source = value requires key.value" key.value)
  else bail s!"unknown key.source: {key.source}"

def loadAdmins : List String → Anyhow (List PublicKey)
  | [] => return []
  | pk :: rest => do
    let admin ← contextError "invalid admin pubkey" Error.display
      (PublicKey.fromBase64 env.library pk)
    return admin :: (← loadAdmins rest)

/-- `publicKey` is the key library's. -/
def load (publicKey : SecretKey → PublicKey) (file : FileConfig) : Anyhow LoadedConfig := do
  let listen ← contextParse s!"invalid listen address: {file.listen}" invalidSocketAddr
    (SocketAddr.parse file.listen)
  let psk ← loadPsk env file.key
  let keyPath := expandHome env file.identity.staticKeyFile
  let secretB64 ← contextError s!"reading static key {keyPath}" id (env.readToString keyPath)
  let staticSecret ← contextError "invalid static key" Error.display
    (SecretKey.fromBase64 env.library (trim secretB64))
  let allowedAdmins ← loadAdmins env file.identity.adminPubkeys
  if allowedAdmins = [] then
    bail "identity.admin_pubkeys is empty — no admin could authenticate"
  else
    let knock := if file.knock.enabled then some {
        knockPort := file.knock.knockPort.getD listen.port
        tunnelPort := listen.port
        psk
        serverPub := publicKey staticSecret
        windowSecs := file.knock.windowSecs.getD 30
        table := file.firewall.table
        set := file.firewall.set
        ttlSecs := file.firewall.ttlSecs } else none
    let egress : Egress := ⟨file.egress.toFinset⟩
    return ⟨listen, { staticSecret, psk, allowedAdmins, egress }, knock⟩

end Environment

def FirewallSection.default : FirewallSection := ⟨"hyperion", "knock_allow", 60⟩

/-- The file that `init_config` writes. -/
def initConfig (keyPath salt adminKey : String) (allow : List UInt16) (listen : String) :
    FileConfig where
  listen
  key := {
    source := "passphrase"
    envVar := none
    file := none
    value := none
    passphraseEnv := some "HYPERION_PASSPHRASE"
    salt := some salt }
  identity := ⟨keyPath, [adminKey]⟩
  egress := allow
  knock := ⟨true, none, none⟩
  firewall := FirewallSection.default

end HyperionVpn.Server
