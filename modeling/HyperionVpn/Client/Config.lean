import HyperionVpn.Core.Keys
import HyperionVpn.Lib.KeyMap
import HyperionVpn.Lib.SocketAddr

/-! The client's config file: how it is loaded and how the commands edit it. A
file is the value that its TOML text stands for. -/
namespace HyperionVpn.Client
open Net

/-- An error with the messages of its chain, outermost first, or a panic. -/
inductive Failure where
  | error (chain : List String)
  | panic
  deriving DecidableEq, Repr

abbrev Anyhow (α : Type) := Except Failure α

def bail (message : String) : Anyhow α := .error (.error [message])

/-- `context` on a result of this crate. -/
def context (message : String) : Anyhow α → Anyhow α
  | .error (.error chain) => .error (.error (message :: chain))
  | r => r

/-- `context` on an option. -/
def contextNone (message : String) : Option α → Anyhow α
  | none => bail message
  | some a => .ok a

/-- `context` on a result with an error from elsewhere. -/
def contextError (message : String) (display : ε → String) : Except ε α → Anyhow α
  | .error e => .error (.error [message, display e])
  | .ok a => .ok a

/-- `parse` with its context. -/
def contextParse (message syntaxError : String) : Option α → Anyhow α
  | none => .error (.error [message, syntaxError])
  | some a => .ok a

def invalidIpv4 : String := "invalid IPv4 address syntax"
def invalidSocketAddr : String := "invalid socket address syntax"

/-- What a command sees besides the config file; a failed access answers with
the text of its error. -/
structure Environment where
  library : KeyLibrary
  var : String → Except String String
  readToString : String → Except String String
  promptPassword : String → Except String String

/-! The file. -/

structure KeySection where
  source : String
  envVar : Option String
  value : Option String
  passphraseEnv : Option String
  salt : Option String
  deriving DecidableEq, Repr

structure KnockSection where
  enabled : Bool
  port : Option UInt16
  deriving DecidableEq, Repr

structure TunSection where
  addr : String
  prefixLen : UInt8
  mtu : UInt16
  deriving DecidableEq, Repr

structure ServerSection where
  name : String
  addr : String
  serverPubkey : String
  virtualIp : Option String
  keyEnv : Option String
  keyValue : Option String
  poolSize : Option Nat
  deriving DecidableEq, Repr

structure ForwardSection where
  local_ : String
  server : String
  remotePort : UInt16
  deriving DecidableEq, Repr

structure FileConfig where
  adminStaticKeyFile : String
  poolSize : Option Nat
  key : Option KeySection
  knock : KnockSection
  tun : TunSection
  server : List ServerSection
  forward : List ForwardSection
  deriving DecidableEq, Repr

/-! What it is loaded into. -/

/-- The bounds of the prefix keep the shifts of the mask within a word. -/
structure TunConfig where
  addr : Ipv4Addr
  prefixLen : UInt8
  mtu : UInt16
  prefix_pos : 0 < prefixLen.toNat
  prefix_le : prefixLen.toNat ≤ 30

structure KnockSettings where
  port : UInt16
  deriving DecidableEq, Repr

structure TunnelParams where
  staticSecret : SecretKey
  serverPubkey : PublicKey
  psk : Psk
  knock : Option KnockSettings
  fwmark : Option UInt32
  deriving DecidableEq

structure ServerEntry where
  addr : SocketAddr
  virtualIp : Ipv4Addr
  params : TunnelParams
  poolSize : Nat
  deriving DecidableEq

structure ForwardEntry where
  local_ : SocketAddr
  server : String
  remotePort : UInt16
  deriving DecidableEq

structure LoadedClient where
  servers : KeyMap String ServerEntry
  forwards : List ForwardEntry
  tun : TunConfig

def defaultPoolSize : Nat := 2
def virtualHostStart : Nat := 10

/-! Virtual addresses. -/

def parseTun (t : TunSection) : Anyhow TunConfig := do
  let addr ← contextParse s!"[tun] invalid addr {t.addr}" invalidIpv4 (Ipv4Addr.parse t.addr)
  if bounds : 0 < t.prefixLen.toNat ∧ t.prefixLen.toNat ≤ 30 then
    return ⟨addr, t.prefixLen, t.mtu, bounds.1, bounds.2⟩
  else bail "[tun] prefix must be between 1 and 30"

namespace TunConfig

def mask (tun : TunConfig) : UInt32 := 0xffffffff <<< (32 - tun.prefixLen).toUInt32

def base (tun : TunConfig) : UInt32 := tun.addr.toU32 &&& tun.mask

def hostCount (tun : TunConfig) : UInt32 := 1 <<< (32 - tun.prefixLen).toUInt32

/-- The candidates, in the order in which they are tried. -/
def candidates (tun : TunConfig) : List Ipv4Addr :=
  (List.range' virtualHostStart (tun.hostCount.toNat - 1 - virtualHostStart)).map fun h =>
    Ipv4Addr.ofU32 (tun.base + UInt32.ofNat h)

end TunConfig

def assignVirtualIp (tun : TunConfig) (used : Finset Ipv4Addr) : Option Ipv4Addr :=
  tun.candidates.find? fun cand => cand ≠ tun.addr && cand ∉ used

def noFreeVirtualIp : String := "no free virtual IP left in the tun subnet"

/-- The first loop of `resolve_virtual_ips`. -/
def collectUsed (used : Finset Ipv4Addr) : List ServerSection → Anyhow (Finset Ipv4Addr)
  | [] => return used
  | s :: rest =>
    match s.virtualIp with
    | none => collectUsed used rest
    | some vip => do
      let ip ← contextParse s!"server {s.name}: invalid virtual_ip {vip}" invalidIpv4
        (Ipv4Addr.parse vip)
      if ip ∈ used then bail s!"duplicate virtual_ip {ip.display}"
      else collectUsed (insert ip used) rest

/-- The second loop, with the unwrap of what the first has parsed. -/
def assignAll (tun : TunConfig) (used : Finset Ipv4Addr) :
    List ServerSection → Anyhow (List Ipv4Addr)
  | [] => return []
  | s :: rest =>
    match s.virtualIp with
    | some vip =>
      match Ipv4Addr.parse vip with
      | none => .error .panic
      | some ip => return ip :: (← assignAll tun used rest)
    | none => do
      let ip ← contextNone noFreeVirtualIp (assignVirtualIp tun used)
      return ip :: (← assignAll tun (insert ip used) rest)

def resolveVirtualIps (tun : TunConfig) (servers : List ServerSection) :
    Anyhow (List Ipv4Addr) := do
  let used ← collectUsed ∅ servers
  assignAll tun used servers

/-! Secrets. -/

/-- `PathBuf::join`. -/
def joinPath (dir rest : String) : String :=
  if rest.startsWith "/" then rest
  else if dir = "" ∨ dir.endsWith "/" then dir ++ rest
  else dir ++ "/" ++ rest

def stripPrefix (pre s : String) : Option String :=
  if pre.toList.isPrefixOf s.toList then some (String.ofList (s.toList.drop pre.length)) else none

section Environment
variable (env : Environment)

def homeDir : Option String := (env.var "HOME").toOption

def expandHome (path : String) : String :=
  match (stripPrefix "~/" path).or (stripPrefix "~\\" path), homeDir env with
  | some rest, some home => joinPath home rest
  | _, _ => path

def promptPassphrase (prompt : String) : Anyhow String :=
  contextError "reading passphrase" id (env.promptPassword prompt)

def readPassphrase (prompt : String) (passphraseEnv : Option String) : Anyhow String :=
  match passphraseEnv with
  | none => promptPassphrase env prompt
  | some var =>
    match env.var var with
    | .ok val => .ok val
    | .error _ => promptPassphrase env prompt

def envVar (var : String) : Anyhow String :=
  contextError s!"env var {var} not set" id (env.var var)

def pskFromBase64 (s : String) : Anyhow Psk :=
  contextError "invalid PSK" Error.display (Psk.fromBase64 env.library (trim s))

def resolveDefaultPsk (key : KeySection) : Anyhow Psk := do
  if key.source = "passphrase" then
    let salt ← contextNone "[key] source = passphrase requires salt" key.salt
    let passphrase ← readPassphrase env "hyperion shared passphrase: " key.passphraseEnv
    contextError "deriving PSK from passphrase" Error.display
      (Psk.fromPassphrase env.library passphrase.toUTF8.toList salt.toUTF8.toList)
  else if key.source = "env" then
    let var ← contextNone "[key] source = env requires env_var" key.envVar
    pskFromBase64 env (← envVar env var)
  else if key.source = "value" then
    pskFromBase64 env (← contextNone "[key] source = value requires value" key.value)
  else bail s!"unknown [key] source: {key.source}"

def resolvePsk (s : ServerSection) (defaultPsk : Option Psk) : Anyhow Psk :=
  match s.keyEnv, s.keyValue, defaultPsk with
  | some var, _, _ => do pskFromBase64 env (← envVar env var)
  | none, some value, _ => pskFromBase64 env value
  | none, none, some psk => .ok psk
  | none, none, none => bail "server has no key_env/key_value and no global [key] is configured"

/-! Loading. -/

/-- One turn of the loop over the servers, up to the insertion. -/
def loadServer (file : FileConfig) (adminSecret : SecretKey) (defaultPsk : Option Psk)
    (s : ServerSection) (virtualIp : Ipv4Addr) : Anyhow ServerEntry := do
  let addr ← contextParse s!"server {s.name}: invalid addr {s.addr}" invalidSocketAddr
    (SocketAddr.parse s.addr)
  let serverPubkey ← contextError s!"server {s.name}: invalid server_pubkey" Error.display
    (PublicKey.fromBase64 env.library s.serverPubkey)
  let psk ← context s!"server {s.name}: psk" (resolvePsk env s defaultPsk)
  let knock := if file.knock.enabled then some ⟨file.knock.port.getD addr.port⟩ else none
  return {
    addr
    virtualIp
    params := { staticSecret := adminSecret, serverPubkey, psk, knock, fwmark := none }
    poolSize := (s.poolSize.or file.poolSize).getD defaultPoolSize }

def loadServers (file : FileConfig) (adminSecret : SecretKey) (defaultPsk : Option Psk)
    (servers : KeyMap String ServerEntry) :
    List (ServerSection × Ipv4Addr) → Anyhow (KeyMap String ServerEntry)
  | [] => return servers
  | (s, virtualIp) :: rest => do
    let entry ← loadServer env file adminSecret defaultPsk s virtualIp
    if s.name ∈ servers then bail s!"duplicate server name: {s.name}"
    else loadServers file adminSecret defaultPsk (servers.insert s.name entry) rest

def loadForwards (servers : KeyMap String ServerEntry) :
    List ForwardSection → Anyhow (List ForwardEntry)
  | [] => return []
  | f :: rest => do
    let addr ← contextParse s!"forward: invalid local addr {f.local_}" invalidSocketAddr
      (SocketAddr.parse f.local_)
    if f.server ∉ servers then bail s!"forward references unknown server: {f.server}"
    else return ⟨addr, f.server, f.remotePort⟩ :: (← loadForwards servers rest)

def readAdminKey (file : FileConfig) : Anyhow SecretKey := do
  let keyPath := expandHome env file.adminStaticKeyFile
  let adminB64 ← contextError s!"reading admin key {keyPath}" id (env.readToString keyPath)
  contextError "invalid admin key" Error.display (SecretKey.fromBase64 env.library (trim adminB64))

def readDefaultPsk (file : FileConfig) : Anyhow (Option Psk) :=
  match file.key with
  | none => return none
  | some k => return some (← resolveDefaultPsk env k)

def load (file : FileConfig) : Anyhow LoadedClient := do
  let adminSecret ← readAdminKey env file
  let defaultPsk ← readDefaultPsk env file
  let tun ← parseTun file.tun
  let vips ← resolveVirtualIps tun file.server
  let servers ← loadServers env file adminSecret defaultPsk ∅ (file.server.zip vips)
  let forwards ← loadForwards servers file.forward
  return ⟨servers, forwards, tun⟩

structure ServerSummary where
  name : String
  addr : String
  virtualIp : Ipv4Addr
  deriving DecidableEq, Repr

structure Summary where
  servers : List ServerSummary
  keyIsPassphrase : Bool
  passphraseEnv : Option String
  tunAddr : Ipv4Addr
  deriving DecidableEq, Repr

end Environment

def summarize (file : FileConfig) : Anyhow Summary := do
  let tun ← parseTun file.tun
  let vips ← resolveVirtualIps tun file.server
  let servers := (file.server.zip vips).map fun (s, virtualIp) => ⟨s.name, s.addr, virtualIp⟩
  let (keyIsPassphrase, passphraseEnv) := match file.key with
    | some k => if k.source = "passphrase" then (true, k.passphraseEnv) else (false, none)
    | none => (false, none)
  return { servers, keyIsPassphrase, passphraseEnv, tunAddr := tun.addr }

/-! Editing. -/

def TunSection.default : TunSection := ⟨"10.99.0.1", 24, 1420⟩

/-- The file that `init_config` writes, for the path of the key that it stores
and the text of the key from which it takes the salt. -/
def initConfig (keyPath saltKey : String) : FileConfig where
  adminStaticKeyFile := keyPath
  poolSize := none
  key := some {
    source := "passphrase"
    envVar := none
    value := none
    passphraseEnv := some "HYPERION_PASSPHRASE"
    salt := some (String.ofList ((saltKey.toList.filter Char.isAlphanum).take 22)) }
  knock := ⟨true, none⟩
  tun := TunSection.default
  server := []
  forward := []

def normalizeAddr (addr : String) : String :=
  if ':' ∈ addr.toList then addr else s!"{addr}:{defaultListenPort.toNat}"

/-- The addresses that `add_server` avoids. -/
def explicitIps (servers : List ServerSection) : Finset Ipv4Addr :=
  (servers.filterMap fun s => s.virtualIp.bind Ipv4Addr.parse).toFinset

def addServer (env : Environment) (file : FileConfig) (name addr serverPubkey : String) :
    Anyhow (Ipv4Addr × FileConfig) := do
  let parsedAddr ← contextParse s!"invalid server addr {addr}" invalidSocketAddr
    (SocketAddr.parse (normalizeAddr addr))
  let _ ← contextError "invalid server_pubkey" Error.display
    (PublicKey.fromBase64 env.library serverPubkey)
  if file.server.any (·.name = name) then bail s!"server {name} already exists"
  else
    let tun ← parseTun file.tun
    let vip ← contextNone noFreeVirtualIp (assignVirtualIp tun (explicitIps file.server))
    let added : ServerSection :=
      ⟨name, parsedAddr.display, serverPubkey, some vip.display, none, none, none⟩
    return (vip, { file with server := file.server ++ [added] })

def removeServer (file : FileConfig) (name : String) : Anyhow FileConfig :=
  let server := file.server.filter (·.name ≠ name)
  if server.length = file.server.length then bail s!"no server named {name}"
  else return { file with server }

end HyperionVpn.Client
