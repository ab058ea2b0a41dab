import HyperionVpn.Client.Managed
import HyperionVpn.Core.KeyTexts
import HyperionVpn.Lib.ParseInt
import HyperionVpn.Server.Config

/-! How an admin and any number of servers are set up, by what the commands write
and print. What one prints, a person passes on to another, or something else. -/
namespace HyperionVpn.Common
open Net Text Client Machine

/-- `parse` on a `u16`. -/
def parseU16 (s : String) : Except ParseIntError UInt16 :=
  (parseUnsigned 65535 s).map UInt16.ofNat

def portOf (listen : String) : String :=
  let last := String.ofList (listen.toList.reverse.takeWhile (· ≠ ':')).reverse
  if (parseU16 last).toOption.isSome then last else "8443"

def noSuchFile : String := "No such file or directory (os error 2)"

/-- A computer, apart from the files of the program that it is for. -/
structure Computer where
  var : String → Except String String
  promptPassword : String → Except String String

def configDir (computer : Computer) : String :=
  match computer.var "HYPERION_HOME", computer.var "XDG_CONFIG_HOME", computer.var "HOME" with
  | .ok dir, _, _ => dir
  | .error _, .ok xdg, _ => joinPath xdg "hyperion"
  | .error _, .error _, .ok home => joinPath (joinPath home ".config") "hyperion"
  | .error _, .error _, .error _ => "hyperion"

/-- How a text is written to a file: to its end, or the file is not opened, or it is
emptied and then something fails, with so much of the text in it by then. -/
inductive Write (L : Type) where
  | done
  | notOpened (error : String)
  | cut (left : L) (error : String)

/-- Whether a write that fails leaves the file as it was. -/
def Write.Clean {L : Type} : Write L → Prop
  | .done | .notOpened _ => True
  | .cut _ _ => False

instance {L : Type} : (write : Write L) → Decidable write.Clean
  | .done | .notOpened _ => .isTrue trivial
  | .cut _ _ => .isFalse id

/-- The characters that the file has in the end. It can have all of them, where its
permissions are what fails. -/
def writeSecret (write : Write Nat) (path contents : String) (old : Option String) :
    Anyhow Unit × Option String :=
  let text := secretText contents
  match write with
  | .done => (.ok (), some text)
  | .notOpened error => (.error (.error [s!"writing {path}", error]), old)
  | .cut left error => (.error (.error [error]), some (String.ofList (text.toList.take left)))

/-- A config, or what the parser says of a text that is none. -/
abbrev Parsed (F : Type) := Except String F

/-- A file that is written whole reads as it was meant; what becomes of a text that
was cut is the parser's business. -/
def writeFile {F : Type} (write : Write (Parsed F)) (path : String) (file : F)
    (old : Option (Parsed F)) : Anyhow Unit × Option (Parsed F) :=
  match write with
  | .done => (.ok (), some (.ok file))
  | .notOpened error => (.error (.error [s!"writing config {path}", error]), old)
  | .cut left error => (.error (.error [s!"writing config {path}", error]), some left)

def readFile {F : Type} (path : String) : Option (Parsed F) → Anyhow F
  | none => .error (.error [s!"reading config {path}", noSuchFile])
  | some (.error error) => .error (.error ["parsing config TOML", error])
  | some (.ok file) => .ok file

/-- The files of one of the programs: its config, and the text of its key. -/
structure Files (F : Type) where
  config : Option (Parsed F)
  key : Option String

/-- What the system answers to an `init`. -/
structure Writes (F : Type) where
  dir : Except String Unit
  key : Write Nat
  config : Write (Parsed F)

/-- Whether an `init` that fails leaves both files as they were. -/
def Writes.Clean {F : Type} (writes : Writes F) : Prop :=
  match writes.dir, writes.key, writes.config with
  | .error _, _, _ | .ok (), .notOpened _, _ | .ok (), .done, .done => True
  | .ok (), .cut _ _, _ | .ok (), .done, .notOpened _ | .ok (), .done, .cut _ _ => False

instance {F : Type} (writes : Writes F) : Decidable writes.Clean := by
  unfold Writes.Clean
  split <;> infer_instance

/-- What a command sees. -/
def Computer.environment {F : Type} (computer : Computer) (library : KeyLibrary) (keyFile : String)
    (files : Files F) : Environment where
  library := library
  var := computer.var
  readToString path :=
    if path = keyFile then files.key.elim (.error noSuchFile) .ok else .error noSuchFile
  promptPassword := computer.promptPassword

/-- Everybody's files. -/
structure Fleet (H : Type) where
  admin : Files Client.FileConfig
  servers : H → Files Server.FileConfig

inductive Setup (H : Type) where
  | initClient (force : Bool) (secret saltSecret : SecretKey) (writes : Writes Client.FileConfig)
  | edit (e : Edit) (write : Write (Parsed Client.FileConfig))
  | initServer (host : H) (force : Bool) (secret : SecretKey) (salt adminKey : String)
      (allow : List UInt16) (listen : String) (writes : Writes Server.FileConfig)

inductive Printed where
  | client (adminKey salt : String)
  | edited (virtualIp : Option Ipv4Addr)
  | server (serverKey port : String)
  deriving DecidableEq, Repr

/-- The computers, and the libraries that both programs make keys with. -/
structure Site (H : Type) where
  publicKey : SecretKey → PublicKey
  engine : Engine
  hash : List UInt8 → List UInt8 → Option (Vector UInt8 32)
  admin : Computer
  server : H → Computer

namespace Site

variable {H : Type} (site : Site H)

def library : KeyLibrary := site.engine.library site.hash

def adminKeyFile : String := joinPath (configDir site.admin) "admin.key"

def adminConfigFile : String := joinPath (configDir site.admin) "hyperion.toml"

def serverKeyFile (host : H) : String := joinPath (configDir (site.server host)) "server.key"

def serverConfigFile (host : H) : String := joinPath (configDir (site.server host)) "server.toml"

def adminEnv (fleet : Fleet H) : Environment :=
  site.admin.environment site.library site.adminKeyFile fleet.admin

def serverEnv (fleet : Fleet H) (host : H) : Environment :=
  (site.server host).environment site.library (site.serverKeyFile host) (fleet.servers host)

/-- How both kinds of `init` begin. -/
def ensureNew {F : Type} (writes : Writes F) (force : Bool) (configFile : String) (files : Files F) :
    Anyhow Unit :=
  match writes.dir with
  | .error error => .error (.error ["creating config dir", error])
  | .ok () =>
    if files.config.isSome && !force then
      bail s!"config already exists at {configFile} (use --force to overwrite)"
    else .ok ()

/-- How they end: the key is written first. -/
def place {F : Type} (writes : Writes F) (keyFile configFile : String) (secret : String) (file : F)
    (files : Files F) : Anyhow Unit × Files F :=
  match writeSecret writes.key keyFile secret files.key with
  | (.error failure, key) => (.error failure, { files with key })
  | (.ok (), key) =>
    let (written, config) := writeFile writes.config configFile file files.config
    (written, ⟨config, key⟩)

/-- The salt is taken from the characters of a key. -/
def saltOf (saltKey : String) : String :=
  String.ofList ((saltKey.toList.filter Char.isAlphanum).take 22)

def initClient (force : Bool) (secret saltSecret : SecretKey) (writes : Writes Client.FileConfig)
    (files : Files Client.FileConfig) : Anyhow Printed × Files Client.FileConfig :=
  match ensureNew writes force site.adminConfigFile files with
  | .error failure => (.error failure, files)
  | .ok () =>
    let saltKey := (site.publicKey saltSecret).toBase64 site.engine
    let (written, files) := place writes site.adminKeyFile site.adminConfigFile
      (secret.toBase64 site.engine) (Client.initConfig site.adminKeyFile saltKey) files
    (written.map fun () => .client ((site.publicKey secret).toBase64 site.engine) (saltOf saltKey),
      files)

/-- What `add_server` checks of its arguments before it reads the config. -/
def argumentsOk (library : KeyLibrary) : Edit → Anyhow Unit
  | .add _ addr serverPubkey => do
    let _ ← contextParse s!"invalid server addr {addr}" invalidSocketAddr
      (SocketAddr.parse (normalizeAddr addr))
    let _ ← contextError "invalid server_pubkey" Error.display
      (PublicKey.fromBase64 library serverPubkey)
  | .remove _ => .ok ()

def edit (e : Edit) (write : Write (Parsed Client.FileConfig)) (fleet : Fleet H) :
    Option (Anyhow (Option Ipv4Addr) × Files Client.FileConfig) :=
  match readFile site.adminConfigFile fleet.admin.config with
  | .error failure => some ((argumentsOk site.library e).bind fun () => .error failure, fleet.admin)
  | .ok file => do
    let (answer, file') ← Client.edit (site.adminEnv fleet) file e
    match answer with
    | .error failure => return (.error failure, fleet.admin)
    | .ok vip =>
      let (written, config) := writeFile write site.adminConfigFile file' fleet.admin.config
      return (written.map fun () => vip, { fleet.admin with config })

def initServer (host : H) (force : Bool) (secret : SecretKey) (salt adminKey : String)
    (allow : List UInt16) (listen : String) (writes : Writes Server.FileConfig)
    (files : Files Server.FileConfig) : Anyhow Printed × Files Server.FileConfig :=
  let checked : Anyhow Unit := do
    ensureNew writes force (site.serverConfigFile host) files
    let _ ← contextParse s!"invalid listen address {listen}" invalidSocketAddr (SocketAddr.parse listen)
    let _ ← contextError "invalid admin pubkey" Error.display
      (PublicKey.fromBase64 site.library adminKey)
  match checked with
  | .error failure => (.error failure, files)
  | .ok () =>
    let (written, files) := place writes (site.serverKeyFile host) (site.serverConfigFile host)
      (secret.toBase64 site.engine)
      (Server.initConfig (site.serverKeyFile host) salt adminKey allow listen) files
    (written.map fun () => .server ((site.publicKey secret).toBase64 site.engine) (portOf listen), files)

variable [DecidableEq H]

def step (fleet : Fleet H) : Setup H → Option (Anyhow Printed × Fleet H)
  | .initClient force secret saltSecret writes =>
    let (answer, admin) := site.initClient force secret saltSecret writes fleet.admin
    some (answer, { fleet with admin })
  | .initServer host force secret salt adminKey allow listen writes =>
    let (answer, files) :=
      site.initServer host force secret salt adminKey allow listen writes (fleet.servers host)
    some (answer, { fleet with servers := Function.update fleet.servers host files })
  | .edit e write => do
    let (answer, admin) ← site.edit e write fleet
    return (answer.map .edited, { fleet with admin })

/-- Nothing is set up. -/
def bare : Fleet H := ⟨⟨none, none⟩, fun _ => ⟨none, none⟩⟩

abbrev Trace (H : Type) := List (Setup H × Anyhow Printed)

/-! What was done last, and the texts that went with it. -/

structure ClientInit where
  secret : SecretKey
  adminKey : String
  salt : String

structure ServerInit where
  secret : SecretKey
  salt : String
  adminKey : String
  allow : List UInt16
  listen : String
  serverKey : String
  port : String

structure Added where
  addr : String
  serverPubkey : String

/-- The command has broken off while it wrote, with its files neither as they were
nor as they were meant to be. What it would have met in a write that it did not come
to is to be clean. -/
def BreaksAdmin : Setup H × Anyhow Printed → Prop
  | (.initClient _ _ _ writes, .error _) => ¬ writes.Clean
  | (.edit _ write, .error _) => ¬ write.Clean
  | _ => False

def BreaksServer (host : H) : Setup H × Anyhow Printed → Prop
  | (.initServer host' _ _ _ _ _ _ writes, .error _) => host' = host ∧ ¬ writes.Clean
  | _ => False

instance : (e : Setup H × Anyhow Printed) → Decidable (BreaksAdmin e)
  | (.initClient _ _ _ writes, .error _) => inferInstanceAs (Decidable (¬ writes.Clean))
  | (.edit _ write, .error _) => inferInstanceAs (Decidable (¬ write.Clean))
  | (.initServer _ _ _ _ _ _ _ _, _) | (.initClient _ _ _ _, .ok _) | (.edit _ _, .ok _) =>
    .isFalse id

instance (host : H) : (e : Setup H × Anyhow Printed) → Decidable (BreaksServer host e)
  | (.initServer _ _ _ _ _ _ _ writes, .error _) =>
    inferInstanceAs (Decidable (_ = host ∧ ¬ writes.Clean))
  | (.initClient _ _ _ _, _) | (.edit _ _, _) | (.initServer _ _ _ _ _ _ _ _, .ok _) => .isFalse id

/-- A new config, unless the files are broken. -/
def noteClientInit (last : Option ClientInit) : Setup H × Anyhow Printed → Option ClientInit
  | (.initClient _ secret _ _, .ok (.client adminKey salt)) => some ⟨secret, adminKey, salt⟩
  | e => if BreaksAdmin e then none else last

def noteServerInit (host : H) (last : Option ServerInit) (e : Setup H × Anyhow Printed) :
    Option ServerInit :=
  match e with
  | (.initServer host' _ secret salt adminKey allow listen _, .ok (.server serverKey port)) =>
    if host' = host then some ⟨secret, salt, adminKey, allow, listen, serverKey, port⟩ else last
  | e => if BreaksServer host e then none else last

/-- A new config has no servers. -/
def noteAdded (name : String) (last : Option Added) : Setup H × Anyhow Printed → Option Added
  | (.initClient _ _ _ _, .ok _) => none
  | (.edit (.add name' addr serverPubkey) _, .ok _) =>
    if name' = name then some ⟨addr, serverPubkey⟩ else last
  | (.edit (.remove name') _, .ok _) => if name' = name then none else last
  | _ => last

/-- None where the files are broken. -/
def lastClientInit (tr : Trace H) : Option ClientInit := tr.foldl noteClientInit none

def lastServerInit (host : H) (tr : Trace H) : Option ServerInit := tr.foldl (noteServerInit host) none

def lastAdded (name : String) (tr : Trace H) : Option Added := tr.foldl (noteAdded name) none

end Site
end HyperionVpn.Common
