import HyperionVpn.Client.VirtualIps
import HyperionVpn.Server.Config

/-! `up` on both sides, as far as the process that loads the config: which
passphrase it asks for, and what environment that process has. -/
namespace HyperionVpn
open Client

namespace Common

def nul : Char := Char.ofNat 0

/-- `std::env::set_var`, which panics on names and values that no variable can
have. -/
def setVar (env : Environment) (name value : String) : Anyhow Environment :=
  if name = "" ∨ '=' ∈ name.toList ∨ nul ∈ name.toList ∨ nul ∈ value.toList then .error .panic
  else return { env with var := Function.update env.var name (.ok value) }

def nulError : String := "nul byte found in provided data"

/-- The environment of a child that is spawned with one more variable. What is
set under an empty name is never found. -/
def childEnv (env : Environment) (name value : String) : Anyhow Environment :=
  if nul ∈ name.toList ∨ nul ∈ value.toList then
    .error (.error ["spawning background daemon", nulError])
  else if name = "" then return env
  else return { env with var := Function.update env.var name (.ok value) }

/-- The process that loads the config, with the passphrase that was entered. -/
structure Start where
  env : Environment
  entered : Option String

def passVar (passphraseEnv : Option String) : String :=
  passphraseEnv.getD "HYPERION_PASSPHRASE"

def askPassphrase (env : Environment) (keyIsPassphrase : Bool) (var : String) :
    Anyhow (Option String) :=
  match keyIsPassphrase, env.var var with
  | true, .error _ => do return some (← promptPassphrase env "hyperion shared passphrase: ")
  | _, _ => return none

/-- What both sides do once their checks have passed. -/
def start (env : Environment) (foreground keyIsPassphrase : Bool) (passphraseEnv : Option String) :
    Anyhow Start := do
  let var := passVar passphraseEnv
  let entered ← askPassphrase env keyIsPassphrase var
  match entered with
  | none => return ⟨env, none⟩
  | some p =>
    let env ← if foreground then setVar env var p else childEnv env var p
    return ⟨env, some p⟩

end Common

/-- `config` is what there is at the path, and `running` what the pid file names. -/
def Client.up (env : Environment) (configPath : String) (config : Option (Anyhow Client.FileConfig))
    (running : Option UInt32) (foreground : Bool) : Anyhow Common.Start := do
  match config with
  | none => bail s!"no config at {configPath}\nrun `hyperion-client init` first, then add a server with `add-server`"
  | some file =>
    let summary ← context "reading config" (file.bind Client.summarize)
    if summary.servers = [] then
      bail "no servers configured\nadd one: hyperion-client add-server <name> <host:port> <server_pubkey>"
    else
      match running with
      | some pid => bail s!"hyperion is already up (pid {pid}); run `hyperion-client down` first"
      | none => Common.start env foreground summary.keyIsPassphrase summary.passphraseEnv

def Server.up (env : Environment) (configPath : String) (config : Option (Anyhow Server.FileConfig))
    (running : Option UInt32) (foreground : Bool) : Anyhow Common.Start := do
  match config with
  | none => bail s!"no config at {configPath}\nrun `hyperion-server init --salt <salt> --admin-key <admin_pubkey>` first"
  | some file =>
    let summary ← context "reading config" (file.map Server.summarize)
    if summary.adminCount = 0 then
      bail "no admin pubkeys configured — re-run init with --admin-key"
    else
      match running with
      | some pid =>
        bail s!"hyperion-server is already up (pid {pid}); run `hyperion-server down` first"
      | none => Common.start env foreground summary.keyIsPassphrase summary.passphraseEnv

namespace Common

/-- What a process derives its key from when it has this passphrase. -/
def fromPassphrase (library : KeyLibrary) (p salt : String) : Anyhow Psk :=
  contextError "deriving PSK from passphrase" Error.display
    (Psk.fromPassphrase library p.toUTF8.toList salt.toUTF8.toList)

/-- The environment with other answers of the prompt and another hash. -/
def trial (env : Environment) (answers : String → Except String String)
    (hash : List UInt8 → List UInt8 → Option (Vector UInt8 32)) : Environment :=
  { env with
    library := { env.library with hashPasswordInto := hash }
    promptPassword := answers }

/-- A process obtains this passphrase from its environment: whatever a prompt would
answer, and whatever the hash makes of passphrases and salts, its `load` goes on
with the key of this passphrase. -/
def Obtains (load : Environment → Anyhow L) (env : Environment) (salt p : String) : Prop :=
  ∃ rest : Psk → Anyhow L, ∀ answers hash, load (trial env answers hash) = do
    rest (← fromPassphrase (trial env answers hash).library p salt)

/-- The process that loads the config obtains the passphrase that was entered, or
the one on whose account nothing was asked. -/
def Agreed (env : Environment) (passphraseEnv salt : Option String)
    (load : Environment → Anyhow L) (s : Start) : Prop :=
  ∃ salted p, salt = some salted ∧ Obtains load s.env salted p ∧
    (s.entered = some p ∨ s.entered = none ∧ env.var (passVar passphraseEnv) = .ok p)

/-- The file names the variable, and not by an empty name that nobody has set. -/
def Named (env : Environment) (passphraseEnv : Option String) : Prop :=
  ∃ name, passphraseEnv = some name ∧ (name = "" → ∃ v, env.var name = .ok v)

/-- The variable is set for the process that loads the config, if its name can
be found at all. -/
def WithVar (env : Environment) (name value : String) (env' : Environment) : Prop :=
  (name = "" ∧ env' = env) ∨
    (name ≠ "" ∧ env' = { env with var := Function.update env.var name (.ok value) })

theorem setVar_ok {env env' : Environment} {name value : String}
    (set : setVar env name value = .ok env') : WithVar env name value env' := by
  unfold setVar at set
  split at set
  · cases set
  · rename_i plain
    cases set
    simp only [not_or] at plain
    exact .inr ⟨plain.1, rfl⟩

theorem childEnv_ok {env env' : Environment} {name value : String}
    (set : childEnv env name value = .ok env') : WithVar env name value env' := by
  unfold childEnv at set
  split at set
  · cases set
  split at set
  · rename_i empty
    cases set
    exact .inl ⟨empty, rfl⟩
  · rename_i plain
    cases set
    exact .inr ⟨plain, rfl⟩

/-- How a start comes about where the key is a passphrase. -/
theorem start_cases {env : Environment} {foreground : Bool} {passphraseEnv : Option String}
    {s : Start} (started : start env foreground true passphraseEnv = .ok s) :
    (∃ v, env.var (passVar passphraseEnv) = .ok v ∧ s = ⟨env, none⟩) ∨
      ∃ e p, env.var (passVar passphraseEnv) = .error e ∧ s.entered = some p ∧
        WithVar env (passVar passphraseEnv) p s.env := by
  simp only [start, askPassphrase] at started
  cases found : env.var (passVar passphraseEnv) with
  | ok v =>
    rw [found] at started
    cases started
    exact .inl ⟨v, rfl, rfl⟩
  | error e =>
    rw [found] at started
    cases asked : promptPassphrase env "hyperion shared passphrase: " with
    | error failure =>
      rw [asked] at started
      cases started
    | ok p =>
      rw [asked] at started
      right
      cases foreground with
      | true =>
        cases set : setVar env (passVar passphraseEnv) p with
        | error failure => simp [bind, Except.bind, pure, Except.pure, set] at started
        | ok env' =>
          simp [bind, Except.bind, pure, Except.pure, set] at started
          subst started
          exact ⟨e, p, rfl, rfl, setVar_ok set⟩
      | false =>
        cases set : childEnv env (passVar passphraseEnv) p with
        | error failure => simp [bind, Except.bind, pure, Except.pure, set] at started
        | ok env' =>
          simp [bind, Except.bind, pure, Except.pure, set] at started
          subst started
          exact ⟨e, p, rfl, rfl, childEnv_ok set⟩

/-- `load` makes its key of the passphrase that it reads, after its `early` checks.
It prompts for nothing else and has nothing else hashed. -/
structure Reads (early : Environment → Anyhow A) (load : Environment → Anyhow L) (prompt : String)
    (passphraseEnv : Option String) (salt : String) : Prop where
  load_eq : ∃ rest : Environment → A → Psk → Anyhow L,
    (∀ env answers hash, rest (trial env answers hash) = rest env) ∧
    ∀ env, load env = do
      let a ← early env
      let p ← readPassphrase env prompt passphraseEnv
      rest env a (← fromPassphrase env.library p salt)
  early_trial : ∀ env answers hash, early (trial env answers hash) = early env
  early_apart : ∀ env text, early env ≠ .error (.error ["deriving PSK from passphrase", text])

theorem fromPassphrase_fails (library : KeyLibrary) (p salt : String) :
    ∃ text, fromPassphrase { library with hashPasswordInto := fun _ _ => none } p salt =
      .error (.error ["deriving PSK from passphrase", text]) := by
  unfold fromPassphrase Psk.fromPassphrase
  split <;> exact ⟨_, rfl⟩

section
variable {env : Environment} {early : Environment → Anyhow A} {load : Environment → Anyhow L}
  {prompt salt : String} {passphraseEnv : Option String}
  (reads : Reads early load prompt passphraseEnv salt)
include reads

/-- A process whose early checks fail does not come to the passphrase, and one that is
given no name, or does not find the variable, asks. -/
theorem Obtains.found {p : String} (obtains : Obtains load env salt p) :
    (∃ a, early env = .ok a) ∧ ∃ name v, passphraseEnv = some name ∧ env.var name = .ok v := by
  obtain ⟨rest, -, whole⟩ := reads.load_eq
  obtain ⟨goesOn, obtains⟩ := obtains
  have failed := obtains (fun _ => .error "") fun _ _ => none
  obtain ⟨text, underived⟩ := fromPassphrase_fails env.library p salt
  rw [trial, underived, ← trial, whole, reads.early_trial] at failed
  cases checked : early env with
  | error failure =>
    rw [checked] at failed
    have same : failure = .error ["deriving PSK from passphrase", text] := Except.error.inj failed
    exact absurd (same ▸ checked) (reads.early_apart env text)
  | ok a =>
    refine ⟨⟨a, rfl⟩, ?_⟩
    rw [checked] at failed
    have asked {e : String} (named : readPassphrase (trial env (fun _ => .error "") fun _ _ => none)
        prompt passphraseEnv = .error (.error ["reading passphrase", e])) : False := by
      simp [bind, Except.bind, named] at failed
    cases passphraseEnv with
    | none => exact (asked rfl).elim
    | some name =>
      cases found : env.var name with
      | ok v => exact ⟨name, v, rfl, found⟩
      | error e =>
        refine (asked (e := "") ?_).elim
        simp only [readPassphrase, trial, found]
        rfl

theorem obtains_of_found {a : A} {name p : String} (checked : early env = .ok a)
    (named : passphraseEnv = some name) (found : env.var name = .ok p) :
    Obtains load env salt p := by
  subst named
  obtain ⟨rest, same, whole⟩ := reads.load_eq
  refine ⟨rest env a, ?_⟩
  intro answers hash
  have read : readPassphrase (trial env answers hash) prompt (some name) = .ok p := by
    simp only [readPassphrase, trial, found]
  rw [whole, reads.early_trial, checked, same]
  simp only [bind, Except.bind, read]

/-- The two agree where the file names the variable, if `load` comes to the key. -/
theorem agreed_iff {foreground : Bool} {s : Start}
    (started : start env foreground true passphraseEnv = .ok s) :
    Agreed env passphraseEnv (some salt) load s ↔
      Named env passphraseEnv ∧ ∃ a, early s.env = .ok a := by
  constructor
  · rintro ⟨_, p, same, obtains, -⟩
    cases same
    obtain ⟨checked, name, v, rfl, found⟩ := obtains.found reads
    refine ⟨⟨name, rfl, ?_⟩, checked⟩
    intro empty
    rcases start_cases started with ⟨v, here, -⟩ | ⟨e, p, missing, -, set⟩
    · exact ⟨v, here⟩
    · rcases set with ⟨-, same⟩ | ⟨plain, -⟩
      · rw [same] at found
        exact ⟨v, found⟩
      · exact absurd empty plain
  · rintro ⟨⟨name, rfl, set⟩, a, checked⟩
    obtain ⟨p, found, origin⟩ : ∃ p, s.env.var name = .ok p ∧
        (s.entered = some p ∨ s.entered = none ∧ env.var name = .ok p) := by
      rcases start_cases started with ⟨v, found, rfl⟩ | ⟨e, p, missing, entered, added⟩
      · exact ⟨v, found, .inr ⟨rfl, found⟩⟩
      · have missing : env.var name = .error e := missing
        rcases added with ⟨empty, -⟩ | ⟨-, same⟩
        · obtain ⟨v, found⟩ := set empty
          rw [missing] at found
          cases found
        · refine ⟨p, ?_, .inl entered⟩
          rw [same]
          exact Function.update_self ..
    exact ⟨salt, p, rfl, obtains_of_found reads checked rfl found, origin⟩

end

/-- Without a salt no passphrase is obtained. -/
theorem not_agreed_unsalted {env : Environment} {passphraseEnv : Option String}
    {load : Environment → Anyhow L} {s : Start} : ¬ Agreed env passphraseEnv none load s := by
  rintro ⟨_, _, salted, -⟩
  cases salted

end Common

/-- What `up` takes from the summary. -/
theorem Client.summarize_ok {file : Client.FileConfig} {summary : Client.Summary} {key : KeySection}
    (configured : file.key = some key) (source : key.source = "passphrase")
    (ok : Client.summarize file = .ok summary) :
    summary.keyIsPassphrase = true ∧ summary.passphraseEnv = key.passphraseEnv := by
  simp only [Client.summarize, configured, source, if_true] at ok
  cases tun : parseTun file.tun with
  | error e =>
    rw [tun] at ok
    cases ok
  | ok t =>
    rw [tun] at ok
    cases vips : resolveVirtualIps t file.server with
    | error e =>
      simp only [bind, Except.bind, vips] at ok
      cases ok
    | ok ips =>
      simp only [bind, Except.bind, vips] at ok
      cases ok
      exact ⟨rfl, rfl⟩

/-- A start is one that follows the checks. -/
theorem Client.up_ok {env : Environment} {configPath : String} {file : Client.FileConfig}
    {running : Option UInt32} {foreground : Bool} {s : Common.Start} {key : KeySection}
    (configured : file.key = some key) (source : key.source = "passphrase")
    (reached : Client.up env configPath (some (.ok file)) running foreground = .ok s) :
    Common.start env foreground true key.passphraseEnv = .ok s := by
  cases ok : Client.summarize file with
  | error failure =>
    cases failure <;> simp [Client.up, ok, Except.bind, bind, context] at reached
  | ok summary =>
    obtain ⟨passphrase, name⟩ := Client.summarize_ok configured source ok
    simp only [Client.up, ok, Except.bind, bind, context, passphrase, name] at reached
    split at reached
    · cases reached
    · cases running with
      | some pid => cases reached
      | none => exact reached

theorem Server.up_ok {env : Environment} {configPath : String} {file : Server.FileConfig}
    {running : Option UInt32} {foreground : Bool} {s : Common.Start}
    (source : file.key.source = "passphrase")
    (reached : Server.up env configPath (some (.ok file)) running foreground = .ok s) :
    Common.start env foreground true file.key.passphraseEnv = .ok s := by
  simp only [Server.up, Server.summarize, source, if_true, Except.map, Except.bind, bind,
    context] at reached
  split at reached
  · cases reached
  · cases running with
    | some pid => cases reached
    | none => exact reached

/-! What loads the config: the passphrase is read after one check. -/

open Common

section
variable (env : Environment) (answers : String → Except String String)
  (hash : List UInt8 → List UInt8 → Option (Vector UInt8 32))

theorem Client.loadServers_trial (file : Client.FileConfig) (adminSecret : SecretKey)
    (defaultPsk : Option Psk) (servers : KeyMap String ServerEntry)
    (sections : List (ServerSection × Net.Ipv4Addr)) :
    loadServers (trial env answers hash) file adminSecret defaultPsk servers sections =
      loadServers env file adminSecret defaultPsk servers sections := by
  induction sections generalizing servers with
  | nil => rfl
  | cons s rest ih =>
    have same (s : ServerSection) (ip : Net.Ipv4Addr) :
        loadServer (trial env answers hash) file adminSecret defaultPsk s ip =
          loadServer env file adminSecret defaultPsk s ip := rfl
    simp only [loadServers, same, ih]

theorem Server.loadAdmins_trial (keys : List String) :
    loadAdmins (trial env answers hash) keys = loadAdmins env keys := by
  induction keys with
  | nil => rfl
  | cons key rest ih =>
    have same : PublicKey.fromBase64 (trial env answers hash).library key =
        PublicKey.fromBase64 env.library key := rfl
    simp only [loadAdmins, same, ih]

end

theorem contextError_message {message message' text : String} {display : ε → String}
    {x : Except ε α} (failed : contextError message display x = .error (.error [message', text])) :
    message = message' := by
  cases x with
  | error e =>
    rw [contextError, Except.error.injEq, Failure.error.injEq, List.cons.injEq] at failed
    exact failed.1
  | ok a => cases failed

theorem contextParse_message {message message' syntaxError text : String} {x : Option α}
    (failed : contextParse message syntaxError x = .error (.error [message', text])) :
    message = message' := by
  cases x with
  | none =>
    rw [contextParse, Except.error.injEq, Failure.error.injEq, List.cons.injEq] at failed
    exact failed.1
  | some a => cases failed

/-- Texts that begin otherwise are not the one of the derivation. -/
theorem message_ne {front back : String} (other : front.toList.head?.any (· ≠ 'd') = true) :
    front ++ back ≠ "deriving PSK from passphrase" := by
  intro same
  have heads := congrArg (fun message : String => message.toList.head?) same
  obtain ⟨c, here, apart⟩ := (Option.any_eq_true _ _).mp other
  rw [String.toList_append, List.head?_append, here, Option.some_or] at heads
  obtain rfl : c = 'd' := Option.some.inj heads
  exact absurd apart (by decide)

/-- What the client's `load` does once it has the key. -/
def Client.loadOn (file : Client.FileConfig) (env : Environment) (adminSecret : SecretKey)
    (psk : Psk) : Anyhow LoadedClient := do
  let tun ← parseTun file.tun
  let vips ← resolveVirtualIps tun file.server
  let servers ← loadServers env file adminSecret (some psk) ∅ (file.server.zip vips)
  let forwards ← loadForwards servers file.forward
  return ⟨servers, forwards, tun⟩

theorem Client.load_reads {file : Client.FileConfig} {key : KeySection} {salt : String}
    (configured : file.key = some key) (source : key.source = "passphrase")
    (salted : key.salt = some salt) :
    Reads (readAdminKey · file) (Client.load · file) "hyperion shared passphrase: "
      key.passphraseEnv salt where
  load_eq := by
    refine ⟨Client.loadOn file, ?_, ?_⟩
    · intro env answers hash
      funext adminSecret psk
      simp only [Client.loadOn, loadServers_trial]
    · intro env
      simp only [Client.load, readDefaultPsk, configured, resolveDefaultPsk, source, if_true, salted,
        contextNone, bind_assoc]
      rfl
  early_trial env answers hash := rfl
  early_apart := by
    intro env text failed
    rcases bind_eq_error.mp failed with failed | ⟨adminB64, -, failed⟩
    · exact message_ne (by decide) (contextError_message failed)
    · exact absurd (contextError_message failed) (by decide)

/-- What the server's does. -/
def Server.loadOn (publicKey : SecretKey → PublicKey) (file : Server.FileConfig) (env : Environment)
    (listen : Net.SocketAddr) (psk : Psk) : Anyhow LoadedConfig := do
  let keyPath := expandHome env file.identity.staticKeyFile
  let secretB64 ← contextError s!"reading static key {keyPath}" id (env.readToString keyPath)
  let staticSecret ← contextError "invalid static key" Error.display
    (SecretKey.fromBase64 env.library (trim secretB64))
  let allowedAdmins ← loadAdmins env file.identity.adminPubkeys
  if allowedAdmins = [] then
    bail "identity.admin_pubkeys is empty — no admin could authenticate"
  else
    let knock := if file.knock.enabled then some {
        knockPort := file.knock.knockPort.getD listen.port
        tunnelPort := listen.port
        psk
        serverPub := publicKey staticSecret
        windowSecs := file.knock.windowSecs.getD 30
        table := file.firewall.table
        set := file.firewall.set
        ttlSecs := file.firewall.ttlSecs } else none
    let egress : Egress := ⟨file.egress.toFinset⟩
    return ⟨listen, { staticSecret, psk, allowedAdmins, egress }, knock⟩

theorem Server.load_reads {publicKey : SecretKey → PublicKey} {file : Server.FileConfig} {salt : String}
    (source : file.key.source = "passphrase") (salted : file.key.salt = some salt) :
    Reads (fun _ => contextParse s!"invalid listen address: {file.listen}" invalidSocketAddr
        (Net.SocketAddr.parse file.listen)) (Server.load · publicKey file)
      "hyperion server passphrase: " file.key.passphraseEnv salt where
  load_eq := by
    refine ⟨Server.loadOn publicKey file, ?_, ?_⟩
    · intro env answers hash
      funext listen psk
      simp only [Server.loadOn, loadAdmins_trial]
      rfl
    · intro env
      simp only [Server.load, loadPsk, source, if_true, salted, contextNone, bind_assoc]
      rfl
  early_trial env answers hash := rfl
  early_apart := by
    intro env text failed
    exact message_ne (by decide) (contextParse_message failed)

namespace Common

/-- On both sides, and in both ways to start, the daemon obtains the passphrase
that `up` was given exactly if the file has a salt and names the variable, and what
`load` checks before does not stop it. -/
theorem passphrase_agreed_iff (env : Environment) (configPath : String) (running : Option UInt32)
    (foreground : Bool) (s : Start) :
    (∀ file key, file.key = some key → key.source = "passphrase" →
      Client.up env configPath (some (.ok file)) running foreground = .ok s →
      (Agreed env key.passphraseEnv key.salt (Client.load · file) s ↔
        key.salt ≠ none ∧ Named env key.passphraseEnv ∧
          ∃ admin, readAdminKey s.env file = .ok admin)) ∧
    ∀ (publicKey : SecretKey → PublicKey) (file : Server.FileConfig),
      file.key.source = "passphrase" →
      Server.up env configPath (some (.ok file)) running foreground = .ok s →
      (Agreed env file.key.passphraseEnv file.key.salt (Server.load · publicKey file) s ↔
        file.key.salt ≠ none ∧ Named env file.key.passphraseEnv ∧
          ∃ addr, Net.SocketAddr.parse file.listen = some addr) := by
  constructor
  · intro file key configured source reached
    have started := Client.up_ok configured source reached
    cases salted : key.salt with
    | none => simp [not_agreed_unsalted]
    | some salt =>
      rw [agreed_iff (Client.load_reads configured source salted) started]
      simp
  · intro publicKey file source reached
    have started := Server.up_ok source reached
    cases salted : file.key.salt with
    | none => simp [not_agreed_unsalted]
    | some salt =>
      rw [agreed_iff (Server.load_reads source salted) started]
      simp [contextParse_eq_ok]

/-- The files that `init` writes name the variable. -/
theorem initConfig_named (env : Environment) (keyPath saltKey : String) :
    ∃ key, (initConfig keyPath saltKey).key = some key ∧ Named env key.passphraseEnv :=
  ⟨_, rfl, "HYPERION_PASSPHRASE", rfl, fun empty => by simp at empty⟩

/-- No variable is set, the prompt is answered, and each file is a key. -/
def sampleEnvironment : Environment where
  library := ⟨fun _ => some (.replicate 32 1), fun _ _ => none⟩
  var := fun _ => .error "environment variable not found"
  readToString := fun _ => .ok "AAAA"
  promptPassword := fun _ => .ok "correct horse"

/-- A config written by hand, with or without the name of the variable. -/
def sampleServer (passphraseEnv : Option String) : Server.FileConfig where
  listen := "0.0.0.0:8443"
  key := ⟨"passphrase", none, none, none, passphraseEnv, some "a shared salt"⟩
  identity := ⟨"server.key", ["AAAA"]⟩
  egress := []
  knock := ⟨false, none, none⟩
  firewall := ⟨"hyperion", "knock_allow", 60⟩

def sampleKey (passphraseEnv : Option String) : KeySection :=
  ⟨"passphrase", none, none, passphraseEnv, some "a shared salt"⟩

def sampleClient (passphraseEnv : Option String) : Client.FileConfig where
  adminStaticKeyFile := "admin.key"
  poolSize := none
  key := some (sampleKey passphraseEnv)
  knock := ⟨false, none⟩
  tun := TunSection.default
  server := [⟨"a", "192.0.2.1:8443", "", none, none, none, none⟩]
  forward := []

/-- The passphrase is put under a name that the daemon does not look for. -/
theorem unnamed_variable_not_read : ¬ ∀ (env : Environment) (configPath : String)
    (running : Option UInt32) (foreground : Bool) (s : Start),
    (∀ file key, file.key = some key → key.source = "passphrase" →
      Client.up env configPath (some (.ok file)) running foreground = .ok s →
      Agreed env key.passphraseEnv key.salt (Client.load · file) s) ∧
    ∀ (publicKey : SecretKey → PublicKey) (file : Server.FileConfig),
      file.key.source = "passphrase" →
      Server.up env configPath (some (.ok file)) running foreground = .ok s →
      Agreed env file.key.passphraseEnv file.key.salt (Server.load · publicKey file) s := by
  intro claim
  obtain ⟨s, started⟩ : ∃ s, Server.up sampleEnvironment "server.toml"
      (some (.ok (sampleServer none))) none false = .ok s := ⟨_, rfl⟩
  obtain ⟨_, p, same, obtains, -⟩ :=
    (claim _ _ _ _ s).2 (fun key => ⟨key.bytes⟩) (sampleServer none) rfl started
  cases same
  obtain ⟨-, name, v, absent, -⟩ := obtains.found (Server.load_reads rfl rfl)
  cases absent

/-- Both sides ask, in the foreground and for a daemon, and the process has the answer. -/
theorem passphrase_agreed_iff_sample : ∃ s s',
    Client.up sampleEnvironment "client.toml" (some (.ok (sampleClient (some "SECRET")))) none true =
      .ok s ∧ s.entered = some "correct horse" ∧
    Agreed sampleEnvironment (some "SECRET") (some "a shared salt")
      (Client.load · (sampleClient (some "SECRET"))) s ∧
    Server.up sampleEnvironment "server.toml" (some (.ok (sampleServer (some "SECRET")))) none
      false = .ok s' ∧ s'.entered = some "correct horse" ∧
    Agreed sampleEnvironment (some "SECRET") (some "a shared salt")
      (Server.load · (fun key => ⟨key.bytes⟩) (sampleServer (some "SECRET"))) s' := by
  let tun : TunConfig := ⟨⟨10, 99, 0, 1⟩, 24, 1420, by decide, by decide⟩
  have addr : Net.Ipv4Addr.parse "10.99.0.1" = some tun.addr := by decide +kernel
  have parsed : parseTun TunSection.default = .ok tun := by
    simp only [parseTun, TunSection.default, addr]
    rfl
  have resolved : resolveVirtualIps tun (sampleClient (some "SECRET")).server =
      .ok [⟨10, 99, 0, 10⟩] := by decide +kernel
  have summary : Client.summarize (sampleClient (some "SECRET")) =
      .ok ⟨[⟨"a", "192.0.2.1:8443", ⟨10, 99, 0, 10⟩⟩], true, some "SECRET", ⟨10, 99, 0, 1⟩⟩ := by
    have section_ : (sampleClient (some "SECRET")).tun = TunSection.default := rfl
    simp only [Client.summarize, section_, parsed, bind, Except.bind, resolved]
    rfl
  have named : Named sampleEnvironment (some "SECRET") := ⟨"SECRET", rfl, by simp⟩
  obtain ⟨s, started, entered, admin⟩ : ∃ s, Client.up sampleEnvironment "client.toml"
      (some (.ok (sampleClient (some "SECRET")))) none true = .ok s ∧
      s.entered = some "correct horse" ∧
      ∃ admin, readAdminKey s.env (sampleClient (some "SECRET")) = .ok admin := by
    simp only [Client.up, Except.bind, bind, summary]
    exact ⟨_, rfl, rfl, _, rfl⟩
  obtain ⟨s', started', entered'⟩ : ∃ s, Server.up sampleEnvironment "server.toml"
      (some (.ok (sampleServer (some "SECRET")))) none false = .ok s ∧
      s.entered = some "correct horse" := ⟨_, rfl, rfl⟩
  have listens : (Net.SocketAddr.parse "0.0.0.0:8443").isSome = true := by decide +kernel
  refine ⟨s, s', started, entered, ?_, started', entered', ?_⟩
  · exact ((passphrase_agreed_iff _ _ _ _ s).1 _ _ rfl rfl started).mpr
      ⟨by simp [sampleKey], named, admin⟩
  · exact ((passphrase_agreed_iff _ _ _ _ s').2 _ _ rfl started').mpr
      ⟨by simp [sampleServer], named, Option.isSome_iff_exists.mp listens⟩

end Common
end HyperionVpn
