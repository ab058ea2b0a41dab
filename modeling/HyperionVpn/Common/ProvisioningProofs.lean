import HyperionVpn.Common.Provisioning
import HyperionVpn.Server.SpaProofs

/-! When a client and a server that are set up by the commands agree: exactly where
the texts that one has printed are what the other was given. -/
namespace HyperionVpn.Common.Site
open Net Text Client Machine

/-! The texts. -/

/-- The port that `init` prints is the one that the server listens on. -/
theorem portOf_listen {listen : String} {addr : SocketAddr}
    (parsed : SocketAddr.parse listen = some addr) : parseU16 (portOf listen) = .ok addr.port := by
  obtain ⟨front, digits, split, reads⟩ := SocketAddr.parse_port parsed
  have noColon : ∀ c ∈ digits.reverse, (decide (c ≠ ':')) = true := by
    intro c member
    have digit := reads.all c (List.mem_reverse.mp member)
    rw [decide_eq_true_eq]
    rintro rfl
    exact absurd digit (by decide)
  have whole : listen.toList.reverse = digits.reverse ++ ':' :: front.reverse := by
    rw [split]
    simp
  have last : (listen.toList.reverse.takeWhile (· ≠ ':')).reverse = digits := by
    rw [whole, List.takeWhile_append_of_pos noColon]
    simp
  have ok : parseU16 (String.ofList digits) = .ok addr.port := by
    rw [parseU16, parseUnsigned_eq_ok.mpr ⟨digits, .inl String.toList_ofList, reads⟩]
    simp [Except.map]
  unfold portOf
  rw [last]
  simp only [ok]
  exact ok

/-! A set of nftables can have the names of a new config. -/

theorem plain_table : Nftables.Plain Server.FirewallSection.default.table :=
  ⟨by decide, by simp [Server.FirewallSection.default, Char.isAlphanum]⟩

theorem plain_set : Nftables.Plain Server.FirewallSection.default.set :=
  ⟨by decide, by simp [Server.FirewallSection.default, Char.isAlphanum]⟩

section
variable {F : Type} {computer : Computer} {library : KeyLibrary} {keyFile : String} {files : Files F}

theorem environment_read_eq_ok {path text : String} :
    (computer.environment library keyFile files).readToString path = .ok text ↔
      path = keyFile ∧ files.key = some text := by
  unfold Computer.environment
  dsimp only
  split
  · rename_i same
    cases files.key with
    | none => simp
    | some stored => simp [same]
  · rename_i other
    simp [other]

/-- The key that was written is the one that is read, and is only read from where it is. -/
theorem key_read {engine : Engine} {hash : List UInt8 → List UInt8 → Option (Vector UInt8 32)}
    {path : String} {secret key : SecretKey}
    (stored : files.key = some (secretText (secret.toBase64 engine))) :
    (∃ text, (computer.environment library keyFile files).readToString path = .ok text ∧
      SecretKey.fromBase64 (engine.library hash) (trim text) = .ok key) ↔
      path = keyFile ∧ key = secret := by
  have written : trim (secretText (secret.toBase64 engine)) = secret.toBase64 engine :=
    trim_secretText _
  have again : trim (secret.toBase64 engine) = secret.toBase64 engine := trim_encode _
  simp only [environment_read_eq_ok, stored, Option.some.injEq]
  constructor
  · rintro ⟨text, ⟨same, rfl⟩, decoded⟩
    rw [SecretKey.fromBase64_eq_ok, written, again] at decoded
    exact ⟨same, (SecretKey.toBase64_injective decoded).symm⟩
  · rintro ⟨same, rfl⟩
    refine ⟨_, ⟨same, rfl⟩, ?_⟩
    rw [SecretKey.fromBase64_eq_ok, written, again]

end

/-! What is loaded. -/

def passphraseVar : Option String := some "HYPERION_PASSPHRASE"

/-- A tilde at the front of a path is taken for the home, but only where a key is read. -/
def Direct (env : Environment) (keyFile : String) : Prop := expandHome env keyFile = keyFile

/-- The passphrase is there, and with the salt it makes this key. -/
def Derives (env : Environment) (prompt salt : String) (psk : Psk) : Prop :=
  ∃ passphrase, readPassphrase env prompt passphraseVar = .ok passphrase ∧
    Psk.fromPassphrase env.library passphrase.toUTF8.toList salt.toUTF8.toList = .ok psk

def clientPrompt : String := "hyperion shared passphrase: "

def serverPrompt : String := "hyperion server passphrase: "

theorem resolveDefaultPsk_eq_ok {env : Environment} {salt : String} {psk : Psk} :
    resolveDefaultPsk env ⟨"passphrase", none, none, passphraseVar, some salt⟩ = .ok psk ↔
      Derives env clientPrompt salt psk := by
  rw [resolveDefaultPsk, if_pos rfl]
  simp only [bind_eq_ok, contextNone_eq_ok, contextError_eq_ok, Option.some.injEq,
    exists_eq_left']
  rfl

theorem loadPsk_eq_ok {env : Environment} {salt : String} {psk : Psk} :
    Server.loadPsk env ⟨"passphrase", none, none, none, passphraseVar, some salt⟩ = .ok psk ↔
      Derives env serverPrompt salt psk := by
  rw [Server.loadPsk, if_pos rfl]
  simp only [bind_eq_ok, contextNone_eq_ok, contextError_eq_ok, Option.some.injEq,
    exists_eq_left']
  rfl

variable {H : Type} {site : Site H} {fleet : Fleet H}

theorem adminEnv_library (fleet : Fleet H) :
    (site.adminEnv fleet).library = site.library := rfl

theorem serverEnv_library (fleet : Fleet H) (host : H) :
    (site.serverEnv fleet host).library = site.library := rfl

/-- A new config names no port for the knocks. -/
def newKnock (site : Site H) (s : ServerInit) (port : UInt16) (psk : Psk) : KnockRuntime :=
  ⟨port, port, psk, site.publicKey s.secret, 30, Server.FirewallSection.default.table,
    Server.FirewallSection.default.set, Server.FirewallSection.default.ttlSecs⟩

/-- A loaded server, by what its `init` was given. -/
structure ServerLoaded (site : Site H) (fleet : Fleet H) (host : H) (s : ServerInit)
    (loaded : Server.LoadedConfig) (psk : Psk) (admin : PublicKey) : Prop where
  listen : SocketAddr.parse s.listen = some loaded.listen
  psk_ok : Derives (site.serverEnv fleet host) serverPrompt s.salt psk
  admin_ok : trim s.adminKey = admin.toBase64 site.engine
  server : loaded.server = ⟨⟨s.secret, psk, [admin]⟩, ⟨s.allow.toFinset⟩⟩
  knock : loaded.knock = some (site.newKnock s loaded.listen.port psk)

theorem server_load_eq_ok {host : H} {s : ServerInit} {loaded : Server.LoadedConfig}
    (stored : (fleet.servers host).key = some (secretText (s.secret.toBase64 site.engine))) :
    Server.load (site.serverEnv fleet host) site.publicKey
      (Server.initConfig (site.serverKeyFile host) s.salt s.adminKey s.allow s.listen) = .ok loaded ↔
    Direct (site.serverEnv fleet host) (site.serverKeyFile host) ∧
      ∃ psk admin, ServerLoaded site fleet host s loaded psk admin := by
  have single (admins : List PublicKey) :
      Server.loadAdmins (site.serverEnv fleet host) [s.adminKey] = .ok admins ↔
        ∃ admin : PublicKey, trim s.adminKey = admin.toBase64 site.engine ∧ admins = [admin] := by
    simp only [Server.loadAdmins, bind_eq_ok, contextError_eq_ok]
    constructor
    · rintro ⟨admin, adminOk, _, none, same⟩
      cases none
      cases same
      exact ⟨admin, PublicKey.fromBase64_eq_ok.mp adminOk, rfl⟩
    · rintro ⟨admin, adminOk, rfl⟩
      exact ⟨admin, PublicKey.fromBase64_eq_ok.mpr adminOk, [], rfl, rfl⟩
  simp only [Server.load, bind_eq_ok, contextParse_eq_ok, contextError_eq_ok]
  constructor
  · rintro ⟨listen, parsed, psk, pskOk, text, read, secret, decoded, admins, adminsOk, rest⟩
    obtain ⟨direct, rfl⟩ := (key_read stored).mp ⟨text, read, decoded⟩
    obtain ⟨admin, adminOk, rfl⟩ := (single admins).mp adminsOk
    rw [if_neg (by simp)] at rest
    cases rest
    exact ⟨direct, psk, admin, parsed, loadPsk_eq_ok.mp pskOk, adminOk, rfl, rfl⟩
  · rintro ⟨direct, psk, admin, h⟩
    obtain ⟨text, read, decoded⟩ := (key_read stored).mpr ⟨direct, rfl⟩
    refine ⟨loaded.listen, h.listen, psk, loadPsk_eq_ok.mpr h.psk_ok, text, read, s.secret, decoded,
      [admin], (single _).mpr ⟨admin, h.admin_ok, rfl⟩, ?_⟩
    rw [if_neg (by simp)]
    obtain ⟨listen, server, knock⟩ := loaded
    obtain rfl : server = _ := h.server
    obtain rfl : knock = some (site.newKnock s listen.port psk) := h.knock
    rfl

theorem readAdminKey_eq_ok {saltKey : String} {secret admin : SecretKey}
    (stored : fleet.admin.key = some (secretText (secret.toBase64 site.engine))) :
    readAdminKey (site.adminEnv fleet) (Client.initConfig site.adminKeyFile saltKey) = .ok admin ↔
      Direct (site.adminEnv fleet) site.adminKeyFile ∧ admin = secret := by
  simp only [readAdminKey, bind_eq_ok, contextError_eq_ok]
  exact key_read stored

theorem readDefaultPsk_eq_ok {env : Environment} {keyFile saltKey : String} {psk : Option Psk} :
    readDefaultPsk env (Client.initConfig keyFile saltKey) = .ok psk ↔
      ∃ own, Derives env clientPrompt (saltOf saltKey) own ∧ psk = some own := by
  change (resolveDefaultPsk env ⟨"passphrase", none, none, passphraseVar, some (saltOf saltKey)⟩ >>= _) =
    _ ↔ _
  simp only [bind_eq_ok, resolveDefaultPsk_eq_ok]
  constructor
  · rintro ⟨own, derives, same⟩
    cases same
    exact ⟨own, derives, rfl⟩
  · rintro ⟨own, derives, rfl⟩
    exact ⟨own, derives, rfl⟩

/-- An entry of a loaded client, by the map that the edits have made. -/
structure EntryLoaded (site : Site H) (fleet : Fleet H) (secret : SecretKey) (salt : String)
    (known : Entry) (e : ServerEntry) : Prop where
  addr : e.addr = known.addr
  key : trim known.serverPubkey = e.params.serverPubkey.toBase64 site.engine
  psk_ok : Derives (site.adminEnv fleet) clientPrompt salt e.params.psk
  secret_ok : e.params.staticSecret = secret
  knock : e.params.knock = some ⟨e.addr.port⟩

theorem entry_loaded {saltKey : String} {file : Client.FileConfig} {m : Registry}
    {secret : SecretKey} {client : LoadedClient} {name : String} {e : ServerEntry}
    (stored : fleet.admin.key = some (secretText (secret.toBase64 site.engine)))
    (h : Represents (Client.initConfig site.adminKeyFile saltKey) file m) (distinct : m.Distinct)
    (ok : Client.load (site.adminEnv fleet) file = .ok client)
    (found : client.servers.lookup name = some e) :
    ∃ known, m.lookup name = some known ∧ EntryLoaded site fleet secret (saltOf saltKey) known e := by
  obtain ⟨admin, psk, tun, ips, loads⟩ := load_eq_ok.mp ok
  obtain ⟨ips', ok', pairs⟩ := h.resolved distinct
  cases loads.tun_ok.symm.trans (h.tun rfl)
  cases loads.ips_ok.symm.trans ok'
  obtain ⟨z, paired, named, loadsAs, -⟩ := (loads.lookup name e).mp found
  obtain ⟨n, known, there, rfl⟩ := (pairs z).mp paired
  obtain rfl : n = name := named
  refine ⟨known, there, ?_⟩
  obtain ⟨addr, key, own, parses, decodes, resolves, same⟩ := loadsAs
  obtain rfl := Option.some.inj ((SocketAddr.parse_display known.addr).symm.trans parses)
  obtain ⟨-, rfl⟩ := (readAdminKey_eq_ok stored).mp (h.readAdminKey_eq ▸ loads.admin_ok)
  obtain ⟨own', derives, rfl⟩ := readDefaultPsk_eq_ok.mp (h.readDefaultPsk_eq ▸ loads.default_ok)
  cases resolves
  have knocks : file.knock = ⟨true, none⟩ := congrArg FileConfig.knock h.rest
  rw [knocks] at same
  simp only [ServerEntry.apart, Prod.mk.injEq] at same
  obtain ⟨addr, params, -⟩ := same
  rw [← addr] at params
  constructor
  · exact addr
  · rw [params]
    exact PublicKey.fromBase64_eq_ok.mp decodes
  · rw [params]
    exact derives
  · rw [params]
  · rw [params]
    rfl

/-! What the commands leave behind. -/

/-- A server of the map is the one that was added last under its name. -/
inductive Describes (library : KeyLibrary) : Option Entry → Option Added → Prop where
  | absent : Describes library none none
  | present {known : Entry} {a : Added} (parses : SocketAddr.parse (normalizeAddr a.addr) = some known.addr)
      (key : known.serverPubkey = a.serverPubkey)
      (decodes : ∃ key, PublicKey.fromBase64 library known.serverPubkey = .ok key) :
      Describes library (some known) (some a)

structure AdminStands (site : Site H) (added : String → Option Added)
    (files : Files Client.FileConfig) (c : ClientInit) : Prop where
  printed : c.adminKey = (site.publicKey c.secret).toBase64 site.engine
  stored : files.key = some (secretText (c.secret.toBase64 site.engine))
  edited : ∃ saltKey file m, c.salt = saltOf saltKey ∧ files.config = some (.ok file) ∧
    Represents (Client.initConfig site.adminKeyFile saltKey) file m ∧ m.Distinct ∧
    ∀ name, Describes site.library (m.lookup name) (added name)

theorem AdminStands.fresh {added : String → Option Added} (secret : SecretKey) (saltKey : String)
    (bare : ∀ name, added name = none) : AdminStands site added
      ⟨some (.ok (Client.initConfig site.adminKeyFile saltKey)), some (secretText (secret.toBase64 site.engine))⟩
      ⟨secret, (site.publicKey secret).toBase64 site.engine, saltOf saltKey⟩ := by
  have distinct : Registry.Distinct ∅ := by
    constructor
    · intro n e present
      cases present
    · intro n n' e e' present
      cases present
  refine ⟨rfl, rfl, saltKey, _, ∅, rfl, rfl, ⟨rfl, .nil⟩, distinct, ?_⟩
  intro name
  rw [bare]
  exact .absent

structure ServerStands (site : Site H) (host : H) (files : Files Server.FileConfig) (s : ServerInit) :
    Prop where
  printed : s.serverKey = (site.publicKey s.secret).toBase64 site.engine
  port : s.port = portOf s.listen
  listen : ∃ addr, SocketAddr.parse s.listen = some addr
  admin : ∃ admin : PublicKey, trim s.adminKey = admin.toBase64 site.engine
  files : files =
    ⟨some (.ok (Server.initConfig (site.serverKeyFile host) s.salt s.adminKey s.allow s.listen)),
    some (secretText (s.secret.toBase64 site.engine))⟩

theorem ServerStands.fresh {host : H} {secret : SecretKey} {salt adminKey listen : String}
    {allow : List UInt16} {addr : SocketAddr} {admin : PublicKey}
    (parses : SocketAddr.parse listen = some addr) (key : trim adminKey = admin.toBase64 site.engine) :
    ServerStands site host
      ⟨some (.ok (Server.initConfig (site.serverKeyFile host) salt adminKey allow listen)),
        some (secretText (secret.toBase64 site.engine))⟩
      ⟨secret, salt, adminKey, allow, listen, (site.publicKey secret).toBase64 site.engine, portOf listen⟩ where
  printed := rfl
  port := by dsimp only
  listen := ⟨addr, parses⟩
  admin := ⟨admin, key⟩
  files := rfl

theorem lastClientInit_snoc (tr : Trace H) (e : Setup H × Anyhow Printed) :
    lastClientInit (tr ++ [e]) = noteClientInit (lastClientInit tr) e := by
  simp [lastClientInit]

theorem lastAdded_snoc (name : String) (tr : Trace H) (e : Setup H × Anyhow Printed) :
    lastAdded name (tr ++ [e]) = noteAdded name (lastAdded name tr) e := by
  simp [lastAdded]

/-- An edit changes the map as it changes the notes. -/
theorem describes_step {env : Environment} {m m' : Registry} {e : Edit}
    {write : Write (Parsed Client.FileConfig)}
    {answer : Anyhow (Option Ipv4Addr)} {tr : Trace H}
    (step : Registry.Step env m e answer.toOption m')
    (h : ∀ name, Describes env.library (m.lookup name) (lastAdded name tr)) (name : String) :
    Describes env.library (m'.lookup name) (lastAdded name (tr ++ [(.edit e write, answer.map .edited)])) := by
  rw [lastAdded_snoc]
  generalize same : answer.toOption = a at step
  cases step with
  | addRefused _ | removeRefused _ =>
    cases answer with
    | ok r => cases same
    | error failure => exact h name
  | @added name' addr serverPubkey parsedAddr vip admits parses _ =>
    cases answer with
    | error failure => cases same
    | ok r =>
      change Describes _ _ (if name' = name then some ⟨addr, serverPubkey⟩ else lastAdded name tr)
      by_cases own : name = name'
      · subst own
        rw [AList.lookup_insert, if_pos rfl]
        exact .present parses rfl admits.2.2.1
      · rw [AList.lookup_insert_ne own, if_neg (Ne.symm own)]
        exact h name
  | @removed name' _ =>
    cases answer with
    | error failure => cases same
    | ok r =>
      change Describes _ _ (if name' = name then none else lastAdded name tr)
      by_cases own : name = name'
      · subst own
        rw [AList.lookup_erase, if_pos rfl]
        exact .absent
      · rw [AList.lookup_erase_ne own, if_neg (Ne.symm own)]
        exact h name

/-! Writes that fail. -/

/-- All is written, or nothing is if the failure is clean. -/
theorem place_cases {F : Type} (writes : Writes F) (keyFile configFile secret : String) (file : F)
    (files : Files F) (dir : writes.dir = .ok ()) :
    place writes keyFile configFile secret file files =
        (.ok (), ⟨some (.ok file), some (secretText secret)⟩) ∨
      ∃ failure files', place writes keyFile configFile secret file files = (.error failure, files') ∧
        (writes.Clean → files' = files) := by
  obtain ⟨_, key, config⟩ := writes
  obtain rfl := dir
  cases key with
  | notOpened error => exact .inr ⟨_, _, rfl, fun _ => rfl⟩
  | cut left error => exact .inr ⟨_, _, rfl, fun clean => absurd clean id⟩
  | done =>
    cases config with
    | done => exact .inl rfl
    | notOpened error | cut left error => exact .inr ⟨_, _, rfl, fun clean => absurd clean id⟩

theorem ensureNew_dir {F : Type} {writes : Writes F} {force : Bool} {configFile : String}
    {files : Files F} (ok : ensureNew writes force configFile files = .ok ()) : writes.dir = .ok () := by
  unfold ensureNew at ok
  split at ok
  · cases ok
  · assumption

theorem initClient_cases (force : Bool) (secret saltSecret : SecretKey)
    (writes : Writes Client.FileConfig) (files : Files Client.FileConfig) :
    (∃ saltKey, site.initClient force secret saltSecret writes files =
      (.ok (.client ((site.publicKey secret).toBase64 site.engine) (saltOf saltKey)),
        ⟨some (.ok (Client.initConfig site.adminKeyFile saltKey)),
          some (secretText (secret.toBase64 site.engine))⟩)) ∨
      ∃ failure files', site.initClient force secret saltSecret writes files = (.error failure, files') ∧
        (writes.Clean → files' = files) := by
  unfold initClient
  cases new : ensureNew writes force site.adminConfigFile files with
  | error failure => exact .inr ⟨failure, files, rfl, fun _ => rfl⟩
  | ok =>
    dsimp only
    rcases place_cases writes site.adminKeyFile site.adminConfigFile (secret.toBase64 site.engine)
      (Client.initConfig site.adminKeyFile ((site.publicKey saltSecret).toBase64 site.engine)) files
      (ensureNew_dir new) with placed | ⟨failure, files', failed, clean⟩
    · rw [placed]
      exact .inl ⟨_, rfl⟩
    · rw [failed]
      exact .inr ⟨failure, files', rfl, clean⟩

theorem initServer_cases (host : H) (force : Bool) (secret : SecretKey) (salt adminKey : String)
    (allow : List UInt16) (listen : String) (writes : Writes Server.FileConfig)
    (files : Files Server.FileConfig) :
    (∃ addr admin, SocketAddr.parse listen = some addr ∧
      trim adminKey = PublicKey.toBase64 site.engine admin ∧
      site.initServer host force secret salt adminKey allow listen writes files =
        (.ok (.server ((site.publicKey secret).toBase64 site.engine) (portOf listen)),
          ⟨some (.ok (Server.initConfig (site.serverKeyFile host) salt adminKey allow listen)),
            some (secretText (secret.toBase64 site.engine))⟩)) ∨
      ∃ failure files', site.initServer host force secret salt adminKey allow listen writes files =
        (.error failure, files') ∧ (writes.Clean → files' = files) := by
  unfold initServer
  dsimp only
  generalize checks : (do
    ensureNew writes force (site.serverConfigFile host) files
    let _ ← contextParse s!"invalid listen address {listen}" invalidSocketAddr (SocketAddr.parse listen)
    let _ ← contextError "invalid admin pubkey" Error.display
      (PublicKey.fromBase64 site.library adminKey) : Anyhow Unit) = checked
  cases checked with
  | error failure => exact .inr ⟨failure, files, rfl, fun _ => rfl⟩
  | ok =>
    simp only [bind_eq_ok, contextParse_eq_ok, contextError_eq_ok] at checks
    obtain ⟨_, new, addr, parses, admin, decodes, -⟩ := checks
    rcases place_cases writes (site.serverKeyFile host) (site.serverConfigFile host)
      (secret.toBase64 site.engine)
      (Server.initConfig (site.serverKeyFile host) salt adminKey allow listen) files
      (ensureNew_dir new) with placed | ⟨failure, files', failed, clean⟩
    · rw [placed]
      exact .inl ⟨addr, admin, parses, PublicKey.fromBase64_eq_ok.mp decodes, rfl⟩
    · rw [failed]
      exact .inr ⟨failure, files', rfl, clean⟩

/-- What a command on the config can do. -/
theorem edit_cases {e : Edit} {write : Write (Parsed Client.FileConfig)}
    {answer : Anyhow (Option Ipv4Addr)} {files' : Files Client.FileConfig}
    (edited : site.edit e write fleet = some (answer, files')) :
    (∃ file vip file', fleet.admin.config = some (.ok file) ∧
      Client.edit (site.adminEnv fleet) file e = some (.ok vip, file') ∧ answer = .ok vip ∧
      files' = { fleet.admin with config := some (.ok file') }) ∨
      ∃ failure, answer = .error failure ∧ (write.Clean → files' = fleet.admin) := by
  unfold Site.edit at edited
  cases read : readFile site.adminConfigFile fleet.admin.config with
  | error failure =>
    rw [read] at edited
    dsimp only at edited
    cases edited
    cases argumentsOk site.library e with
    | error refused => exact .inr ⟨refused, rfl, fun _ => rfl⟩
    | ok => exact .inr ⟨failure, rfl, fun _ => rfl⟩
  | ok file =>
    have there : fleet.admin.config = some (.ok file) := by
      rcases config : fleet.admin.config with _ | _ | _ <;> rw [config] at read <;> cases read
      rfl
    rw [read] at edited
    obtain ⟨⟨result, file'⟩, changed, rest⟩ := Option.bind_eq_some_iff.mp edited
    cases result with
    | error failure =>
      cases rest
      exact .inr ⟨failure, rfl, fun _ => rfl⟩
    | ok vip =>
      cases write with
      | done =>
        cases rest
        exact .inl ⟨file, vip, file', there, changed, rfl, rfl⟩
      | notOpened error =>
        cases rest
        exact .inr ⟨_, rfl, fun _ => rfl⟩
      | cut left error =>
        cases rest
        exact .inr ⟨_, rfl, fun clean => absurd clean id⟩

/-! What stands after a run. -/

/-- Something has broken off, be it earlier. -/
theorem broken_snoc {Breaks : Setup H × Anyhow Printed → Prop} {tr : Trace H}
    {e : Setup H × Anyhow Printed} (h : (∃ e ∈ tr, Breaks e) ∨ Breaks e) :
    ∃ broken ∈ tr ++ [e], Breaks broken := by
  rcases h with ⟨broken, member, breaks⟩ | breaks
  · exact ⟨broken, List.mem_append_left _ member, breaks⟩
  · exact ⟨e, List.mem_append_right _ (List.mem_singleton_self e), breaks⟩

/-- What is so of the client's files. Where nothing is noted there is no config, or
something has broken off. -/
def AdminNoted (site : Site H) (tr : Trace H) (files : Files Client.FileConfig) : Prop :=
  match lastClientInit tr with
  | some c => AdminStands site (lastAdded · tr) files c
  | none => files.config = none ∨ ∃ e ∈ tr, BreaksAdmin e

theorem adminNoted_some {tr : Trace H} {files : Files Client.FileConfig} {c : ClientInit}
    (noted : lastClientInit tr = some c) :
    AdminNoted site tr files ↔ AdminStands site (lastAdded · tr) files c := by
  rw [AdminNoted, noted]

theorem adminNoted_none {tr : Trace H} {files : Files Client.FileConfig}
    (noted : lastClientInit tr = none) :
    AdminNoted site tr files ↔ files.config = none ∨ ∃ e ∈ tr, BreaksAdmin e := by
  rw [AdminNoted, noted]

theorem AdminNoted.unchanged {tr : Trace H} {files : Files Client.FileConfig}
    {e : Setup H × Anyhow Printed} (h : AdminNoted site tr files)
    (init : lastClientInit (tr ++ [e]) = lastClientInit tr)
    (added : ∀ name, lastAdded name (tr ++ [e]) = lastAdded name tr) :
    AdminNoted site (tr ++ [e]) files := by
  cases noted : lastClientInit tr with
  | some c =>
    rw [adminNoted_some (init.trans noted)]
    simp only [added]
    exact (adminNoted_some noted).mp h
  | none =>
    rw [adminNoted_none (init.trans noted)]
    exact ((adminNoted_none noted).mp h).imp_right fun broken => broken_snoc (.inl broken)

/-- A command that fails leaves the files as they are, or breaks them. -/
theorem AdminNoted.failed {tr : Trace H} {files files' : Files Client.FileConfig} {e : Setup H}
    {failure : Failure} (h : AdminNoted site tr files)
    (clean : ¬ BreaksAdmin (e, Except.error failure) → files' = files) :
    AdminNoted site (tr ++ [(e, .error failure)]) files' := by
  have added (name : String) : lastAdded name (tr ++ [(e, .error failure)]) = lastAdded name tr := by
    rw [lastAdded_snoc]
    rcases e with _ | ⟨_ | _, _⟩ | _ <;> rfl
  have note : noteClientInit (lastClientInit tr) (e, .error failure) =
      if BreaksAdmin (e, Except.error failure) then none else lastClientInit tr := by
    cases e <;> rfl
  by_cases breaks : BreaksAdmin (e, Except.error failure)
  · have noted : lastClientInit (tr ++ [(e, .error failure)]) = none := by
      rw [lastClientInit_snoc, note, if_pos breaks]
    rw [adminNoted_none noted]
    exact .inr (broken_snoc (.inr breaks))
  · rw [clean breaks]
    apply h.unchanged _ added
    rw [lastClientInit_snoc, note, if_neg breaks]

theorem AdminNoted.initClient {tr : Trace H} {files : Files Client.FileConfig} {force : Bool}
    {secret saltSecret : SecretKey} {writes : Writes Client.FileConfig}
    (h : AdminNoted site tr files) : AdminNoted site
      (tr ++ [(.initClient force secret saltSecret writes,
        (site.initClient force secret saltSecret writes files).1)])
      (site.initClient force secret saltSecret writes files).2 := by
  rcases initClient_cases force secret saltSecret writes files with
    ⟨saltKey, done⟩ | ⟨failure, files', failed, clean⟩
  · rw [done]
    refine (adminNoted_some (lastClientInit_snoc tr _)).mpr (.fresh secret saltKey fun name => ?_)
    rw [lastAdded_snoc]
    rfl
  · rw [failed]
    exact h.failed fun whole => clean (not_not.mp whole)

theorem AdminNoted.edit {tr : Trace H} {e : Edit} {write : Write (Parsed Client.FileConfig)}
    {answer : Anyhow (Option Ipv4Addr)} {files' : Files Client.FileConfig}
    (h : AdminNoted site tr fleet.admin) (edited : site.edit e write fleet = some (answer, files')) :
    AdminNoted site (tr ++ [(.edit e write, answer.map .edited)]) files' := by
  rcases edit_cases edited with ⟨file, vip, file', there, changed, rfl, rfl⟩ | ⟨failure, rfl, clean⟩
  · have init : lastClientInit (tr ++ [(.edit e write, .ok (.edited vip))]) = lastClientInit tr := by
      rw [lastClientInit_snoc]
      rfl
    cases noted : lastClientInit tr with
    | some c =>
      obtain ⟨printed, stored, saltKey, file₀, m, salt, config, represents, distinct, described⟩ :=
        (adminNoted_some noted).mp h
      cases there.symm.trans config
      obtain ⟨m', next, represents'⟩ := represents.step rfl distinct changed
      exact (adminNoted_some (init.trans noted)).mpr ⟨printed, stored, saltKey, file', m', salt, rfl,
        represents', distinct.step next, describes_step next described⟩
    | none =>
      have broken := ((adminNoted_none noted).mp h).resolve_left (by simp [there])
      exact (adminNoted_none (init.trans noted)).mpr (.inr (broken_snoc (.inl broken)))
  · exact h.failed fun whole => clean (not_not.mp whole)

section
variable [DecidableEq H]

def ServerNoted (site : Site H) (host : H) (tr : Trace H) (files : Files Server.FileConfig) : Prop :=
  match lastServerInit host tr with
  | some s => ServerStands site host files s
  | none => files.config = none ∨ ∃ e ∈ tr, BreaksServer host e

theorem lastServerInit_snoc (host : H) (tr : Trace H) (e : Setup H × Anyhow Printed) :
    lastServerInit host (tr ++ [e]) = noteServerInit host (lastServerInit host tr) e := by
  simp [lastServerInit]

theorem serverNoted_some {host : H} {tr : Trace H} {files : Files Server.FileConfig} {s : ServerInit}
    (noted : lastServerInit host tr = some s) :
    ServerNoted site host tr files ↔ ServerStands site host files s := by
  rw [ServerNoted, noted]

theorem serverNoted_none {host : H} {tr : Trace H} {files : Files Server.FileConfig}
    (noted : lastServerInit host tr = none) : ServerNoted site host tr files ↔
      files.config = none ∨ ∃ e ∈ tr, BreaksServer host e := by
  rw [ServerNoted, noted]

theorem ServerNoted.unchanged {host : H} {tr : Trace H} {files : Files Server.FileConfig}
    {e : Setup H × Anyhow Printed} (h : ServerNoted site host tr files)
    (init : lastServerInit host (tr ++ [e]) = lastServerInit host tr) :
    ServerNoted site host (tr ++ [e]) files := by
  cases noted : lastServerInit host tr with
  | some s => exact (serverNoted_some (init.trans noted)).mpr ((serverNoted_some noted).mp h)
  | none =>
    rw [serverNoted_none (init.trans noted)]
    exact ((serverNoted_none noted).mp h).imp_right fun broken => broken_snoc (.inl broken)

theorem ServerNoted.initServer {host : H} {tr : Trace H} {files : Files Server.FileConfig}
    {force : Bool} {secret : SecretKey} {salt adminKey : String} {allow : List UInt16}
    {listen : String} {writes : Writes Server.FileConfig} (h : ServerNoted site host tr files) :
    ServerNoted site host
      (tr ++ [(.initServer host force secret salt adminKey allow listen writes,
        (site.initServer host force secret salt adminKey allow listen writes files).1)])
      (site.initServer host force secret salt adminKey allow listen writes files).2 := by
  rcases initServer_cases host force secret salt adminKey allow listen writes files with
    ⟨addr, admin, parses, key, done⟩ | ⟨failure, files', failed, clean⟩
  · rw [done]
    refine (serverNoted_some ?_).mpr (.fresh parses key)
    rw [lastServerInit_snoc]
    exact if_pos rfl
  · rw [failed]
    have note : noteServerInit host (lastServerInit host tr)
        (.initServer host force secret salt adminKey allow listen writes, .error failure) =
          if host = host ∧ ¬ writes.Clean then none else lastServerInit host tr := rfl
    by_cases whole : writes.Clean
    · rw [clean whole]
      apply h.unchanged
      rw [lastServerInit_snoc, note, if_neg fun breaks => breaks.2 whole]
    · have noted : lastServerInit host
          (tr ++ [(.initServer host force secret salt adminKey allow listen writes, .error failure)]) =
            none := by
        rw [lastServerInit_snoc, note, if_pos ⟨rfl, whole⟩]
      rw [serverNoted_none noted]
      exact .inr (broken_snoc (.inr ⟨rfl, whole⟩))

theorem ServerNoted.other {host host' : H} {tr : Trace H} {files : Files Server.FileConfig}
    {force : Bool} {secret : SecretKey} {salt adminKey : String} {allow : List UInt16}
    {listen : String} {writes : Writes Server.FileConfig} {answer : Anyhow Printed}
    (h : ServerNoted site host tr files) (apart : host' ≠ host) : ServerNoted site host
      (tr ++ [(.initServer host' force secret salt adminKey allow listen writes, answer)]) files := by
  apply h.unchanged
  rw [lastServerInit_snoc]
  cases answer with
  | error failure => exact if_neg fun breaks => apart breaks.1
  | ok printed =>
    cases printed with
    | server serverKey port => exact if_neg apart
    | client adminKey salt | edited vip => rfl

structure Stands (site : Site H) (tr : Trace H) (fleet : Fleet H) : Prop where
  admin : AdminNoted site tr fleet.admin
  server : ∀ host, ServerNoted site host tr (fleet.servers host)

theorem Stands.step {tr : Trace H} {e : Setup H} {answer : Anyhow Printed} {fleet' : Fleet H}
    (h : Stands site tr fleet) (stepped : site.step fleet e = some (answer, fleet')) :
    Stands site (tr ++ [(e, answer)]) fleet' := by
  cases e with
  | initClient force secret saltSecret writes =>
    cases stepped
    refine ⟨h.admin.initClient, fun host => (h.server host).unchanged ?_⟩
    rw [lastServerInit_snoc]
    rfl
  | edit e write =>
    obtain ⟨⟨answer, admin⟩, edited, same⟩ := Option.bind_eq_some_iff.mp stepped
    cases same
    refine ⟨h.admin.edit edited, fun host => (h.server host).unchanged ?_⟩
    rw [lastServerInit_snoc]
    rfl
  | initServer host force secret salt adminKey allow listen writes =>
    cases stepped
    constructor
    · apply h.admin.unchanged
      · rw [lastClientInit_snoc]
        rfl
      · intro name
        rw [lastAdded_snoc]
        rfl
    · intro host'
      by_cases same : host = host'
      · subst same
        dsimp only
        rw [Function.update_self]
        exact (h.server host).initServer
      · dsimp only
        rw [Function.update_of_ne (Ne.symm same)]
        exact (h.server host').other same

theorem run_stands {tr : Trace H} (run : Run site.step bare tr fleet) : Stands site tr fleet := by
  induction run with
  | nil => exact ⟨.inl rfl, fun _ => .inl rfl⟩
  | snoc left stepped ih => exact ih.step stepped

end

/-! Who can be started. -/

theorem server_loads_iff {host : H} {s : ServerInit}
    (stands : ServerStands site host (fleet.servers host) s) {config : Server.FileConfig}
    (there : (fleet.servers host).config = some (.ok config)) :
    (∃ loaded, Server.load (site.serverEnv fleet host) site.publicKey config = .ok loaded) ↔
      Direct (site.serverEnv fleet host) (site.serverKeyFile host) ∧
        ∃ psk, Derives (site.serverEnv fleet host) serverPrompt s.salt psk := by
  have files := stands.files
  rw [files] at there
  cases there
  simp only [server_load_eq_ok (congrArg Files.key files)]
  constructor
  · rintro ⟨loaded, direct, psk, admin, h⟩
    exact ⟨direct, psk, h.psk_ok⟩
  · rintro ⟨direct, psk, derives⟩
    obtain ⟨addr, parses⟩ := stands.listen
    obtain ⟨admin, key⟩ := stands.admin
    exact ⟨⟨addr, _, some (site.newKnock s addr.port psk)⟩, direct, psk, admin, parses, derives, key, rfl, rfl⟩

section
variable {added : String → Option Added} {c : ClientInit} {file : Client.FileConfig}
  (stands : AdminStands site added fleet.admin c) (here : fleet.admin.config = some (.ok file))
include stands here

theorem client_loads_iff : (∃ client, Client.load (site.adminEnv fleet) file = .ok client) ↔
    Direct (site.adminEnv fleet) site.adminKeyFile ∧
      ∃ psk, Derives (site.adminEnv fleet) clientPrompt c.salt psk := by
  obtain ⟨saltKey, file', m, salt, config, represents, distinct, described⟩ := stands.edited
  cases here.symm.trans config
  have decodes : m.Decodes (site.adminEnv fleet) := by
    intro name known kept
    have describes := described name
    rw [kept] at describes
    generalize added name = noted at describes
    cases describes with
    | present _ _ decodes => exact decodes
  rw [represents.loads_iff distinct decodes, salt]
  simp only [readAdminKey_eq_ok stands.stored, readDefaultPsk_eq_ok]
  constructor
  · rintro ⟨⟨_, direct, -⟩, _, psk, derives, -⟩
    exact ⟨direct, psk, derives⟩
  · rintro ⟨direct, psk, derives⟩
    exact ⟨⟨_, direct, rfl⟩, _, psk, derives, rfl⟩

/-- A loaded client knows the servers that were added and not removed since. -/
theorem known_iff {client : LoadedClient} (ok : Client.load (site.adminEnv fleet) file = .ok client)
    (name : String) : (∃ e, client.servers.lookup name = some e) ↔ ∃ a, added name = some a := by
  obtain ⟨saltKey, file', m, -, config, represents, distinct, described⟩ := stands.edited
  cases here.symm.trans config
  have describes := described name
  constructor
  · rintro ⟨e, found⟩
    obtain ⟨known, kept, -⟩ := entry_loaded stands.stored represents distinct ok found
    rw [kept] at describes
    generalize added name = noted at describes ⊢
    cases describes with
    | @present _ a _ _ _ => exact ⟨a, rfl⟩
  · rintro ⟨a, noted⟩
    rw [noted] at describes
    generalize kept : m.lookup name = found at describes
    cases describes with
    | @present known _ _ _ _ =>
      obtain ⟨e, found, -⟩ := (represents.loaded rfl distinct ok name known.virtualIp).mpr
        ⟨known, kept, rfl⟩
      exact ⟨e, found⟩

end

/-- Whatever has been set up, edited and set up anew: unless a command has broken off
while it wrote and no `init` has gone through since, a config that is there is the
one of the last `init`. It loads exactly if its key's path is read as written and
the passphrase makes a key with the salt. All else that `load` checks, the commands
have checked. -/
theorem set_up_loads [DecidableEq H] (site : Site H) (tr : Trace H) (fleet : Fleet H)
    (run : Run site.step bare tr fleet) :
    (∀ host,
      ((fleet.servers host).config ≠ none → lastServerInit host tr = none →
        ∃ e ∈ tr, BreaksServer host e) ∧
      ∀ s, lastServerInit host tr = some s →
        ∃ config, (fleet.servers host).config = some (.ok config) ∧
          ((∃ loaded, Server.load (site.serverEnv fleet host) site.publicKey config = .ok loaded) ↔
            Direct (site.serverEnv fleet host) (site.serverKeyFile host) ∧
              ∃ psk, Derives (site.serverEnv fleet host) serverPrompt s.salt psk)) ∧
    (fleet.admin.config ≠ none → lastClientInit tr = none → ∃ e ∈ tr, BreaksAdmin e) ∧
    ∀ c, lastClientInit tr = some c → ∃ file, fleet.admin.config = some (.ok file) ∧
      ((∃ client, Client.load (site.adminEnv fleet) file = .ok client) ↔
        Direct (site.adminEnv fleet) site.adminKeyFile ∧
          ∃ psk, Derives (site.adminEnv fleet) clientPrompt c.salt psk) ∧
      ∀ client, Client.load (site.adminEnv fleet) file = .ok client → ∀ name,
        (∃ e, client.servers.lookup name = some e) ↔ ∃ a, lastAdded name tr = some a := by
  have stands := run_stands run
  refine ⟨fun host => ⟨?_, ?_⟩, ?_, ?_⟩
  · intro there noted
    exact ((serverNoted_none noted).mp (stands.server host)).resolve_left there
  · intro s noted
    have server := (serverNoted_some noted).mp (stands.server host)
    have there := congrArg Files.config server.files
    exact ⟨_, there, server_loads_iff server there⟩
  · intro there noted
    exact ((adminNoted_none noted).mp stands.admin).resolve_left there
  · intro c noted
    have admin := (adminNoted_some noted).mp stands.admin
    obtain ⟨saltKey, file, m, salt, here, -⟩ := admin.edited
    exact ⟨file, here, client_loads_iff admin here, fun client ok name => known_iff admin here ok name⟩

/-! Who agrees. -/

/-- What the client holds of a server against what that server holds, by the texts
that were printed and passed on. -/
structure Agreement (site : Site H) (fleet : Fleet H) (host : H) (c : ClientInit) (s : ServerInit)
    (a : Added) (e : ServerEntry) (loaded : Server.LoadedConfig) : Prop where
  addr : SocketAddr.parse (normalizeAddr a.addr) = some e.addr
  listen : SocketAddr.parse s.listen = some loaded.listen
  port : parseU16 s.port = .ok loaded.listen.port
  rightServer : e.params.serverPubkey = site.publicKey loaded.server.staticSecret ↔
    trim a.serverPubkey = s.serverKey
  listed : site.publicKey e.params.staticSecret ∈ loaded.server.allowedAdmins ↔
    trim s.adminKey = c.adminKey
  psk : s.salt = c.salt →
    readPassphrase (site.adminEnv fleet) clientPrompt passphraseVar =
      readPassphrase (site.serverEnv fleet host) serverPrompt passphraseVar →
    e.params.psk = loaded.server.psk
  egress : loaded.server.egress = ⟨s.allow.toFinset⟩
  knock : ∃ k, loaded.knock = some k ∧ Spa.Usable k ∧ (Spa.Matched k e.addr e.params ↔
    trim a.serverPubkey = s.serverKey ∧ e.params.psk = loaded.server.psk ∧
      e.addr.port = loaded.listen.port)

theorem agreement_of_loaded {host : H} {c : ClientInit} {s : ServerInit} {a : Added} {known : Entry}
    {e : ServerEntry} {loaded : Server.LoadedConfig} {psk : Psk} {admin : PublicKey}
    (adminPrinted : c.adminKey = (site.publicKey c.secret).toBase64 site.engine)
    (stands : ServerStands site host (fleet.servers host) s)
    (parses : SocketAddr.parse (normalizeAddr a.addr) = some known.addr)
    (key : known.serverPubkey = a.serverPubkey)
    (client : EntryLoaded site fleet c.secret c.salt known e)
    (server : ServerLoaded site fleet host s loaded psk admin) :
    Agreement site fleet host c s a e loaded := by
  have ttl : 0 < Server.FirewallSection.default.ttlSecs.toNat := by decide
  have rightServer : e.params.serverPubkey = site.publicKey s.secret ↔
      trim a.serverPubkey = s.serverKey := by
    rw [← key, client.key, stands.printed]
    exact ⟨fun same => same ▸ rfl, PublicKey.toBase64_injective⟩
  constructor
  · rw [client.addr]
    exact parses
  · exact server.listen
  · rw [stands.port]
    exact portOf_listen server.listen
  · rw [server.server]
    exact rightServer
  · rw [server.server, client.secret_ok, server.admin_ok, adminPrinted, List.mem_singleton]
    exact ⟨fun same => same ▸ rfl, fun same => (PublicKey.toBase64_injective same).symm⟩
  · intro salts passphrases
    obtain ⟨p, read, derived⟩ := client.psk_ok
    obtain ⟨p', read', derived'⟩ := server.psk_ok
    rw [passphrases, read'] at read
    cases read
    rw [adminEnv_library] at derived
    rw [serverEnv_library, salts, derived] at derived'
    rw [server.server]
    exact Except.ok.inj derived'
  · rw [server.server]
  · refine ⟨_, server.knock, ⟨plain_table, plain_set, ttl⟩, ?_⟩
    · rw [server.server, ← rightServer]
      constructor
      · intro matched
        exact ⟨matched.serverPub, matched.psk, matched.port⟩
      · rintro ⟨pub, psk, port⟩
        refine ⟨psk, pub, port, ?_⟩
        intro settings member
        rw [client.knock] at member
        cases member
        exact port

/-- Whatever has been set up, edited and set up anew: where a client and a server
load, and no command on either has broken off while it wrote since the last `init`
that went through, they agree in each respect exactly if the text that was given for
it is the one that was last printed. -/
theorem set_up_agrees [DecidableEq H] (site : Site H) (tr : Trace H) (fleet : Fleet H)
    (run : Run site.step bare tr fleet) (c : ClientInit) (clientNoted : lastClientInit tr = some c)
    (host : H) (s : ServerInit) (serverNoted : lastServerInit host tr = some s)
    (config : Server.FileConfig) (there : (fleet.servers host).config = some (.ok config))
    (loaded : Server.LoadedConfig)
    (serverLoads : Server.load (site.serverEnv fleet host) site.publicKey config = .ok loaded)
    (file : Client.FileConfig) (here : fleet.admin.config = some (.ok file)) (client : LoadedClient)
    (clientLoads : Client.load (site.adminEnv fleet) file = .ok client) (name : String)
    (e : ServerEntry) (found : client.servers.lookup name = some e) :
    ∃ a, lastAdded name tr = some a ∧ Agreement site fleet host c s a e loaded := by
  have stands := run_stands run
  have server := (serverNoted_some serverNoted).mp (stands.server host)
  have admin := (adminNoted_some clientNoted).mp stands.admin
  obtain ⟨saltKey, file', m, salt, config', represents, distinct, described⟩ := admin.edited
  cases here.symm.trans config'
  obtain ⟨known, kept, entry⟩ := entry_loaded admin.stored represents distinct clientLoads found
  have describes := described name
  rw [kept] at describes
  generalize added : lastAdded name tr = noted at describes
  cases describes with
  | @present _ a parses key _ =>
    have files := server.files
    rw [files] at there
    cases there
    obtain ⟨-, psk, adminKey, served⟩ := (server_load_eq_ok (by rw [files])).mp serverLoads
    exact ⟨a, rfl, agreement_of_loaded admin.printed server parses key (salt ▸ entry) served⟩

/-! A site on which everybody is given what the others have printed. -/

def sampleComputer : Computer where
  var name := if name = "HYPERION_PASSPHRASE" then .ok "correct horse"
    else .error "environment variable not found"
  promptPassword _ := .error "no terminal"

def sampleSite : Site Unit where
  publicKey k := ⟨k.bytes.map (· + 1)⟩
  engine := .standard
  hash _ _ := some (.replicate 32 7)
  admin := sampleComputer
  server _ := sampleComputer

def sampleSecret (n : UInt8) : SecretKey := ⟨.replicate 32 n⟩

def samplePublic (n : UInt8) : String := (sampleSite.publicKey (sampleSecret n)).toBase64 .standard

/-- The first `init` breaks off with a new key and no config, and is done again. -/
def sampleSetup : List (Setup Unit) :=
  [.initClient false (sampleSecret 9) (sampleSecret 9)
      ⟨.ok (), .done, .cut (.error "missing field") "No space left on device (os error 28)"⟩,
    .initClient true (sampleSecret 1) (sampleSecret 2) ⟨.ok (), .done, .done⟩,
    .initServer () false (sampleSecret 3) (saltOf (samplePublic 2)) (samplePublic 1) [22] "0.0.0.0:8443"
      ⟨.ok (), .done, .done⟩,
    .edit (.add "home" "192.0.2.1" (samplePublic 3)) .done]

def sampleLoads : Option (Trace Unit × Fleet Unit × Server.FileConfig × Server.LoadedConfig ×
    Client.FileConfig × LoadedClient × ServerEntry) := do
  let (tr, fleet) ← exec sampleSite.step bare sampleSetup
  let config ← (fleet.servers ()).config.bind Except.toOption
  let loaded ← (Server.load (sampleSite.serverEnv fleet ()) sampleSite.publicKey config).toOption
  let file ← fleet.admin.config.bind Except.toOption
  let client ← (Client.load (sampleSite.adminEnv fleet) file).toOption
  let e ← client.servers.lookup "home"
  return (tr, fleet, config, loaded, file, client, e)

theorem ok_of_toOption {answer : Except ε α} {a : α} (ok : answer.toOption = some a) :
    answer = .ok a := by
  cases answer with
  | ok _ => exact congrArg Except.ok (Option.some.inj ok)
  | error _ => cases ok

theorem sample_loads : ∃ tr fleet c s config loaded file client e,
    Run sampleSite.step bare tr fleet ∧ tr.map Prod.fst = sampleSetup ∧
    lastClientInit tr = some c ∧ lastServerInit () tr = some s ∧
    (fleet.servers ()).config = some (.ok config) ∧
    Server.load (sampleSite.serverEnv fleet ()) sampleSite.publicKey config = .ok loaded ∧
    fleet.admin.config = some (.ok file) ∧
    Client.load (sampleSite.adminEnv fleet) file = .ok client ∧
    client.servers.lookup "home" = some e := by
  have loads : (sampleLoads.any fun r => (lastClientInit r.1).isSome && (lastServerInit () r.1).isSome) =
      true := by decide +kernel
  obtain ⟨result, loads, noted⟩ := (Option.any_eq_true _ _).mp loads
  rw [Bool.and_eq_true] at noted
  obtain ⟨c, hc⟩ := Option.isSome_iff_exists.mp noted.1
  obtain ⟨s, hs⟩ := Option.isSome_iff_exists.mp noted.2
  simp only [sampleLoads, Option.bind_eq_bind, Option.bind_eq_some_iff, Option.pure_def,
    Option.some.injEq] at loads
  obtain ⟨⟨tr, fleet⟩, executed, config, ⟨_, there, serverParsed⟩, loaded, serverLoads, file,
    ⟨_, here, clientParsed⟩, client, clientLoads, e, found, rfl⟩ := loads
  obtain ⟨run, inputs⟩ := exec_run executed
  rw [ok_of_toOption serverParsed] at there
  rw [ok_of_toOption clientParsed] at here
  exact ⟨tr, fleet, c, s, config, loaded, file, client, e, run, inputs, hc, hs, there,
    ok_of_toOption serverLoads, here, ok_of_toOption clientLoads, found⟩

theorem set_up_loads_sample : ∃ tr fleet c s psk psk', Run sampleSite.step bare tr fleet ∧
    tr.map Prod.fst = sampleSetup ∧ lastClientInit tr = some c ∧ lastServerInit () tr = some s ∧
    Derives (sampleSite.adminEnv fleet) clientPrompt c.salt psk ∧
    Derives (sampleSite.serverEnv fleet ()) serverPrompt s.salt psk' := by
  obtain ⟨tr, fleet, c, s, config, loaded, file, client, _, run, inputs, hc, hs, there, serverLoads,
    here, clientLoads, -⟩ := sample_loads
  obtain ⟨server, -, admin⟩ := set_up_loads sampleSite tr fleet run
  obtain ⟨config', there', serverIff⟩ := (server ()).2 s hs
  obtain ⟨file', here', clientIff, -⟩ := admin c hc
  cases there.symm.trans there'
  cases here.symm.trans here'
  obtain ⟨-, psk', derives'⟩ := serverIff.mp ⟨loaded, serverLoads⟩
  obtain ⟨-, psk, derives⟩ := clientIff.mp ⟨client, clientLoads⟩
  exact ⟨tr, fleet, c, s, psk, psk', run, inputs, hc, hs, derives, derives'⟩

/-- The server is loaded, and the client, which knows it. -/
theorem set_up_agrees_sample : ∃ tr fleet c s a e loaded, Run sampleSite.step bare tr fleet ∧
    tr.map Prod.fst = sampleSetup ∧ lastClientInit tr = some c ∧ lastServerInit () tr = some s ∧
    lastAdded "home" tr = some a ∧ Agreement sampleSite fleet () c s a e loaded := by
  obtain ⟨tr, fleet, c, s, config, loaded, file, client, e, run, inputs, hc, hs, there, serverLoads,
    here, clientLoads, found⟩ := sample_loads
  obtain ⟨a, ha, agreement⟩ := set_up_agrees sampleSite tr fleet run c hc () s hs config there
    loaded serverLoads file here client clientLoads "home" e found
  exact ⟨tr, fleet, c, s, a, e, loaded, run, inputs, hc, hs, ha, agreement⟩

end HyperionVpn.Common.Site
