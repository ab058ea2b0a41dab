import HyperionVpn.Client.VirtualIps
import HyperionVpn.Lib.Machine

/-! The editing commands as a machine over the config file, and what each
command does to it when it succeeds. -/
namespace HyperionVpn.Client
open Net FirstFit Machine

inductive Edit where
  | add (name addr serverPubkey : String)
  | remove (name : String)
  deriving DecidableEq, Repr

/-- A command that fails has not written the file. -/
def settle (file : FileConfig) :
    Anyhow (Option Ipv4Addr × FileConfig) → Anyhow (Option Ipv4Addr) × FileConfig
  | .ok (vip, file') => (.ok vip, file')
  | .error e => (.error e, file)

/-- One command on the file. -/
def edit (env : Environment) (file : FileConfig) (e : Edit) :
    Option (Anyhow (Option Ipv4Addr) × FileConfig) :=
  some <| settle file <| match e with
    | .add name addr serverPubkey =>
      (addServer env file name addr serverPubkey).map fun (vip, file') => (some vip, file')
    | .remove name => (removeServer file name).map fun file' => (none, file')

abbrev Edits := List (Edit × Anyhow (Option Ipv4Addr))

/-- The section that `add_server` writes. -/
def addedSection (name : String) (addr : SocketAddr) (serverPubkey : String) (vip : Ipv4Addr) :
    ServerSection :=
  ⟨name, addr.display, serverPubkey, some vip.display, none, none, none⟩

/-- A successful `add_server`. -/
structure Adds (env : Environment) (file : FileConfig) (name addr serverPubkey : String)
    (parsedAddr : SocketAddr) (tun : TunConfig) (vip : Ipv4Addr) : Prop where
  addr_parses : SocketAddr.parse (normalizeAddr addr) = some parsedAddr
  key_decodes : ∃ key, PublicKey.fromBase64 env.library serverPubkey = .ok key
  fresh : ∀ s ∈ file.server, s.name ≠ name
  tun_parses : parseTun file.tun = .ok tun
  lowest : firstFree tun.hosts (explicitIps file.server) = some vip

theorem addServer_eq_ok {env : Environment} {file file' : FileConfig}
    {name addr serverPubkey : String} {vip : Ipv4Addr} :
    addServer env file name addr serverPubkey = .ok (vip, file') ↔ ∃ parsedAddr tun,
      Adds env file name addr serverPubkey parsedAddr tun vip ∧
        file' = { file with
          server := file.server ++ [addedSection name parsedAddr serverPubkey vip] } := by
  simp only [addServer, bind_eq_ok, contextParse_eq_ok, contextError_eq_ok]
  constructor
  · rintro ⟨parsedAddr, parses, key, decodes, rest⟩
    split at rest
    · cases rest
    rename_i fresh
    obtain ⟨tun, tunParses, rest⟩ := bind_eq_ok.mp rest
    obtain ⟨ip, assigned, rest⟩ := bind_eq_ok.mp rest
    rw [contextNone_eq_ok, assignVirtualIp_eq] at assigned
    cases rest
    refine ⟨parsedAddr, tun, ⟨parses, ⟨key, decodes⟩, ?_, tunParses, assigned⟩, rfl⟩
    simpa using fresh
  · rintro ⟨parsedAddr, tun, ⟨parses, ⟨key, decodes⟩, fresh, tunParses, assigned⟩, rfl⟩
    refine ⟨parsedAddr, parses, key, decodes, ?_⟩
    rw [if_neg (by simpa using fresh)]
    simp only [bind_eq_ok, contextNone_eq_ok, assignVirtualIp_eq]
    exact ⟨tun, tunParses, vip, assigned, rfl⟩

theorem removeServer_eq_ok {file file' : FileConfig} {name : String} :
    removeServer file name = .ok file' ↔ (∃ s ∈ file.server, s.name = name) ∧
      file' = { file with server := file.server.filter (·.name ≠ name) } := by
  have kept : (file.server.filter (·.name ≠ name)).length = file.server.length ↔
      ¬ ∃ s ∈ file.server, s.name = name := by
    rw [List.length_filter_eq_length_iff]
    simp
  unfold removeServer
  dsimp only
  split
  · rename_i same
    have missing := kept.mp same
    simp [bail, missing]
  · rename_i shorter
    have present := not_not.mp (fun missing => shorter (kept.mpr missing))
    constructor
    · rintro ⟨⟩
      exact ⟨present, rfl⟩
    · rintro ⟨-, rfl⟩
      rfl

/-- A step of the machine, by the command and whether it succeeded. -/
inductive Edited (env : Environment) (file : FileConfig) :
    Edit → Anyhow (Option Ipv4Addr) → FileConfig → Prop where
  | failed (e : Edit) (failure : Failure) : Edited env file e (.error failure) file
  | added {name addr serverPubkey parsedAddr tun vip} :
      Adds env file name addr serverPubkey parsedAddr tun vip →
      Edited env file (.add name addr serverPubkey) (.ok (some vip))
        { file with server := file.server ++ [addedSection name parsedAddr serverPubkey vip] }
  | removed {name} : (∃ s ∈ file.server, s.name = name) →
      Edited env file (.remove name) (.ok none)
        { file with server := file.server.filter (·.name ≠ name) }

theorem edit_spec {env : Environment} {file file' : FileConfig} {e : Edit}
    {answer : Anyhow (Option Ipv4Addr)} (h : edit env file e = some (answer, file')) :
    Edited env file e answer file' := by
  cases e with
  | add name addr serverPubkey =>
    rw [edit] at h
    dsimp only at h
    cases added : addServer env file name addr serverPubkey with
    | ok result =>
      rw [added] at h
      cases h
      obtain ⟨parsedAddr, tun, adds, same⟩ := addServer_eq_ok.mp added
      rw [same]
      exact .added adds
    | error failure =>
      rw [added] at h
      cases h
      exact .failed _ failure
  | remove name =>
    rw [edit] at h
    cases removed : removeServer file name with
    | ok result =>
      rw [removed] at h
      cases h
      obtain ⟨present, same⟩ := removeServer_eq_ok.mp removed
      rw [same]
      exact .removed present
    | error failure =>
      rw [removed] at h
      cases h
      exact .failed _ failure

theorem edit_added {env : Environment} {file : FileConfig} {name addr serverPubkey : String}
    {parsedAddr : SocketAddr} {tun : TunConfig} {vip : Ipv4Addr}
    (adds : Adds env file name addr serverPubkey parsedAddr tun vip) :
    edit env file (.add name addr serverPubkey) = some (.ok (some vip), { file with
      server := file.server ++ [addedSection name parsedAddr serverPubkey vip] }) := by
  have added := addServer_eq_ok.mpr ⟨parsedAddr, tun, adds, rfl⟩
  rw [edit]
  dsimp only
  rw [added]
  rfl

theorem edit_removed {env : Environment} {file : FileConfig} {name : String}
    (present : ∃ s ∈ file.server, s.name = name) :
    edit env file (.remove name) =
      some (.ok none, { file with server := file.server.filter (·.name ≠ name) }) := by
  have removed := removeServer_eq_ok.mpr ⟨present, rfl⟩
  rw [edit, removed]
  rfl

/-! A concrete environment, in which one key file and no variable exists. -/

def sampleKeyText : String := "AAAAAAAAAAAAAAAAAAAAAAAAAAAAAAAAAAAAAAAAAAA="

def sampleEnvironment : Environment where
  library :=
    { decode := fun s => if s = sampleKeyText then some (List.replicate 32 0) else none
      hashPasswordInto := fun _ _ => some (Vector.replicate 32 0) }
  var := fun _ => .error "environment variable not found"
  readToString := fun path =>
    if path = "/etc/hyperion/admin.key" then .ok (sampleKeyText ++ "\n")
    else .error "No such file or directory (os error 2)"
  promptPassword := fun _ => .ok "correct horse battery"

def sampleFile : FileConfig := initConfig "/etc/hyperion/admin.key" sampleKeyText

def sampleAdd : Edit := .add "b" "192.0.2.2" sampleKeyText

end HyperionVpn.Client
