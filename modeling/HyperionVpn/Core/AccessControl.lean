import HyperionVpn.Core.ServeConnectionProofs

/-! Access control over whole runs of the server: who reaches which port, who
hears from the server at all, and what the streams are told. -/
namespace HyperionVpn

/-- The verdict as the peer sees it: the first byte on the stream. Bytes are
relayed, either way, only after `ok`. -/
structure Handler.Answered (egress : Egress) (h : Handler) : Prop where
  verdict : ∀ code rest, h.task.streamOut.sent = code :: rest → ∃ request : ConnectRequest,
    request.bytes <+: h.task.streamIn.received ∧
    (code = ConnectResponse.denied.code ↔ egress.permits request.port = false) ∧
    (egress.permits request.port = true →
      (code = ConnectResponse.ok.code ↔ h.outcome = some true) ∧
      (code = ConnectResponse.unreachable.code ↔ h.outcome = some false)) ∧
    (rest ≠ [] → code = ConnectResponse.ok.code)
  relayed : h.task.targetOut.sent ≠ [] ∨ h.task.targetIn.received ≠ [] →
    ∃ rest, h.task.streamOut.sent = ConnectResponse.ok.code :: rest

theorem Handler.Settled.answered {egress : Egress} {h : Handler} (settled : h.Settled egress) :
    h.Answered egress where
  verdict code rest sent := by
    obtain ⟨request, response, rest', bytes, decides, same, only⟩ := settled.verdict (by simp [sent])
    obtain ⟨rfl, rfl⟩ := List.cons.inj (sent.symm.trans same)
    refine ⟨request, bytes, ?_⟩
    cases response with
    | denied =>
      obtain ⟨refused, -⟩ := decides
      have last : rest = [] := only.resolve_left (by decide)
      simp [refused, last]
    | ok =>
      obtain ⟨permitted, connected⟩ := decides
      simp [permitted, connected, ConnectResponse.code]
    | unreachable =>
      obtain ⟨permitted, missed⟩ := decides
      have last : rest = [] := only.resolve_left (by decide)
      simp [permitted, missed, last, ConnectResponse.code]
  relayed loud := by
    apply settled.relayed
    rintro ⟨received, sent⟩
    exact loud.elim (absurd sent) (absurd received)

namespace Connection
open Machine Framing

variable {noise : NoiseLibrary} {yamux : Yamux} {aead : Aead} {config : ServerConfig}

/-- A dial that an admin is behind: it is to a listed port of the loopback
address, and the request for it is what a stream of the session begins with,
in frames that opened, after `accept` had returned an admin of the list. -/
def Warranted (noise : NoiseLibrary) (yamux : Yamux) (aead : Aead) (config : ServerConfig)
    (c : Connection) (d : Dial) : Prop :=
  ∃ (request : ConnectRequest) (h : Handler) (recv : CipherState) (admin : PublicKey)
    (msgs : List (List UInt8)),
    d.address = loopback request.port ∧ request.port ∈ config.egress.ports ∧
    c.handlers[d.handler]? = some h ∧ h.stream ∈ yamux.streams c.plaintext ∧
    request.bytes <+: yamux.data c.plaintext h.stream ∧
    c.plaintext <+: msgs.flatten ∧ stream (recv.sealAll aead msgs) <+: c.received ∧
    Returned c recv admin ∧ c.accept.Identified noise config.toServerHandshake admin

theorem Sound.plaintext_of_handler {peer : Peer} {c : Connection} {h : Handler}
    (sound : Sound noise yamux aead config peer c) (member : h ∈ c.handlers) :
    h.stream ∈ yamux.streams c.plaintext ∧ c.plaintext ≠ [] := by
  have offered := sound.handling.spawned.subset (List.mem_map_of_mem member)
  have opened := sound.handling.opened offered
  refine ⟨opened, fun none => ?_⟩
  rw [none, yamux.streams_nil] at opened
  exact List.not_mem_nil opened

theorem Grounded.warranted {peer : Peer} {c : Connection} {d : Dial}
    (grounded : Grounded config c d) (sound : Sound noise yamux aead config peer c) :
    Warranted noise yamux aead config c d ∧ Entitled config peer c := by
  obtain ⟨request, h, found, address, permitted, bytes⟩ := grounded
  have member := List.mem_of_getElem? found
  obtain ⟨opened, read⟩ := sound.plaintext_of_handler member
  obtain ⟨⟨recv, admin, msgs, returned, frames, plaintext⟩, entitled⟩ := sound.authentic read
  refine ⟨⟨request, h, recv, admin, msgs, address, ?_, found, opened, ?_, plaintext, frames,
    returned, ?_⟩, entitled⟩
  · simpa only [Egress.permits, decide_eq_true_eq] using permitted
  · have fed := (sound.handling.sound h member).fed
    exact (bytes.trans (Pipe.received_prefix _)).trans fed
  · obtain ⟨send, phase⟩ := returned
    exact (sound.guarded.returned _ _ phase).1

theorem Sound.silent {peer : Peer} {c : Connection} (sound : Sound noise yamux aead config peer c)
    (stranger : ∀ admin, ¬ c.accept.Identified noise config.toServerHandshake admin) :
    c.sent = [] := by
  rw [Connection.sent, List.append_eq_nil_iff]
  constructor
  · by_contra sent
    obtain ⟨admin, identified⟩ := sound.guarded.silent sent
    exact stranger admin identified
  · by_contra sent
    obtain ⟨recv, admin, send, phase⟩ := sound.sending sent
    exact stranger admin (sound.guarded.returned _ _ phase).1

/-- One connection, while what its peer shows the server is its own. -/
theorem run_sound {peer : Peer} {tr : List (Event × Option Dial)} {c : Connection}
    (run : Run (step noise yamux aead config) new tr c)
    (secret : Always (step noise yamux aead config) new (Secret aead config peer) tr) :
    Sound noise yamux aead config peer c ∧ ∀ e d, (e, some d) ∈ tr → Grounded config c d := by
  induction run with
  | nil =>
    refine ⟨sound_new, ?_⟩
    intro e d member
    contradiction
  | snoc left stepped ih =>
    obtain ⟨sound, grounded⟩ := ih secret.prefix
    obtain ⟨sound', grown, dials⟩ := keeps_step sound (secret.last left) stepped
    refine ⟨sound', ?_⟩
    intro e d member
    rcases List.mem_append.mp member with old | last
    · exact (grounded e d old).extends grown
    · cases List.mem_singleton.mp last
      exact dials d rfl

abbrev Trace := List ((Nat × Event) × Option Dial)

/-- Every dial has an admin behind it. A peer that does not hold the pre-shared
key, or has not made its first message itself, is behind none. A peer hears from
the server only if its first message verifies as an admin's. Each stream is
told the verdict on its request, once. -/
structure Controlled (noise : NoiseLibrary) (yamux : Yamux) (aead : Aead) (config : ServerConfig)
    (peers : Nat → Peer) (tr : Trace) (conns : Nat → Connection) : Prop where
  dials : ∀ i e d, ((i, e), some d) ∈ tr → Warranted noise yamux aead config (conns i) d
  outsiders : ∀ i, ¬ Entitled config (peers i) (conns i) → ∀ e d, ((i, e), some d) ∉ tr
  strangers : ∀ i, (∀ admin, ¬ (conns i).accept.Identified noise config.toServerHandshake admin) →
    (conns i).sent = []
  verdicts : ∀ i, ∀ h ∈ (conns i).handlers, h.Answered config.egress
  once : ∀ i, ((conns i).handlers.map Handler.stream).Nodup

theorem access_is_controlled (noise : NoiseLibrary) (yamux : Yamux) (aead : Aead)
    (config : ServerConfig) (peers : Nat → Peer) (tr : Trace) (conns : Nat → Connection)
    (run : Run (serveAll noise yamux aead config) (fun _ => new) tr conns)
    (secret : Always (serveAll noise yamux aead config) (fun _ => new)
      (fun conns input => Secret aead config (peers input.1) (conns input.1) input.2) tr) :
    Controlled noise yamux aead config peers tr conns := by
  have each (i : Nat) : Sound noise yamux aead config (peers i) (conns i) ∧
      ∀ e d, (e, some d) ∈ own i tr → Grounded config (conns i) d := by
    apply run_sound (run.own i)
    exact Always.own (A := fun i => Secret aead config (peers i)) run secret i
  constructor
  · intro i e d member
    obtain ⟨sound, grounded⟩ := each i
    exact ((grounded e d (mem_own.mpr member)).warranted sound).1
  · intro i outsider e d member
    obtain ⟨sound, grounded⟩ := each i
    exact outsider ((grounded e d (mem_own.mpr member)).warranted sound).2
  · intro i stranger
    exact (each i).1.silent stranger
  · intro i h member
    exact ((each i).1.handling.sound h member).settled.answered
  · intro i
    have handling := (each i).1.handling
    exact handling.once.sublist handling.spawned.sublist

/-! An admin, and somebody who replays the admin's first message and frame. -/

def sampleAdmin : PublicKey := ⟨Vector.replicate 32 5⟩

def sampleConfig : ServerConfig :=
  ⟨⟨⟨Vector.replicate 32 1⟩, ⟨Vector.replicate 32 2⟩, [sampleAdmin]⟩, ⟨{8080}⟩⟩

/-- What was mixed into the keys, and the static key of the other side. -/
structure SampleState where
  mixed : List UInt8
  rs : Option (Vector UInt8 32)
  completed : Bool

def sampleCipher (key : UInt8) : CipherState :=
  ⟨⟨(key :: List.replicate 31 0).toArray, by simp⟩, 0⟩

/-- A first message is the static key of its sender, and the second the
ephemeral secret of the server. It protects nothing. -/
def sampleNoise : NoiseLibrary where
  HandshakeState := SampleState
  responder _ s := ⟨s.bytes.toList, none, false⟩
  pushPsk state psk := { state with mixed := state.mixed ++ psk.bytes.toList }
  readMessageVec state msg :=
    (Bytes.tryInto 32 msg).map fun rs => ([], { state with mixed := state.mixed ++ msg, rs })
  getRs state := state.rs
  writeMessageVec ephemeral state _ := some (ephemeral.toList,
    { state with mixed := state.mixed ++ ephemeral.toList, completed := true })
  completed state := state.completed
  getCiphers state :=
    let key := (state.mixed.map UInt8.toNat).sum.toUInt8
    (sampleCipher key, sampleCipher (key + 1))

/-- The frame that opens the first stream of a client, with two bytes on it. -/
def sampleHeader : List UInt8 := [0, 0, 0, 1, 0, 0, 0, 1, 0, 0, 0, 2]

/-- A connection on which there is at most that frame. -/
def sampleYamux : Yamux where
  streams input := if sampleHeader.isPrefixOf input then [⟨1⟩] else []
  data input s :=
    if sampleHeader.isPrefixOf input ∧ s = ⟨1⟩ then (input.drop 12).take 2 else []
  streams_nil := rfl
  streams_mono {a b} grown := by
    split <;> rename_i opened
    · rw [List.isPrefixOf_iff_prefix] at opened
      rw [if_pos (List.isPrefixOf_iff_prefix.mpr (opened.trans grown))]
    · exact List.nil_prefix
  data_mono {a b} s grown := by
    split <;> rename_i opened
    · rw [List.isPrefixOf_iff_prefix] at opened
      rw [if_pos ⟨List.isPrefixOf_iff_prefix.mpr (opened.1.trans grown), opened.2⟩]
      exact (grown.drop 12).take 2
    · exact List.nil_prefix

def samplePeer (i : Nat) : Peer :=
  ⟨{psk | i = 0 ∧ psk = sampleConfig.psk}, {msg1 | i = 0 ∧ msg1 = sampleAdmin.bytes.toList}⟩

instance (i : Nat) (c : Connection) : Decidable (Entitled sampleConfig (samplePeer i) c) :=
  decidable_of_iff (i = 0 ∧ c.accept.first = some sampleAdmin.bytes.toList) (by
    constructor
    · rintro ⟨same, first⟩
      exact ⟨⟨same, rfl⟩, _, ⟨same, rfl⟩, first⟩
    · rintro ⟨⟨same, -⟩, msg1, ⟨-, rfl⟩, first⟩
      exact ⟨same, first⟩)

instance (aead : Aead) (config : ServerConfig) (peer : Peer) (c : Connection)
    [Decidable (Entitled config peer c)] : DecidablePred (Secret aead config peer c)
  | .read _ script =>
    if entitled : Entitled config peer c then .isTrue fun _ _ _ _ _ => entitled
    else
      match h : c.phase with
      | .serving stream => decidable_of_iff
          (∀ tail ∈ (c.received ++ NoiseStream.scriptBytes script).tails, ∀ ciphertext ∈ tail.inits,
            (stream.recv.decryptVec aead ciphertext).isSome = false)
          (by
            simp only [Secret, List.mem_tails, List.mem_inits]
            constructor
            · intro checked stream' ciphertext phase inside opens
              cases h.symm.trans phase
              obtain ⟨tail, first, last⟩ := List.infix_iff_prefix_suffix.mp inside
              cases opens.symm.trans (checked tail last ciphertext first)
            · intro secret tail last ciphertext first
              have inside := List.infix_iff_prefix_suffix.mpr ⟨tail, first, last⟩
              exact eq_false_of_ne_true (mt (secret stream ciphertext h inside) entitled))
      | .accepting | .finished _ => .isTrue fun _ _ phase => nomatch h.symm.trans phase
  | .handshake _ | .timeout | .write _ _ | .flush _ _ | .shutdown _ _ | .drive _ | .accept
  | .handler _ _ | .deliver _ _ | .hangUp _ | .target _ _ | .targetClose _ => .isTrue trivial

/-- The admin's frame, under the key that the server's first ephemeral secret gives. -/
def sampleFrame : List UInt8 :=
  frame ((sampleCipher 96).encryptVec .transparent (sampleHeader ++ [31, 144])).1

/-- The handshake of either, with another ephemeral secret of the server. -/
def sampleHandshake (ephemeral : Vector UInt8 32) : List Event :=
  [.handshake (.read [0, 32] ephemeral),
   .handshake (.read sampleAdmin.bytes.toList ephemeral),
   .handshake (.wrote 34), .handshake .flushed, .read 100 [.filled sampleFrame]]

def sampleEvents : List (Nat × Event) :=
  (sampleHandshake (Vector.replicate 32 3)).map (Prod.mk 0) ++
  (sampleHandshake (Vector.replicate 32 4)).map (Prod.mk 1) ++
  [(0, .drive .pending), (0, .drive (.ready (some (.ok ⟨1⟩)))), (0, .accept), (0, .deliver 0 9),
   (0, .handler 0 (.read 9)), (0, .handler 0 (.dialed true)), (0, .handler 0 (.wrote 1))]

set_option maxRecDepth 10000 in
theorem access_is_controlled_sample : ∃ tr conns,
    Run (serveAll sampleNoise sampleYamux .transparent sampleConfig) (fun _ => new) tr conns ∧
    tr.map Prod.fst = sampleEvents ∧
    ((0, .handler 0 (.read 9)), some ⟨0, loopback 8080⟩) ∈ tr ∧
    (∃ recv, Returned (conns 1) recv sampleAdmin) ∧
    Controlled sampleNoise sampleYamux .transparent sampleConfig samplePeer tr conns := by
  obtain ⟨⟨tr, conns⟩, h, dial, returned⟩ : ∃ result,
      exec (serveAll sampleNoise sampleYamux .transparent sampleConfig) (fun _ => new)
        sampleEvents = some result ∧
      ((0, .handler 0 (.read 9)), some ⟨0, loopback 8080⟩) ∈ result.1 ∧
      ∃ recv, Returned (result.2 1) recv sampleAdmin :=
    ⟨_, rfl, List.mem_of_getElem? (i := 14) rfl, _, _, rfl⟩
  obtain ⟨run, inputs⟩ := exec_run h
  have secret : checkAll (serveAll sampleNoise sampleYamux .transparent sampleConfig)
      (fun conns input => Secret .transparent sampleConfig (samplePeer input.1) (conns input.1) input.2)
      (fun _ => new) sampleEvents = true := by decide +kernel
  exact ⟨tr, conns, run, inputs, dial, returned, access_is_controlled _ _ _ _ _ _ _ run
    (Always.of_checkAll secret run inputs)⟩

end Connection
end HyperionVpn
