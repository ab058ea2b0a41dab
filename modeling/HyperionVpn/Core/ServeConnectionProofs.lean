import HyperionVpn.Core.Answers
import HyperionVpn.Core.NoiseIntegrity
import HyperionVpn.Core.NoiseInvariant

/-! What holds of a connection in every state. Between the return of `accept`
and the first frame that opens, a peer has nobody on the server to talk to. -/
namespace HyperionVpn

theorem Mux.drive_inbox (m : Mux) (inbound : Poll (Option (Except String MuxStream)))
    (budget : Bool) : (m.drive .pending inbound budget).2.inbox = m.inbox ∨
      ∃ stream, inbound = .ready (some (.ok stream)) ∧
        (m.drive .pending inbound budget).2.inbox = m.inbox ++ [stream] := by
  unfold drive
  split
  · left
    unfold pollOutbound
    split <;> rfl
  · unfold pollInbound
    split
    · rename_i stream
      dsimp only
      split
      · exact .inr ⟨stream, rfl, rfl⟩
      · exact .inl rfl
    · exact .inl rfl
    · exact .inl rfl
    · exact .inl rfl
  · left
    unfold pollQueue
    split
    · split
      · rfl
      split
      · rfl
      split <;> rfl
    · rfl
  · exact .inl rfl
  · exact .inl rfl

/-- The other end of a connection: the pre-shared keys that it holds, and the
first messages that it has made itself and not copied. -/
structure Peer where
  psks : Set Psk
  written : Set (List UInt8)

namespace Connection
open Framing NoiseStream

variable {noise : NoiseLibrary} {yamux : Yamux} {aead : Aead} {config : ServerConfig} {peer : Peer}

/-- The peer can derive the keys of the session that its first message begins. -/
def Entitled (config : ServerConfig) (peer : Peer) (c : Connection) : Prop :=
  config.psk ∈ peer.psks ∧ ∃ msg1 ∈ peer.written, c.accept.first = some msg1

/-- What IKpsk2 promises of the keys of a session, which are made from the
pre-shared key and the ephemeral secrets of both sides: nobody else can show
the server a ciphertext that opens. -/
def Secret (aead : Aead) (config : ServerConfig) (peer : Peer) (c : Connection) : Event → Prop
  | .read _ script => ∀ stream ciphertext, c.phase = .serving stream →
      ciphertext <:+: c.received ++ scriptBytes script →
      (stream.recv.decryptVec aead ciphertext).isSome = true → Entitled config peer c
  | _ => True

/-- `accept` has returned this admin, with a session that receives like this. -/
def Returned (c : Connection) (recv : CipherState) (admin : PublicKey) : Prop :=
  ∃ send, c.accept.phase = .done (.ok (.new send recv, admin))

/-- What yamux has read comes from frames that opened. -/
def Authentic (aead : Aead) (c : Connection) : Prop :=
  ∃ recv admin msgs, Returned c recv admin ∧ stream (recv.sealAll aead msgs) <+: c.received ∧
    c.plaintext <+: msgs.flatten

/-- The transport of a session that is served. -/
def Serves (aead : Aead) (config : ServerConfig) (peer : Peer) (c : Connection)
    (stream : NoiseStream) : Prop :=
  ∃ recv admin msgs, Returned c recv admin ∧
    Receiving aead recv stream c.received c.plaintext msgs ∧
    (msgs ≠ [] → Entitled config peer c)

/-- The handlers are those of streams that the peer has opened, one for each. -/
structure Handling (yamux : Yamux) (egress : Egress) (plaintext : List UInt8)
    (inbox : List MuxStream) (handlers : List Handler) : Prop where
  opened : inbox ⊆ yamux.streams plaintext
  once : inbox.Nodup
  spawned : handlers.map Handler.stream <+: inbox
  sound : ∀ h ∈ handlers, h.Sound egress (yamux.data plaintext h.stream)

structure Sound (noise : NoiseLibrary) (yamux : Yamux) (aead : Aead) (config : ServerConfig)
    (peer : Peer) (c : Connection) : Prop where
  guarded : c.accept.Guarded noise config.toServerHandshake
  accepting : c.phase = .accepting → c.received = [] ∧ c.plaintext = [] ∧ c.out = []
  serving : ∀ stream, c.phase = .serving stream → Serves aead config peer c stream
  authentic : c.plaintext ≠ [] → Authentic aead c ∧ Entitled config peer c
  sending : c.out ≠ [] → ∃ recv admin, Returned c recv admin
  handling : Handling yamux config.egress c.plaintext c.mux.inbox c.handlers

theorem sound_new : Sound noise yamux aead config peer new where
  guarded := Accept.guarded_new
  accepting _ := ⟨rfl, rfl, rfl⟩
  serving := nofun
  authentic := by simp [new]
  sending := by simp [new]
  handling := ⟨List.nil_subset _, List.nodup_nil, List.nil_prefix, by simp [new]⟩

variable {c c' : Connection} {e : Event}

theorem sound_whileAccepting (h : Sound noise yamux aead config peer c)
    (phase : c.phase = .accepting) (e : Event) :
    Sound noise yamux aead config peer (c.whileAccepting noise config e) := by
  obtain ⟨received, plaintext, out⟩ := h.accepting phase
  unfold whileAccepting
  split
  · rename_i e
    have guarded := Accept.guarded_step h.guarded e
    refine ⟨guarded, fun _ => ⟨received, plaintext, out⟩, ?_, fun read => absurd plaintext read,
      fun sent => absurd out sent, h.handling⟩
    intro stream serving
    dsimp only at serving
    split at serving
    · rename_i stream' admin returned
      cases serving
      obtain ⟨-, send, recv, rfl⟩ := guarded.returned _ _ returned
      refine ⟨recv, admin, [], ⟨send, returned⟩, ?_, fun some => absurd rfl some⟩
      simpa only [received, plaintext] using receiving_new aead send recv
    · cases serving
    · cases serving
  · exact ⟨h.guarded, nofun, nofun, h.authentic, h.sending, h.handling⟩
  · exact h

/-- More plaintext is more streams, and more on each. -/
theorem Handling.read {egress : Egress} {plaintext more : List UInt8} {inbox : List MuxStream}
    {handlers : List Handler} (h : Handling yamux egress plaintext inbox handlers)
    (grown : plaintext <+: more) : Handling yamux egress more inbox handlers where
  opened := List.Subset.trans h.opened (yamux.streams_mono grown).subset
  once := h.once
  spawned := h.spawned
  sound handler member := by
    obtain ⟨fed, handles, deciding⟩ := h.sound handler member
    exact ⟨fed.trans (yamux.data_mono _ grown), handles, deciding⟩

theorem sound_read {stream : NoiseStream} {remaining : Nat} {script : List InnerRead}
    {r : Reading (PollResult (List UInt8))} (h : Sound noise yamux aead config peer c)
    (phase : c.phase = .serving stream) (secret : Secret aead config peer c (.read remaining script))
    (read : stream.pollRead aead remaining script = some r) :
    Sound noise yamux aead config peer { c with
      phase := .serving r.stream
      received := c.received ++ r.taken
      plaintext := c.plaintext ++ outOf r.result } := by
  obtain ⟨recv, admin, msgs, returned, receiving, entitled⟩ := h.serving stream phase
  obtain ⟨r', read', ⟨accounts, ⟨more, receiving'⟩, -⟩⟩ := pollRead_spec receiving remaining script
  cases read.symm.trans read'
  have entitled' : msgs ++ more ≠ [] → Entitled config peer c := by
    intro some
    cases msgs with
    | cons msg msgs => exact entitled (by simp)
    | nil =>
      -- The first frame to open does so with the state that the session began with.
      obtain ⟨msg, more, rfl⟩ := List.exists_cons_of_ne_nil (by simpa using some)
      apply secret stream ((recv.encryptVec aead msg).1) phase
      · have first : (recv.encryptVec aead msg).1 <:+: Framing.stream (recv.sealAll aead ([] ++ msg :: more)) :=
          body_infix (List.mem_cons_self ..)
        have shown : c.received ++ r.taken <+: c.received ++ scriptBytes script := by
          rw [accounts.bytes, ← List.append_assoc]
          exact List.prefix_append _ _
        have taken : Framing.stream (recv.sealAll aead ([] ++ msg :: more)) <+: c.received ++ r.taken :=
          ⟨r.stream.readRaw, receiving'.consumed.symm⟩
        exact first.trans (taken.trans shown).isInfix
      · rw [receiving.counter, List.length_nil, CipherState.advance_zero,
          CipherState.decryptVec_encryptVec]
        rfl
  refine ⟨h.guarded, nofun, ?_, ?_, h.sending, h.handling.read (List.prefix_append _ _)⟩
  · intro stream' same
    cases same
    exact ⟨recv, admin, msgs ++ more, returned, receiving', entitled'⟩
  · intro some
    have handed := receiving'.handed
    refine ⟨⟨recv, admin, msgs ++ more, returned, ?_, ⟨_, handed⟩⟩, entitled' ?_⟩
    · exact ⟨r.stream.readRaw, receiving'.consumed.symm⟩
    · intro none
      rw [none, List.flatten_nil, List.append_eq_nil_iff] at handed
      exact some handed.1

theorem sound_written {stream stream' : NoiseStream} {wire : List UInt8}
    (h : Sound noise yamux aead config peer c) (phase : c.phase = .serving stream)
    (only : WritesOnly aead stream stream') :
    Sound noise yamux aead config peer
      { c with phase := .serving stream', out := c.out ++ wire } := by
  obtain ⟨recv, admin, msgs, returned, receiving, entitled⟩ := h.serving stream phase
  refine ⟨h.guarded, nofun, ?_, h.authentic, fun _ => ⟨recv, admin, returned⟩, h.handling⟩
  intro stream' same
  cases same
  exact ⟨recv, admin, msgs, returned, receiving.writesOnly only, entitled⟩

theorem sound_drive {inbound : Poll (Option (Except String MuxStream))}
    (h : Sound noise yamux aead config peer c) (offered : c.offers yamux inbound = true) :
    Sound noise yamux aead config peer (c.drive inbound) := by
  have phase : (c.drive inbound).phase = c.phase ∨
      ∃ result, (c.drive inbound).phase = .finished result := by
    unfold drive
    dsimp only
    split
    · exact .inr ⟨_, rfl⟩
    · exact .inl rfl
  refine ⟨h.guarded, ?_, ?_, h.authentic, h.sending, ?_⟩
  · intro accepting
    rcases phase with same | ⟨result, finished⟩
    · exact h.accepting (same.symm.trans accepting)
    · cases finished.symm.trans accepting
  · intro stream serving
    rcases phase with same | ⟨result, finished⟩
    · exact h.serving stream (same.symm.trans serving)
    · cases finished.symm.trans serving
  · have handling := h.handling
    rcases c.mux.drive_inbox inbound true with same | ⟨stream, rfl, same⟩
    · simp only [drive, same]
      exact handling
    · simp only [offers, decide_eq_true_eq] at offered
      obtain ⟨opened, fresh⟩ := offered
      simp only [drive, same]
      constructor
      · apply List.append_subset.mpr
        exact ⟨handling.opened, List.cons_subset.mpr ⟨opened, List.nil_subset _⟩⟩
      · have once := List.Nodup.concat fresh handling.once
        rwa [List.concat_eq_append] at once
      · exact handling.spawned.trans (List.prefix_append _ _)
      · exact handling.sound

/-- The next of a list after a prefix extends the prefix. -/
theorem prefix_snoc {α : Type} {xs ys : List α} {y : α} (front : xs <+: ys)
    (next : ys[xs.length]? = some y) : xs ++ [y] <+: ys := by
  obtain ⟨rest, rfl⟩ := front
  rw [List.getElem?_append_right le_rfl, Nat.sub_self] at next
  obtain ⟨rest', rfl⟩ : ∃ rest', rest = y :: rest' := by
    cases rest with
    | nil => cases next
    | cons z rest' =>
      cases next
      exact ⟨rest', rfl⟩
  exact ⟨rest', by simp⟩

theorem sound_spawn (h : Sound noise yamux aead config peer c) :
    Sound noise yamux aead config peer c.spawn ∧ c.handlers <+: c.spawn.handlers := by
  unfold spawn
  split <;> rename_i next
  · refine ⟨⟨h.guarded, h.accepting, h.serving, h.authentic, h.sending, ?_⟩, List.prefix_append _ _⟩
    obtain ⟨opened, once, spawned, sound⟩ := h.handling
    refine ⟨opened, once, ?_, ?_⟩
    · rw [List.map_append]
      apply prefix_snoc spawned
      rwa [List.length_map]
    · intro handler member
      rcases List.mem_append.mp member with old | new
      · exact sound handler old
      · obtain rfl := List.mem_singleton.mp new
        exact Handler.sound_new _ _ _
  · exact ⟨h, List.prefix_rfl⟩

theorem sound_whileServing {stream : NoiseStream} (h : Sound noise yamux aead config peer c)
    (phase : c.phase = .serving stream) (secret : Secret aead config peer c e)
    (served : c.whileServing yamux aead stream e = some c') :
    Sound noise yamux aead config peer c' ∧ c.handlers <+: c'.handlers := by
  unfold whileServing at served
  split at served
  · simp only [Option.bind_eq_bind, Option.bind_eq_some_iff] at served
    obtain ⟨r, read, served⟩ := served
    cases served
    exact ⟨sound_read h phase secret read, List.prefix_rfl⟩
  · simp only [Option.bind_eq_bind, Option.bind_eq_some_iff] at served
    obtain ⟨w, wrote, served⟩ := served
    cases served
    exact ⟨sound_written h phase (pollWrite_writesOnly wrote), List.prefix_rfl⟩
  · simp only [Option.bind_eq_bind, Option.bind_eq_some_iff] at served
    obtain ⟨w, flushed, served⟩ := served
    cases served
    exact ⟨sound_written h phase (pollDrain_writesOnly flushed), List.prefix_rfl⟩
  · simp only [Option.bind_eq_bind, Option.bind_eq_some_iff] at served
    obtain ⟨w, flushed, served⟩ := served
    cases served
    exact ⟨sound_written h phase (pollDrain_writesOnly flushed), List.prefix_rfl⟩
  · cases served
    split <;> rename_i offered
    · exact ⟨sound_drive h offered, List.prefix_rfl⟩
    · exact ⟨h, List.prefix_rfl⟩
  · cases served
    exact sound_spawn h
  · cases served
    exact ⟨h, List.prefix_rfl⟩

theorem sound_serve (h : Sound noise yamux aead config peer c)
    (secret : Secret aead config peer c e) (served : c.serve noise yamux aead config e = some c') :
    Sound noise yamux aead config peer c' ∧ c.handlers <+: c'.handlers := by
  unfold serve at served
  split at served <;> rename_i phase
  · cases served
    refine ⟨sound_whileAccepting h phase e, ?_⟩
    unfold whileAccepting
    split <;> exact List.prefix_rfl
  · exact sound_whileServing h phase secret served
  · cases served
    exact ⟨h, List.prefix_rfl⟩

/-! The handlers' own steps. -/

theorem sound_setHandler {k : Nat} {handler handler' : Handler}
    (h : Sound noise yamux aead config peer c) (found : c.handlers[k]? = some handler)
    (stream : handler'.stream = handler.stream)
    (sound : handler'.Sound config.egress (yamux.data c.plaintext handler.stream)) :
    Sound noise yamux aead config peer (c.setHandler k handler') := by
  refine ⟨h.guarded, h.accepting, h.serving, h.authentic, h.sending, ?_⟩
  obtain ⟨opened, once, spawned, sounds⟩ := h.handling
  refine ⟨opened, once, ?_, ?_⟩
  · have same : (c.handlers.set k handler').map Handler.stream = c.handlers.map Handler.stream := by
      rw [List.map_set, stream]
      obtain ⟨bound, rfl⟩ := List.getElem?_eq_some_iff.mp found
      rw [← List.getElem_map Handler.stream (h := by simpa using bound), List.set_getElem_self]
    simp only [setHandler, same]
    exact spawned
  · intro other member
    rcases List.mem_or_eq_of_mem_set member with old | rfl
    · exact sounds other old
    · rw [stream]
      exact sound

/-- No handler goes, and none forgets what it has read. -/
def Extends (c c' : Connection) : Prop :=
  ∀ (k : Nat) (h : Handler), c.handlers[k]? = some h → ∃ h', c'.handlers[k]? = some h' ∧
    h.task.streamIn.received <+: h'.task.streamIn.received

theorem extends_prefix (grown : c.handlers <+: c'.handlers) : Extends c c' := by
  intro k h found
  obtain ⟨bound, -⟩ := List.getElem?_eq_some_iff.mp found
  obtain ⟨more, same⟩ := grown
  refine ⟨h, ?_, List.prefix_rfl⟩
  rw [← same, List.getElem?_append_left bound]
  exact found

theorem setHandler_self {k : Nat} {handler handler' : Handler}
    (found : c.handlers[k]? = some handler) :
    (c.setHandler k handler').handlers[k]? = some handler' := by
  obtain ⟨bound, -⟩ := List.getElem?_eq_some_iff.mp found
  exact List.getElem?_set_self bound

theorem extends_setHandler {k : Nat} {handler handler' : Handler}
    (found : c.handlers[k]? = some handler)
    (received : handler.task.streamIn.received <+: handler'.task.streamIn.received) :
    Extends c (c.setHandler k handler') := by
  intro j h there
  by_cases same : k = j
  · subst same
    cases found.symm.trans there
    exact ⟨handler', setHandler_self found, received⟩
  · refine ⟨h, ?_, List.prefix_rfl⟩
    simp only [setHandler, List.getElem?_set_ne same]
    exact there

/-- A dial is to a permitted port of the loopback address, for the request that
the handler has read. -/
def Grounded (config : ServerConfig) (c : Connection) (d : Dial) : Prop :=
  ∃ (request : ConnectRequest) (h : Handler), c.handlers[d.handler]? = some h ∧
    d.address = loopback request.port ∧ config.egress.permits request.port = true ∧
    request.bytes <+: h.task.streamIn.received

theorem Grounded.extends {d : Dial} (grounded : Grounded config c d) (extends_ : Extends c c') :
    Grounded config c' d := by
  obtain ⟨request, h, found, address, permitted, bytes⟩ := grounded
  obtain ⟨h', found', received⟩ := extends_ _ h found
  exact ⟨request, h', found', address, permitted, bytes.trans received⟩

/-- What a step keeps, and what it takes for a dial. -/
structure Keeps (noise : NoiseLibrary) (yamux : Yamux) (aead : Aead) (config : ServerConfig)
    (peer : Peer) (c : Connection) (o : Option Dial) (c' : Connection) : Prop where
  sound : Sound noise yamux aead config peer c'
  grown : Extends c c'
  grounded : ∀ d, o = some d → Grounded config c' d

theorem keeps_arrival {k : Nat} {handler handler' : Handler}
    (h : Sound noise yamux aead config peer c) (found : c.handlers[k]? = some handler)
    (stream : handler'.stream = handler.stream)
    (received : handler'.task.streamIn.received = handler.task.streamIn.received)
    (sound : handler'.Sound config.egress (yamux.data c.plaintext handler.stream)) :
    Keeps noise yamux aead config peer c none (c.setHandler k handler') where
  sound := sound_setHandler h found stream sound
  grown := extends_setHandler found (received ▸ List.prefix_rfl)
  grounded := nofun

theorem keeps_onHandler {k : Nat} {handler : Handler} {o : Option Dial}
    (h : Sound noise yamux aead config peer c) (found : c.handlers[k]? = some handler)
    (stepped : c.onHandler yamux config k handler e = some (o, c')) :
    Keeps noise yamux aead config peer c o c' := by
  have sound := h.handling.sound handler (List.mem_of_getElem? found)
  unfold onHandler at stepped
  split at stepped
  · rename_i e
    simp only [Option.bind_eq_bind, Option.bind_eq_some_iff] at stepped
    obtain ⟨⟨dialed, handler'⟩, ran, stepped⟩ := stepped
    cases stepped
    have steps := Handler.step_spec sound.handles.short ran
    refine ⟨?_, ?_, ?_⟩
    · apply sound_setHandler h found (Handler.steps_stream steps)
      exact Handler.sound_steps sound steps
    · exact extends_setHandler found (Handler.steps_received steps)
    · intro d dial
      obtain ⟨port, rfl, rfl⟩ := Option.map_eq_some_iff.mp dial
      obtain ⟨permitted, bytes⟩ := Handler.steps_dial sound steps
      exact ⟨⟨port⟩, handler', setHandler_self found, rfl, permitted, bytes⟩
  · cases stepped
    exact keeps_arrival h found rfl rfl (Handler.sound_deliver sound _)
  · cases stepped
    exact keeps_arrival h found rfl rfl (sound.arrives sound.fed rfl rfl)
  · cases stepped
    exact keeps_arrival h found rfl rfl (sound.arrives sound.fed rfl rfl)
  · cases stepped
    exact keeps_arrival h found rfl rfl (sound.arrives sound.fed rfl rfl)
  · cases stepped
    exact ⟨h, extends_prefix List.prefix_rfl, by simp⟩

theorem keeps_step {o : Option Dial} (h : Sound noise yamux aead config peer c)
    (secret : Secret aead config peer c e)
    (stepped : step noise yamux aead config c e = some (o, c')) :
    Keeps noise yamux aead config peer c o c' := by
  unfold step at stepped
  split at stepped
  · simp only [Option.map_eq_some_iff, Prod.mk.injEq] at stepped
    obtain ⟨c'', served, rfl, rfl⟩ := stepped
    obtain ⟨sound, grown⟩ := sound_serve h secret served
    exact ⟨sound, extends_prefix grown, by simp⟩
  · split at stepped <;> rename_i found
    · cases stepped
      exact ⟨h, extends_prefix List.prefix_rfl, by simp⟩
    · exact keeps_onHandler h found stepped

end Connection
end HyperionVpn
