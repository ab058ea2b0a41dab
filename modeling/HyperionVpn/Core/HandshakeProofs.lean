import HyperionVpn.Core.Handshake

/-! Every schedule of the handshake comes to the results of the plain exchange. -/
namespace HyperionVpn
open Bytes Framing Machine

namespace HandshakeReading

theorem after_cases {msg received : List UInt8} (small : msg.length ≤ maxHandshakeMsg)
    (inside : received <+: frame msg) :
    (received.length < (frame msg).length ∧ ∀ result, after msg received ≠ .done result) ∨
      (received = frame msg ∧
        after msg received = .done (if Fits msg then .ok msg else .error invalidLength)) := by
  have size := inside.length_le
  have length : (frame msg).length = lenPrefix + msg.length := frame_length msg
  by_cases whole : received.length = (frame msg).length
  · right
    refine ⟨inside.eq_of_length whole, ?_⟩
    by_cases fits : Fits msg
    · rw [after_whole fits (by omega), if_pos fits]
    · rw [after_refused (by omega) fits, if_neg fits]
  · left
    refine ⟨by omega, fun result => ?_⟩
    by_cases short : received.length < lenPrefix
    · simp [after_length short]
    · have fits : Fits msg := ⟨by omega, small⟩
      simp [after_body short fits (by omega)]

/-- Before the end of the frame the call asks for more. -/
theorem want_after_pos {msg received : List UInt8} (small : msg.length ≤ maxHandshakeMsg)
    (some : received.length < (frame msg).length) :
    0 < (after msg received).want := by
  have length : (frame msg).length = lenPrefix + msg.length := frame_length msg
  by_cases short : received.length < lenPrefix
  · rw [after_length short, want]
    omega
  · have fits : Fits msg := ⟨by omega, small⟩
    rw [after_body short fits (by omega), want, List.length_drop]
    omega

theorem short_of_small {msg : List UInt8} (small : msg.length ≤ maxHandshakeMsg) :
    msg.length < 2 ^ 16 := small.trans_lt (by decide)

end HandshakeReading

namespace Accept

variable {noise : NoiseLibrary} {hs : ServerHandshake}

/-- Where `accept` stands once it has an answer. -/
def answered : Except Error Answer → Phase
  | .error e => .done (.error e)
  | .ok a => .writing a (frame a.msg2)

/-- `accept` reads the first message as `read_handshake_msg` does. -/
theorem step_read {a : Accept} {r : HandshakeReading} (reading : a.phase.reading? = some r)
    (bytes : List UInt8) (ephemeral : Vector UInt8 32) :
    (∀ e, r.read bytes = .done (.error e) →
      (a.step noise hs (.read bytes ephemeral)).phase = .done (.error e)) ∧
    (∀ msg, r.read bytes = .done (.ok msg) →
      (a.step noise hs (.read bytes ephemeral)).phase = answered (respond noise hs ephemeral msg)) ∧
    ((∀ result, r.read bytes ≠ .done result) →
      (a.step noise hs (.read bytes ephemeral)).phase.reading? = some (r.read bytes)) := by
  cases phase : a.phase with
  | readingLength got =>
    rw [phase] at reading
    cases reading
    simp only [step, phase, readLength, HandshakeReading.read]
    by_cases none : bytes = []
    · simp [none, finish]
    simp only [none, if_false]
    generalize got ++ bytes.take (lenPrefix - got.length) = held
    rcases held with _ | ⟨hi, _ | ⟨lo, _ | ⟨third, more⟩⟩⟩
    · simp [Phase.reading?]
    · simp [Phase.reading?]
    · by_cases refused : (u16FromBE hi lo).toNat = 0 ∨ maxHandshakeMsg < (u16FromBE hi lo).toNat
      · simp [refused, finish, HandshakeReading.invalidLength]
      · simp [refused, Phase.reading?]
    · simp [Phase.reading?]
  | readingMessage len got =>
    rw [phase] at reading
    cases reading
    simp only [step, phase, readMessage, HandshakeReading.read]
    by_cases none : bytes = []
    · simp [none, finish]
    simp only [none, if_false]
    by_cases more : (got ++ bytes.take (len - got.length)).length < len
    · simp only [more, if_true]
      simp [Phase.reading?]
    · simp only [more, if_false]
      refine ⟨by simp, ?_, by simp⟩
      intro msg same
      cases same
      cases respond noise hs ephemeral (got ++ bytes.take (len - got.length)) <;> rfl
  | writing answer rest =>
    rw [phase] at reading
    cases reading
  | done result =>
    rw [phase] at reading
    cases reading

end Accept

/-- `connect` reads the second message as `read_handshake_msg` does. -/
theorem Connect.step_read {noise : HandshakeLibrary} {c : Connect noise} {r : HandshakeReading}
    {state : noise.HandshakeState} (phase : c.phase = .reading state r) (bytes : List UInt8) :
    (∀ e, r.read bytes = .done (.error e) →
      (c.step (.read bytes)).phase = .done (.error e)) ∧
    (∀ msg, r.read bytes = .done (.ok msg) →
      (c.step (.read bytes)).phase = .done (lastMessage state msg)) ∧
    ((∀ result, r.read bytes ≠ .done result) →
      (c.step (.read bytes)).phase = .reading state (r.read bytes)) := by
  simp only [step, phase, whileReading]
  cases stands : r.read bytes with
  | length got => simp
  | body len got => simp
  | done result => cases result <;> simp [finish]

namespace Handshake

variable {noise : HandshakeLibrary} {s : HandshakeSetup}

theorem firstMessage_small {ephemeral : Vector UInt8 32} {hs : ClientHandshake}
    {msg1 : List UInt8} {state : noise.HandshakeState}
    (made : Connect.firstMessage noise hs ephemeral = .ok (msg1, state)) :
    msg1.length ≤ maxHandshakeMsg := by
  unfold Connect.firstMessage at made
  split at made
  · cases made
  split at made
  · cases made
  · rename_i small
    cases made
    exact Nat.not_lt.mp small

theorem answer_ok {msg1 : List UInt8} {a : Accept.Answer} (ok : answer noise s msg1 = .ok a) :
    HandshakeReading.Fits msg1 ∧ a.msg2.length ≤ maxHandshakeMsg := by
  unfold answer at ok
  split at ok
  · rename_i fits
    refine ⟨fits, ?_⟩
    unfold Accept.respond at ok
    split at ok
    · cases ok
    split at ok
    · cases ok
    split at ok
    · cases ok
    split at ok
    · cases ok
    split at ok
    · cases ok
    · rename_i small
      cases ok
      exact Nat.not_lt.mp small
  · cases ok

/-- The second message, if there is one. -/
def reply : Except Error Accept.Answer → List UInt8
  | .error _ => []
  | .ok a => a.msg2

section

variable (msg1 : List UInt8) (state : noise.HandshakeState) (made : Except Error Accept.Answer)

/-- Where the client stands, and which bytes have gone through it. -/
inductive ClientAt (h : Handshake noise) : Prop where
  | writing {rest : List UInt8} (phase : h.client.phase = .writing state rest)
      (sent : h.up.sent ++ rest = frame msg1) (unread : h.down.received = [])
      (unsent : h.clientData = [])
  | reading (phase : h.client.phase = .reading state (.after (reply made) h.down.received))
      (sent : h.up.sent = frame msg1) (unsent : h.clientData = [])
      (inside : h.down.received <+: frame (reply made))
      (some : h.down.received.length < (frame (reply made)).length)
  | done (phase : h.client.phase = .done (clientResult state made))
      (sent : h.up.sent = frame msg1 ++ h.clientData) (heard : h.up.received = frame msg1)
      (taken : ∀ a, made = .ok a → h.down.received = frame a.msg2)

inductive ServerAt (h : Handshake noise) : Prop where
  | reading (phase : h.server.phase.reading? = some (.after msg1 h.up.received))
      (inside : h.up.received <+: frame msg1) (some : h.up.received.length < (frame msg1).length)
      (silent : h.down.sent = []) (unsent : h.serverData = [])
  | writing {a : Accept.Answer} {rest : List UInt8} (ok : made = .ok a)
      (phase : h.server.phase = .writing a rest) (heard : h.up.received = frame msg1)
      (sent : h.down.sent ++ rest = frame a.msg2) (unsent : h.serverData = [])
  | refused {e : Error} (error : made = .error e) (phase : h.server.phase = .done (.error e))
      (heard : h.up.received = frame msg1) (silent : h.down.sent = [])
  | done {a : Accept.Answer} (ok : made = .ok a) (phase : h.server.phase = .done (serverResult made))
      (heard : h.up.received = frame msg1) (sent : h.down.sent = frame a.msg2 ++ h.serverData)

structure Exchanging (h : Handshake noise) : Prop where
  client : ClientAt msg1 state made h
  server : ServerAt msg1 made h

end

/-- How much is left to do of the handshake, at most. -/
def clientWork (h : Handshake noise) : Nat :=
  match h.client.phase with
  | .writing _ rest => rest.length + 2 + (lenPrefix + maxHandshakeMsg)
  | .reading _ _ => lenPrefix + maxHandshakeMsg + 1 - h.down.received.length
  | .done _ => 0

def serverWork (h : Handshake noise) : Nat :=
  match h.server.phase with
  | .readingLength _ | .readingMessage _ _ =>
    2 * (lenPrefix + maxHandshakeMsg) + 2 - h.up.received.length
  | .writing _ rest => rest.length + 1
  | .done _ => 0

def work (h : Handshake noise) : Nat := h.clientWork + h.serverWork

/-- What is read of a pipe stays inside what is to come over it. -/
theorem read_inside {p : Pipe UInt8} {n : Nat} {xs : List UInt8}
    (related : p.sent <+: xs ∨ xs <+: p.sent) (enough : (p.received ++ p.next n).length ≤ xs.length) :
    p.received ++ p.next n <+: xs := by
  have inside : p.received ++ p.next n <+: p.sent := by
    rw [← Pipe.received_read, ← Pipe.sent_read p n]
    exact Pipe.received_prefix _
  rcases related with before | behind
  · exact inside.trans before
  · exact List.prefix_of_prefix_length_le inside behind enough

theorem next_length_le (p : Pipe UInt8) (n : Nat) : (p.next n).length ≤ n := List.length_take_le ..

theorem read_nil {r : HandshakeReading} (open_ : ∀ result, r ≠ .done result) :
    r.read [] = .done (.error HandleStream.earlyEof) := by
  cases r with
  | length got => rfl
  | body len got => rfl
  | done result => exact absurd rfl (open_ result)

section

variable {msg1 : List UInt8} {state : noise.HandshakeState} {made : Except Error Accept.Answer}
variable {h h' : Handshake noise}

theorem ServerAt.congr (server : ServerAt msg1 made h) (phase : h'.server.phase = h.server.phase)
    (heard : h'.up.received = h.up.received) (sent : h'.down.sent = h.down.sent)
    (data : h'.serverData = h.serverData) : ServerAt msg1 made h' := by
  cases server with
  | reading at_ inside some silent unsent =>
    rw [← heard] at at_ inside some
    exact .reading (phase ▸ at_) inside some (sent ▸ silent) (data ▸ unsent)
  | writing ok at_ heard' sent' unsent =>
    exact .writing ok (phase ▸ at_) (heard ▸ heard') (sent ▸ sent') (data ▸ unsent)
  | refused error at_ heard' silent =>
    exact .refused error (phase ▸ at_) (heard ▸ heard') (sent ▸ silent)
  | done ok at_ heard' sent' =>
    exact .done ok (phase ▸ at_) (heard ▸ heard') (by rw [sent, data, sent'])

/-- The server is past the first message exactly once it has all of it. -/
theorem ServerAt.heard_or (server : ServerAt msg1 made h) :
    (h.up.received = frame msg1 ∧ h.server.phase.reading? = none) ∨
      (h.up.received.length < (frame msg1).length ∧ h.down.sent = [] ∧ h.server.failed = false) := by
  cases server with
  | reading at_ inside some silent unsent =>
    right
    refine ⟨some, silent, ?_⟩
    unfold Accept.failed
    split
    · rename_i phase
      rw [phase] at at_
      cases at_
    · rfl
  | writing ok at_ heard sent unsent => exact .inl ⟨heard, by rw [at_]; rfl⟩
  | refused error at_ heard silent => exact .inl ⟨heard, by rw [at_]; rfl⟩
  | done ok at_ heard sent => exact .inl ⟨heard, by rw [at_]; rfl⟩

/-- What is sent back is the second message, and what follows it. -/
theorem ServerAt.down_related (server : ServerAt msg1 made h) :
    h.down.sent <+: frame (reply made) ∨ frame (reply made) <+: h.down.sent := by
  cases server with
  | reading at_ inside some silent unsent => exact .inl (by rw [silent]; exact List.nil_prefix)
  | writing ok at_ heard sent unsent =>
    subst ok
    exact .inl (sent ▸ List.prefix_append _ _)
  | refused error at_ heard silent => exact .inl (by rw [silent]; exact List.nil_prefix)
  | done ok at_ heard sent =>
    subst ok
    exact .inr (sent ▸ List.prefix_append _ _)

/-- Only a server that answers sends anything. -/
theorem ServerAt.answered (server : ServerAt msg1 made h) (spoken : h.down.sent ≠ []) :
    h.up.received = frame msg1 ∧ ∃ a, made = .ok a := by
  cases server with
  | reading at_ inside some silent unsent => exact absurd silent spoken
  | writing ok at_ heard sent unsent => exact ⟨heard, _, ok⟩
  | refused error at_ heard silent => exact absurd silent spoken
  | done ok at_ heard sent => exact ⟨heard, _, ok⟩

/-- At the end of what a server that has dropped the connection has sent, it was
sent nothing or all. -/
theorem ServerAt.dropped (server : ServerAt msg1 made h) (failed : h.server.failed = true) :
    h.up.received = frame msg1 ∧ ((∃ e, made = .error e) ∨
      frame (reply made) <+: h.down.sent) := by
  rcases server.heard_or with ⟨heard, -⟩ | ⟨-, -, running⟩
  · refine ⟨heard, ?_⟩
    cases server with
    | reading at_ inside some silent unsent =>
      rw [heard] at some
      exact absurd some (lt_irrefl _)
    | writing ok at_ heard sent unsent =>
      rw [Accept.failed, at_] at failed
      cases failed
    | refused error at_ heard silent => exact .inl ⟨_, error⟩
    | done ok at_ heard sent =>
      subst ok
      exact .inr (sent ▸ List.prefix_append _ _)
  · rw [running] at failed
    cases failed

theorem reply_small (answered : ∀ a, made = .ok a → a.msg2.length ≤ maxHandshakeMsg) :
    (reply made).length ≤ maxHandshakeMsg := by
  cases made with
  | error e => exact Nat.zero_le _
  | ok a => exact answered a rfl

theorem serverWork_congr (phase : h'.server.phase = h.server.phase)
    (heard : h'.up.received = h.up.received) : h'.serverWork = h.serverWork := by
  unfold serverWork
  rw [phase, heard]

theorem clientWork_congr (phase : h'.client.phase = h.client.phase)
    (heard : h'.down.received = h.down.received) : h'.clientWork = h.clientWork := by
  unfold clientWork
  rw [phase, heard]

/-- Whatever ends the call of the client, it ends with the result of the exchange. -/
theorem clientRead_ends {r : HandshakeReading} {k : Nat} (server : ServerAt msg1 made h)
    (phase : h.client.phase = .reading state r) (sent : h.up.sent = frame msg1)
    (unsent : h.clientData = []) (heard : h.up.received = frame msg1)
    (bound : h.down.received.length ≤ lenPrefix + maxHandshakeMsg)
    (taken : ∀ a, made = .ok a → h.down.received ++ h.down.next k = frame a.msg2)
    (ended : (h.client.step (.read (h.down.next k))).phase = .done (clientResult state made)) :
    Exchanging msg1 state made (h.clientRead k) ∧ (h.clientRead k).work + 1 ≤ h.work := by
  have before : h.clientWork = lenPrefix + maxHandshakeMsg + 1 - h.down.received.length := by
    unfold clientWork
    rw [phase]
  have after : (h.clientRead k).clientWork = 0 := by
    unfold clientWork clientRead
    rw [ended]
  refine ⟨⟨.done ended ?_ heard taken, server.congr rfl rfl (Pipe.sent_read _ _) rfl⟩, ?_⟩
  · rw [clientRead, sent, unsent, List.append_nil]
  · have same : (h.clientRead k).serverWork = h.serverWork := serverWork_congr rfl rfl
    rw [work, work, after, before, same]
    omega

/-- A read of the client's brings some more of the second message, its end, or the
end of a connection over which none comes. -/
theorem clientReads_spec {n : Nat} {o : Unit} (inv : Exchanging msg1 state made h)
    (answered : ∀ a, made = .ok a → a.msg2.length ≤ maxHandshakeMsg)
    (stepped : step s h (.clientReads n) = some (o, h')) :
    Exchanging msg1 state made h' ∧ h'.work + 1 ≤ h.work := by
  obtain ⟨client, server⟩ := inv
  have small := reply_small answered
  cases client with
  | writing phase sent unread unsent =>
    simp only [step, phase] at stepped
    cases stepped
  | done phase sent heard taken =>
    simp only [step, phase] at stepped
    cases stepped
  | reading phase sent unsent inside some =>
    simp only [step, phase] at stepped
    split at stepped
    · rename_i ready
      cases stepped
      generalize want : min n (HandshakeReading.after (reply made) h.down.received).want = k at ready ⊢
      have room := HandshakeReading.want_after inside.length_le
      have size := next_length_le h.down k
      have length := frame_length (reply made)
      have bound : h.down.received.length ≤ lenPrefix + maxHandshakeMsg := by
        simp only [lenPrefix]
        omega
      have grown : h.down.received ++ h.down.next k <+: frame (reply made) := by
        apply read_inside server.down_related
        rw [List.length_append]
        omega
      have standing := (HandshakeReading.after_cases small inside).resolve_right fun whole => by
        rw [whole.1] at some
        exact lt_irrefl _ some
      obtain ⟨refuses, finishes, awaits⟩ := Connect.step_read phase (h.down.next k)
      rcases ready with more | ⟨empty, dropped⟩
      · have short := HandshakeReading.short_of_small small
        have read := HandshakeReading.read_after short grown more (by omega)
        rcases HandshakeReading.after_cases small grown with ⟨some', waits⟩ | ⟨whole, result⟩
        · have at_ := awaits (read ▸ waits)
          rw [read] at at_
          refine ⟨⟨.reading at_ sent unsent grown some', ?_⟩, ?_⟩
          · exact server.congr rfl rfl (Pipe.sent_read _ _) rfl
          · have before : h.clientWork = lenPrefix + maxHandshakeMsg + 1 - h.down.received.length := by
              unfold clientWork
              rw [phase]
            have after : (h.clientRead k).clientWork = lenPrefix + maxHandshakeMsg + 1 -
                (h.down.received ++ h.down.next k).length := by
              unfold clientWork clientRead
              rw [at_]
              rfl
            have same : (h.clientRead k).serverWork = h.serverWork := serverWork_congr rfl rfl
            have pos := List.length_pos_iff.mpr more
            rw [work, work, after, before, same, List.length_append]
            omega
        · have spoken : h.down.sent ≠ [] := by
            intro silent
            have none := (List.append_eq_nil_iff.mp silent).2
            exact more (by simp [Pipe.next, none])
          obtain ⟨heard, a, rfl⟩ := server.answered spoken
          apply clientRead_ends server phase sent unsent heard bound
          · intro a' same
            cases same
            exact whole
          · rw [result] at read
            by_cases fits : HandshakeReading.Fits (reply (.ok a))
            · rw [if_pos fits] at read
              have fits' : HandshakeReading.Fits a.msg2 := fits
              rw [finishes _ read, clientResult, if_pos fits']
              rfl
            · rw [if_neg fits] at read
              have fits' : ¬ HandshakeReading.Fits a.msg2 := fits
              rw [refuses _ read, clientResult, if_neg fits']
      · have none : h.down.next k = [] := by simp [Pipe.next, empty]
        obtain ⟨heard, refused | sent'⟩ := server.dropped dropped
        · obtain ⟨e, rfl⟩ := refused
          apply clientRead_ends server phase sent unsent heard bound (fun a ok => by cases ok)
          exact refuses _ (none ▸ read_nil standing.2)
        · -- The whole of the second message would have been read.
          have all : h.down.received = h.down.sent := by simp [Pipe.sent, empty]
          rw [← all] at sent'
          exact absurd sent'.length_le (Nat.not_le.mpr some)
    · cases stepped

/-- The client gets rid of the first message before the server can have failed. -/
theorem clientWrites_spec {n : Nat} {o : Unit} (inv : Exchanging msg1 state made h)
    (stepped : step s h (.clientWrites n) = some (o, h')) :
    Exchanging msg1 state made h' ∧ h'.work + 1 ≤ h.work := by
  obtain ⟨client, server⟩ := inv
  cases client with
  | reading phase sent unsent inside some =>
    simp only [step, phase] at stepped
    cases stepped
  | done phase sent heard taken =>
    simp only [step, phase] at stepped
    cases stepped
  | @writing rest phase sent unread unsent =>
    simp only [step, phase] at stepped
    split at stepped
    · cases stepped
    rename_i writes
    rw [not_or] at writes
    split at stepped <;> cases stepped
    · rename_i dropped
      -- A server that has failed has heard the whole message.
      have heard := (server.dropped dropped).1
      have all := congrArg List.length sent
      rw [Pipe.sent, heard] at all
      simp only [List.length_append] at all
      exact absurd (List.length_eq_zero_iff.mp (by omega)) writes.1
    · have stands : (h.client.step (.wrote n)).phase = .writing state (rest.drop n) := by
        simp [Connect.step, phase, Connect.whileWriting, writes.1, writes.2]
      refine ⟨⟨.writing stands ?_ unread unsent, ?_⟩, ?_⟩
      · rw [Pipe.sent_write, List.append_assoc, List.take_append_drop, sent]
      · exact server.congr rfl (Pipe.received_write _ _) rfl rfl
      · have shorter : (rest.drop n).length + 1 ≤ rest.length := by
          have pos := List.length_pos_iff.mpr writes.1
          rw [List.length_drop]
          omega
        have same : serverWork ({ h with
            client := h.client.step (.wrote n), up := h.up.write (rest.take n) } : Handshake noise) =
            h.serverWork := serverWork_congr rfl (Pipe.received_write _ _)
        rw [work, work, same]
        simp only [clientWork, stands, phase]
        omega

theorem clientFlushes_spec {o : Unit} (inv : Exchanging msg1 state made h)
    (stepped : step s h .clientFlushes = some (o, h')) :
    Exchanging msg1 state made h' ∧ h'.work + 1 ≤ h.work := by
  obtain ⟨client, server⟩ := inv
  cases client with
  | reading phase sent unsent inside some =>
    simp only [step, phase] at stepped
    cases stepped
  | done phase sent heard taken =>
    simp only [step, phase] at stepped
    cases stepped
  | @writing rest phase sent unread unsent =>
    simp only [step, phase] at stepped
    split at stepped
    · rename_i stands
      cases stands
      cases stepped
      have stands : (h.client.step .flushed).phase = .reading state (.after (reply made) h.down.received) := by
        rw [unread, HandshakeReading.after_nil]
        simp [Connect.step, phase, Connect.whileWriting]
      refine ⟨⟨.reading stands ?_ unsent ?_ ?_, server.congr rfl rfl rfl rfl⟩, ?_⟩
      · rw [← sent, List.append_nil]
      · rw [unread]
        exact List.nil_prefix
      · rw [unread, frame_length]
        exact Nat.lt_add_right _ (by decide)
      · have same : serverWork ({ h with client := h.client.step .flushed } : Handshake noise) =
            h.serverWork := serverWork_congr rfl rfl
        rw [work, work, same]
        simp only [clientWork, stands, phase, List.length_nil]
        omega
    · cases stepped

theorem clientSends_spec {bytes : List UInt8} {o : Unit} (inv : Exchanging msg1 state made h)
    (stepped : step s h (.clientSends bytes) = some (o, h')) :
    Exchanging msg1 state made h' ∧ h'.work ≤ h.work := by
  obtain ⟨client, server⟩ := inv
  cases client with
  | writing phase sent unread unsent =>
    simp only [step, phase] at stepped
    cases stepped
  | reading phase sent unsent inside some =>
    simp only [step, phase] at stepped
    cases stepped
  | done phase sent heard taken =>
    simp only [step, phase] at stepped
    split at stepped
    · cases stepped
      refine ⟨⟨.done phase ?_ heard taken, server.congr rfl (Pipe.received_write _ _) rfl rfl⟩, ?_⟩
      · rw [Pipe.sent_write, sent, List.append_assoc]
      · exact Nat.le_of_eq rfl
    · cases stepped

/-! The server. Its steps leave alone what the client has to go by. -/

theorem ClientAt.congr (client : ClientAt msg1 state made h) (phase : h'.client.phase = h.client.phase)
    (sent : h'.up.sent = h.up.sent) (heard : h.up.received = frame msg1 → h'.up.received = frame msg1)
    (received : h'.down.received = h.down.received) (data : h'.clientData = h.clientData) :
    ClientAt msg1 state made h' := by
  cases client with
  | writing at_ sent' unread unsent =>
    exact .writing (phase ▸ at_) (sent ▸ sent') (received ▸ unread) (data ▸ unsent)
  | reading at_ sent' unsent inside some =>
    rw [← received] at at_ inside some
    exact .reading (phase ▸ at_) (sent ▸ sent') (data ▸ unsent) inside some
  | done at_ sent' heard' taken =>
    exact .done (phase ▸ at_) (by rw [sent, data, sent']) (heard heard') (received ▸ taken)

/-- What is sent up is the first message, and what follows it. -/
theorem ClientAt.up_related (client : ClientAt msg1 state made h) :
    h.up.sent <+: frame msg1 ∨ frame msg1 <+: h.up.sent := by
  cases client with
  | writing at_ sent unread unsent => exact .inl (sent ▸ List.prefix_append _ _)
  | reading at_ sent unsent inside some => exact .inl (by rw [sent])
  | done at_ sent heard taken => exact .inr (sent ▸ List.prefix_append _ _)

/-- A client that has dropped the connection has been heard, and has read what it
was answered. -/
theorem ClientAt.dropped (client : ClientAt msg1 state made h) (failed : h.client.failed = true) :
    h.up.received = frame msg1 ∧ ∀ a, made = .ok a → h.down.received = frame a.msg2 := by
  cases client with
  | writing at_ sent unread unsent =>
    rw [Connect.failed, at_] at failed
    cases failed
  | reading at_ sent unsent inside some =>
    rw [Connect.failed, at_] at failed
    cases failed
  | done at_ sent heard taken => exact ⟨heard, taken⟩

theorem serverWork_reading {r : HandshakeReading} (reading : h.server.phase.reading? = some r) :
    h.serverWork = 2 * (lenPrefix + maxHandshakeMsg) + 2 - h.up.received.length := by
  unfold serverWork
  cases phase : h.server.phase with
  | readingLength got => rfl
  | readingMessage len got => rfl
  | writing a rest =>
    rw [phase] at reading
    cases reading
  | done result =>
    rw [phase] at reading
    cases reading

theorem serverReads_spec {n : Nat} {o : Unit} (inv : Exchanging msg1 state (answer noise s msg1) h)
    (small : msg1.length ≤ maxHandshakeMsg)
    (stepped : step s h (.serverReads n) = some (o, h')) :
    Exchanging msg1 state (answer noise s msg1) h' ∧ h'.work + 1 ≤ h.work := by
  obtain ⟨client, server⟩ := inv
  cases server with
  | writing ok phase heard sent unsent =>
    simp only [step, phase, Accept.Phase.reading?] at stepped
    cases stepped
  | refused error phase heard silent =>
    simp only [step, phase, Accept.Phase.reading?] at stepped
    cases stepped
  | done ok phase heard sent =>
    simp only [step, phase, Accept.Phase.reading?] at stepped
    cases stepped
  | reading phase inside some silent unsent =>
    simp only [step, phase] at stepped
    split at stepped
    · rename_i ready
      cases stepped
      generalize want : min n (HandshakeReading.after msg1 h.up.received).want = k at ready ⊢
      have room := HandshakeReading.want_after inside.length_le
      have size := next_length_le h.up k
      have length := frame_length msg1
      have unheard : h.up.received ≠ frame msg1 := by
        rintro whole
        rw [whole] at some
        exact lt_irrefl _ some
      have grown : h.up.received ++ h.up.next k <+: frame msg1 := by
        apply read_inside client.up_related
        rw [List.length_append]
        omega
      have before := serverWork_reading phase
      have same : (h.serverRead s k).clientWork = h.clientWork := clientWork_congr rfl rfl
      obtain ⟨refuses, finishes, awaits⟩ :=
        @Accept.step_read noise.toNoiseLibrary s.server _ _ phase (h.up.next k) s.serverEphemeral
      rcases ready with more | ⟨empty, dropped⟩
      · have pos := List.length_pos_iff.mpr more
        have read := HandshakeReading.read_after (HandshakeReading.short_of_small small) grown more (by omega)
        have still : ClientAt msg1 state (answer noise s msg1) (h.serverRead s k) :=
          client.congr rfl (Pipe.sent_read _ _) (fun whole => absurd whole unheard) rfl rfl
        rcases HandshakeReading.after_cases small grown with ⟨some', waits⟩ | ⟨whole, result⟩
        · have at_ := awaits (read ▸ waits)
          rw [read] at at_
          refine ⟨⟨still, .reading at_ grown some' silent unsent⟩, ?_⟩
          have after : (h.serverRead s k).serverWork = 2 * (lenPrefix + maxHandshakeMsg) + 2 -
              (h.up.received ++ h.up.next k).length := serverWork_reading at_
          rw [work, work, after, before, same, List.length_append]
          simp only [lenPrefix]
          omega
        · have at_ : (h.serverRead s k).server.phase = Accept.answered (answer noise s msg1) := by
            rw [result] at read
            by_cases fits : HandshakeReading.Fits msg1
            · rw [if_pos fits] at read
              rw [answer, if_pos fits]
              exact finishes _ read
            · rw [if_neg fits] at read
              rw [answer, if_neg fits]
              exact refuses _ read
          cases made : answer noise s msg1 with
          | error e =>
            rw [made] at at_ still
            refine ⟨⟨still, .refused rfl at_ whole silent⟩, ?_⟩
            have after : (h.serverRead s k).serverWork = 0 := by
              unfold serverWork
              rw [at_]
              rfl
            rw [work, work, after, before, same]
            simp only [lenPrefix]
            omega
          | ok a =>
            rw [made] at at_ still
            have sent : h.down.sent ++ frame a.msg2 = frame a.msg2 := by rw [silent, List.nil_append]
            refine ⟨⟨still, .writing rfl at_ whole sent unsent⟩, ?_⟩
            have after : (h.serverRead s k).serverWork = (frame a.msg2).length + 1 := by
              unfold serverWork
              rw [at_]
              rfl
            have small' := (answer_ok made).2
            rw [work, work, after, before, same, frame_length]
            simp only [lenPrefix]
            omega
      · exact absurd (client.dropped dropped).1 unheard
    · cases stepped

theorem serverWrites_spec {n : Nat} {o : Unit} (inv : Exchanging msg1 state made h)
    (stepped : step s h (.serverWrites n) = some (o, h')) :
    Exchanging msg1 state made h' ∧ h'.work + 1 ≤ h.work := by
  obtain ⟨client, server⟩ := inv
  cases server with
  | reading phase inside some silent unsent =>
    simp only [step] at stepped
    split at stepped
    · rename_i writes
      rw [writes] at phase
      cases phase
    · cases stepped
  | refused error phase heard silent =>
    simp only [step, phase] at stepped
    cases stepped
  | done ok phase heard sent =>
    simp only [step, phase] at stepped
    cases stepped
  | @writing a rest ok phase heard sent unsent =>
    simp only [step, phase] at stepped
    split at stepped
    · cases stepped
    rename_i writes
    rw [not_or] at writes
    split at stepped <;> cases stepped
    · rename_i dropped
      -- A client that has failed has read the whole answer.
      have taken := (client.dropped dropped).2 a ok
      have all := congrArg List.length sent
      rw [Pipe.sent, taken] at all
      simp only [List.length_append] at all
      exact absurd (List.length_eq_zero_iff.mp (by omega)) writes.1
    · have stands : (h.server.step noise.toNoiseLibrary s.server (.wrote n)).phase =
          .writing a (rest.drop n) := by
        simp [Accept.step, phase, Accept.whileWriting, writes.1, writes.2]
      refine ⟨⟨?_, .writing ok stands heard ?_ unsent⟩, ?_⟩
      · exact client.congr rfl rfl (fun whole => whole) (Pipe.received_write _ _) rfl
      · rw [Pipe.sent_write, List.append_assoc, List.take_append_drop, sent]
      · have shorter : (rest.drop n).length + 1 ≤ rest.length := by
          have pos := List.length_pos_iff.mpr writes.1
          rw [List.length_drop]
          omega
        have same : clientWork ({ h with
            server := h.server.step noise.toNoiseLibrary s.server (.wrote n)
            down := h.down.write (rest.take n) } : Handshake noise) = h.clientWork :=
          clientWork_congr rfl (Pipe.received_write _ _)
        rw [work, work, same]
        simp only [serverWork, stands, phase]
        omega

theorem serverFlushes_spec {o : Unit} (inv : Exchanging msg1 state made h)
    (stepped : step s h .serverFlushes = some (o, h')) :
    Exchanging msg1 state made h' ∧ h'.work + 1 ≤ h.work := by
  obtain ⟨client, server⟩ := inv
  cases server with
  | reading phase inside some silent unsent =>
    simp only [step] at stepped
    split at stepped
    · rename_i writes
      rw [writes] at phase
      cases phase
    · cases stepped
  | refused error phase heard silent =>
    simp only [step, phase] at stepped
    cases stepped
  | done ok phase heard sent =>
    simp only [step, phase] at stepped
    cases stepped
  | @writing a rest ok phase heard sent unsent =>
    simp only [step, phase] at stepped
    split at stepped
    · rename_i stands
      cases stands
      cases stepped
      have ended : (h.server.step noise.toNoiseLibrary s.server .flushed).phase =
          .done (serverResult made) := by
        subst ok
        cases over_ : a.completed <;>
          simp [Accept.step, phase, Accept.whileWriting, Accept.finish, serverResult, over_]
      refine ⟨⟨client.congr rfl rfl (fun whole => whole) rfl rfl, .done ok ended heard ?_⟩, ?_⟩
      · simpa [unsent] using sent
      · have same : clientWork ({ h with
            server := h.server.step noise.toNoiseLibrary s.server .flushed } : Handshake noise) =
            h.clientWork := clientWork_congr rfl rfl
        rw [work, work, same]
        simp only [serverWork, ended, phase]
        omega
    · cases stepped

theorem serverSends_spec {bytes : List UInt8} {o : Unit} (inv : Exchanging msg1 state made h)
    (stepped : step s h (.serverSends bytes) = some (o, h')) :
    Exchanging msg1 state made h' ∧ h'.work ≤ h.work := by
  obtain ⟨client, server⟩ := inv
  cases server with
  | reading phase inside some silent unsent =>
    simp only [step] at stepped
    split at stepped
    · rename_i ended
      rw [ended] at phase
      cases phase
    · cases stepped
  | writing ok phase heard sent unsent =>
    simp only [step, phase] at stepped
    cases stepped
  | refused error phase heard silent =>
    simp only [step, phase] at stepped
    cases stepped
  | done ok phase heard sent =>
    simp only [step, phase] at stepped
    split at stepped
    · cases stepped
      refine ⟨⟨?_, .done ok phase heard ?_⟩, Nat.le_of_eq rfl⟩
      · exact client.congr rfl rfl (fun whole => whole) (Pipe.received_write _ _) rfl
      · rw [Pipe.sent_write, sent, List.append_assoc]
    · cases stepped

theorem exchanging_step {e : Event} {o : Unit} (small : msg1.length ≤ maxHandshakeMsg)
    (inv : Exchanging msg1 state (answer noise s msg1) h) (stepped : step s h e = some (o, h')) :
    Exchanging msg1 state (answer noise s msg1) h' ∧ h'.work + e.shakes.toNat ≤ h.work := by
  cases e with
  | clientReads n => exact clientReads_spec inv (fun a ok => (answer_ok ok).2) stepped
  | clientWrites n => exact clientWrites_spec inv stepped
  | clientFlushes => exact clientFlushes_spec inv stepped
  | clientSends bytes => exact clientSends_spec inv stepped
  | serverReads n => exact serverReads_spec inv small stepped
  | serverWrites n => exact serverWrites_spec inv stepped
  | serverFlushes => exact serverFlushes_spec inv stepped
  | serverSends bytes => exact serverSends_spec inv stepped

end

/-! Runs, those in which the client fails before it has a first message included. -/

/-- The client has failed at once, which is the end of the stream for the server. -/
structure Unstarted (e : Error) (h : Handshake noise) : Prop where
  client : h.client.phase = .done (.error e)
  up : h.up.sent = []
  server : h.server.phase = .readingLength [] ∨
    h.server.phase = .done (.error HandleStream.earlyEof)

/-- Where the handshake stands, by what has become of the first message. -/
def Stands (s : HandshakeSetup) (h : Handshake noise) :
    Except Error (List UInt8 × noise.HandshakeState) → Prop
  | .error e => Unstarted e h
  | .ok (msg1, state) => Exchanging msg1 state (answer noise s msg1) h

theorem unstarted_step {e : Error} {h h' : Handshake noise} {event : Event} {o : Unit}
    (inv : Unstarted e h) (stepped : step s h event = some (o, h')) :
    Unstarted e h' ∧ h'.work + event.shakes.toNat ≤ h.work := by
  obtain ⟨client, up, server⟩ := inv
  have nothing : h.up.received = [] ∧ h.up.buffered = [] := List.append_eq_nil_iff.mp up
  rcases server with reading | ended
  · cases event with
    | serverReads n =>
      have none (k : Nat) : h.up.next k = [] := by simp [Pipe.next, nothing.2]
      simp only [step, reading, Accept.Phase.reading?] at stepped
      split at stepped
      · cases stepped
        have at_ : (h.serverRead s (min n (HandshakeReading.length []).want)).server.phase =
            .done (.error HandleStream.earlyEof) := by
          simp [serverRead, none, Accept.step, reading, Accept.readLength, Accept.finish]
        refine ⟨⟨client, ?_, .inr at_⟩, ?_⟩
        · rw [serverRead, Pipe.sent_read, up]
        · have same : (h.serverRead s (min n (HandshakeReading.length []).want)).clientWork = h.clientWork :=
            clientWork_congr rfl rfl
          rw [work, work, same]
          simp only [serverWork, at_, reading, nothing.1, Event.shakes, Bool.toNat_true,
            List.length_nil]
          omega
      · cases stepped
    | clientReads n | clientWrites n | clientFlushes | clientSends bytes =>
      simp only [step, client] at stepped
      cases stepped
    | serverWrites n | serverFlushes | serverSends bytes =>
      simp only [step, reading] at stepped
      cases stepped
  · cases event with
    | clientReads n | clientWrites n | clientFlushes | clientSends bytes =>
      simp only [step, client] at stepped
      cases stepped
    | serverReads n =>
      simp only [step, ended, Accept.Phase.reading?] at stepped
      cases stepped
    | serverWrites n | serverFlushes | serverSends bytes =>
      simp only [step, ended] at stepped
      cases stepped

theorem new_stands (noise : HandshakeLibrary) (s : HandshakeSetup) :
    Stands s (new noise s) (Connect.firstMessage noise s.client s.clientEphemeral) ∧
      (new noise s).work ≤ 4 * (lenPrefix + maxHandshakeMsg) + 4 := by
  have server : (new noise s).serverWork = 2 * (lenPrefix + maxHandshakeMsg) + 2 := rfl
  cases first : Connect.firstMessage noise s.client s.clientEphemeral with
  | error e =>
    have client : (new noise s).client.phase = .done (.error e) := by
      simp [new, Connect.new, first]
    refine ⟨⟨client, rfl, .inl rfl⟩, ?_⟩
    rw [work, server]
    have idle : (new noise s).clientWork = 0 := by
      unfold clientWork
      rw [client]
    omega
  | ok made =>
    obtain ⟨msg1, state⟩ := made
    have client : (new noise s).client.phase = .writing state (frame msg1) := by
      simp [new, Connect.new, first, frame]
    have small := firstMessage_small first
    refine ⟨⟨.writing client rfl rfl rfl, .reading rfl List.nil_prefix ?_ rfl rfl⟩, ?_⟩
    · rw [frame_length]
      exact Nat.lt_add_right _ Nat.zero_lt_two
    · rw [work, server]
      have all : (new noise s).clientWork =
          (frame msg1).length + 2 + (lenPrefix + maxHandshakeMsg) := by
        unfold clientWork
        rw [client]
      rw [frame_length] at all
      simp only [lenPrefix] at *
      omega

theorem stands_step {first : Except Error (List UInt8 × noise.HandshakeState)}
    (made : Connect.firstMessage noise s.client s.clientEphemeral = first)
    {h h' : Handshake noise} {e : Event} {o : Unit} (inv : Stands s h first)
    (stepped : step s h e = some (o, h')) :
    Stands s h' first ∧ h'.work + e.shakes.toNat ≤ h.work := by
  cases first with
  | error e => exact unstarted_step inv stepped
  | ok message => exact exchanging_step (firstMessage_small made) inv stepped

theorem run_stands {tr : List (Event × Unit)} {h : Handshake noise}
    (run : Run (step s) (new noise s) tr h) :
    Stands s h (Connect.firstMessage noise s.client s.clientEphemeral) :=
  run.invariant (new_stands noise s).1 fun inv stepped => (stands_step rfl inv stepped).1

/-! What has been settled, and that it will be. -/

def Over (h : Handshake noise) : Prop :=
  (∃ r, h.client.phase = .done r) ∧ ∃ r, h.server.phase = .done r

/-- Whoever has finished has the result of the plain exchange, and has left all
that the other has sent since. -/
structure Settled (noise : HandshakeLibrary) (s : HandshakeSetup) (h : Handshake noise) : Prop where
  client : ∀ r, h.client.phase = .done r → r = (exchange noise s).1
  server : ∀ r, h.server.phase = .done r → r = (exchange noise s).2
  upward : ∀ r, h.server.phase = .done (.ok r) → h.up.buffered = h.clientData
  downward : ∀ r, h.client.phase = .done (.ok r) → h.down.buffered = h.serverData

/-- The bytes that are left, once those of the message are taken. -/
theorem left_over {p : Pipe UInt8} {message data : List UInt8} (received : p.received = message)
    (sent : p.sent = message ++ data) : p.buffered = data := by
  rw [Pipe.sent, received] at sent
  exact List.append_cancel_left sent

theorem Exchanging.upward {msg1 : List UInt8} {state : noise.HandshakeState}
    {made : Except Error Accept.Answer} {h : Handshake noise} (inv : Exchanging msg1 state made h)
    (heard : h.up.received = frame msg1) : h.up.buffered = h.clientData := by
  cases inv.client with
  | @writing rest phase sent unread unsent =>
    rw [Pipe.sent, heard, List.append_assoc] at sent
    rw [unsent]
    exact (List.append_eq_nil_iff.mp (List.append_cancel_left (sent.trans (List.append_nil _).symm))).1
  | reading phase sent unsent inside some =>
    exact left_over heard (by rw [sent, unsent, List.append_nil])
  | done phase sent heard' taken => exact left_over heard sent

theorem Exchanging.downward {msg1 : List UInt8} {state : noise.HandshakeState}
    {a : Accept.Answer} {h : Handshake noise} (inv : Exchanging msg1 state (.ok a) h)
    (taken : h.down.received = frame a.msg2) : h.down.buffered = h.serverData := by
  cases inv.server with
  | reading phase inside some silent unsent =>
    rw [Pipe.sent, taken] at silent
    have none := congrArg List.length (List.append_eq_nil_iff.mp silent).1
    simp at none
  | @writing a' rest ok phase heard sent unsent =>
    cases ok
    rw [Pipe.sent, taken, List.append_assoc] at sent
    rw [unsent]
    exact (List.append_eq_nil_iff.mp (List.append_cancel_left (sent.trans (List.append_nil _).symm))).1
  | refused error phase heard silent => cases error
  | @done a' ok phase heard sent =>
    cases ok
    exact left_over taken sent

theorem Exchanging.settled {msg1 : List UInt8} {state : noise.HandshakeState} {h : Handshake noise}
    (first : Connect.firstMessage noise s.client s.clientEphemeral = .ok (msg1, state))
    (inv : Exchanging msg1 state (answer noise s msg1) h) : Settled noise s h where
  client := by
    intro r ended
    rw [exchange, first]
    cases inv.client with
    | writing phase sent unread unsent => cases phase.symm.trans ended
    | reading phase sent unsent inside some => cases phase.symm.trans ended
    | done phase sent heard taken =>
      cases phase.symm.trans ended
      rfl
  server := by
    intro r ended
    rw [exchange, first]
    cases inv.server with
    | reading phase inside some silent unsent =>
      rw [ended] at phase
      cases phase
    | writing ok phase heard sent unsent => cases phase.symm.trans ended
    | refused error phase heard silent =>
      cases phase.symm.trans ended
      simp [error, serverResult]
    | done ok phase heard sent =>
      cases phase.symm.trans ended
      rfl
  upward := by
    intro r ended
    rcases inv.server.heard_or with ⟨heard, -⟩ | ⟨unheard, silent, -⟩
    · exact inv.upward heard
    · cases inv.server with
      | reading phase inside some silent unsent =>
        rw [ended] at phase
        cases phase
      | writing ok phase heard sent unsent => exact inv.upward heard
      | refused error phase heard silent => exact inv.upward heard
      | done ok phase heard sent => exact inv.upward heard
  downward := by
    intro r ended
    cases inv.client with
    | writing phase sent unread unsent => cases phase.symm.trans ended
    | reading phase sent unsent inside some => cases phase.symm.trans ended
    | done phase sent heard taken =>
      cases made : answer noise s msg1 with
      | error e =>
        rw [made] at phase
        cases phase.symm.trans ended
      | ok a =>
        rw [made] at inv
        exact inv.downward (taken a made)

theorem Stands.settled {h : Handshake noise}
    (inv : Stands s h (Connect.firstMessage noise s.client s.clientEphemeral)) :
    Settled noise s h := by
  cases first : Connect.firstMessage noise s.client s.clientEphemeral with
  | ok message =>
    rw [first] at inv
    exact Exchanging.settled first inv
  | error e =>
    rw [first] at inv
    obtain ⟨client, up, server⟩ := inv
    constructor
    · intro r ended
      cases client.symm.trans ended
      simp [exchange, first]
    · intro r ended
      rcases server with reading | failed
      · cases reading.symm.trans ended
      · cases failed.symm.trans ended
        simp [exchange, first]
    · intro r ended
      rcases server with reading | failed
      · cases reading.symm.trans ended
      · cases failed.symm.trans ended
    · intro r ended
      cases client.symm.trans ended

/-! Until both have finished, one of them can go on. -/

/-- One of the handshake's own events can happen. -/
def Moves (s : HandshakeSetup) (h : Handshake noise) : Prop :=
  ∃ e, e.shakes = true ∧ (step s h e).isSome

theorem next_all_ne_nil {p : Pipe UInt8} {k : Nat} (pos : 0 < k) (some : p.buffered ≠ []) :
    p.next k ≠ [] := by
  rw [Pipe.next, Ne, List.take_eq_nil_iff, not_or]
  exact ⟨by omega, some⟩

theorem clientWrites_moves {h : Handshake noise} {state : noise.HandshakeState} {rest : List UInt8}
    (phase : h.client.phase = .writing state rest) : Moves s h := by
  by_cases all : rest = []
  · subst all
    exact ⟨.clientFlushes, rfl, by simp [step, phase]⟩
  · refine ⟨.clientWrites 1, rfl, ?_⟩
    cases dropped : h.server.failed <;> simp [step, phase, all, dropped]

theorem serverWrites_moves {h : Handshake noise} {a : Accept.Answer} {rest : List UInt8}
    (phase : h.server.phase = .writing a rest) : Moves s h := by
  by_cases all : rest = []
  · subst all
    exact ⟨.serverFlushes, rfl, by simp [step, phase]⟩
  · refine ⟨.serverWrites 1, rfl, ?_⟩
    cases dropped : h.client.failed <;> simp [step, phase, all, dropped]

theorem clientReads_moves {h : Handshake noise} {state : noise.HandshakeState} {r : HandshakeReading}
    (phase : h.client.phase = .reading state r) (standing : 0 < r.want)
    (ready : h.down.buffered ≠ [] ∨ (h.down.buffered = [] ∧ h.server.failed = true)) :
    Moves s h := by
  refine ⟨.clientReads r.want, rfl, ?_⟩
  have ready : Ready h.down h.server.failed r.want := ready.imp (next_all_ne_nil standing) id
  simp [step, phase, ready]

theorem serverReads_moves {h : Handshake noise} {r : HandshakeReading}
    (phase : h.server.phase.reading? = some r) (standing : 0 < r.want) (some : h.up.buffered ≠ []) :
    Moves s h := by
  refine ⟨.serverReads r.want, rfl, ?_⟩
  have ready : Ready h.up h.client.failed r.want := .inl (next_all_ne_nil standing some)
  simp [step, phase, ready]

/-- What has been sent and not received is there to be read. -/
theorem buffered_of_received_lt {p : Pipe UInt8} (short : p.received.length < p.sent.length) :
    p.buffered ≠ [] := by
  intro none
  rw [Pipe.sent, none, List.append_nil] at short
  exact lt_irrefl _ short

theorem Exchanging.moves {msg1 : List UInt8} {state : noise.HandshakeState}
    {made : Except Error Accept.Answer} {h : Handshake noise} (inv : Exchanging msg1 state made h)
    (small : msg1.length ≤ maxHandshakeMsg)
    (answered : ∀ a, made = .ok a → a.msg2.length ≤ maxHandshakeMsg) : Over h ∨ Moves s h := by
  obtain ⟨client, server⟩ := inv
  cases client with
  | writing phase sent unread unsent => exact .inr (clientWrites_moves phase)
  | reading phase sent unsent inside some =>
    right
    have standing : 0 < (HandshakeReading.after (reply made) h.down.received).want :=
      HandshakeReading.want_after_pos (reply_small answered) some
    cases server with
    | reading phase' inside' some' silent unsent' =>
      apply serverReads_moves phase' (HandshakeReading.want_after_pos small some')
      exact buffered_of_received_lt (by rwa [sent])
    | writing ok phase' heard sent' unsent' => exact serverWrites_moves phase'
    | refused error phase' heard silent =>
      apply clientReads_moves phase standing
      right
      exact ⟨(List.append_eq_nil_iff.mp silent).2, by simp [Accept.failed, phase']⟩
    | done ok phase' heard sent' =>
      subst ok
      apply clientReads_moves phase standing
      left
      apply buffered_of_received_lt
      rw [sent', List.length_append]
      exact Nat.lt_add_right _ some
  | done phase sent heard taken =>
    cases server with
    | reading phase' inside some silent unsent =>
      rw [heard] at some
      exact absurd some (lt_irrefl _)
    | writing ok phase' heard' sent' unsent => exact .inr (serverWrites_moves phase')
    | refused error phase' heard' silent => exact .inl ⟨⟨_, phase⟩, ⟨_, phase'⟩⟩
    | done ok phase' heard' sent' => exact .inl ⟨⟨_, phase⟩, ⟨_, phase'⟩⟩

theorem Stands.moves {h : Handshake noise}
    (inv : Stands s h (Connect.firstMessage noise s.client s.clientEphemeral)) :
    Over h ∨ Moves s h := by
  cases first : Connect.firstMessage noise s.client s.clientEphemeral with
  | ok message =>
    rw [first] at inv
    exact Exchanging.moves inv (firstMessage_small first) fun a ok => (answer_ok ok).2
  | error e =>
    rw [first] at inv
    obtain ⟨client, up, server⟩ := inv
    rcases server with reading | failed
    · right
      have none : h.up.buffered = [] := (List.append_eq_nil_iff.mp up).2
      have ready : Ready h.up h.client.failed 2 := .inr ⟨none, by simp [Connect.failed, client]⟩
      refine ⟨.serverReads 2, rfl, ?_⟩
      simp [step, reading, Accept.Phase.reading?, HandshakeReading.want, lenPrefix, ready]
    · exact .inl ⟨⟨_, client⟩, ⟨_, failed⟩⟩

/-- Every schedule comes to the results of the plain exchange: it goes on until
both sides have finished, which it takes so many steps to do at most. -/
theorem refines_exchange (noise : HandshakeLibrary) (s : HandshakeSetup) (tr : List (Event × Unit))
    (h : Handshake noise) (run : Run (step s) (new noise s) tr h) :
    Settled noise s h ∧ (Over h ∨ Moves s h) ∧
      tr.countP (fun e => e.1.shakes) ≤ 4 * (lenPrefix + maxHandshakeMsg) + 4 := by
  have stands := run_stands run
  refine ⟨stands.settled, stands.moves, ?_⟩
  have bounded : tr.countP (fun e => e.1.shakes) + h.work ≤ (new noise s).work :=
    run.count_le (new_stands noise s).1
      (fun inv stepped => (stands_step rfl inv stepped).1)
      (fun inv stepped => (stands_step rfl inv stepped).2)
  have start := (new_stands noise s).2
  omega

/-- A side with what it knows, and the messages so far. -/
structure SampleState where
  initiator : Bool
  own : List UInt8
  remote : List UInt8
  psk : List UInt8
  heard : List UInt8
  completed : Bool

def sampleCipher (key : UInt8) : CipherState := ⟨Vector.replicate 32 key, 0⟩

/-- The first message names whom it is for and whom it is from, and the second the
pre-shared key. It hides nothing. -/
def sampleLibrary : HandshakeLibrary where
  HandshakeState := SampleState
  initiator _ own rs := ⟨true, own.bytes.toList, rs.bytes.toList, [], [], false⟩
  responder _ own := ⟨false, own.bytes.toList, [], [], [], false⟩
  pushPsk state psk := { state with psk := psk.bytes.toList }
  writeMessageVec ephemeral state _ :=
    if state.initiator then
      let msg1 := state.remote ++ state.own ++ ephemeral.toList
      some (msg1, { state with heard := msg1 })
    else
      let msg2 := state.psk ++ ephemeral.toList.take 16
      some (msg2, { state with heard := state.heard ++ msg2, completed := true })
  readMessageVec state msg :=
    if state.initiator then
      if msg.take 32 = state.psk then
        some ([], { state with heard := state.heard ++ msg, completed := true })
      else none
    else if msg.take 32 = state.own then
      some ([], { state with heard := msg, remote := (msg.drop 32).take 32 })
    else none
  getRs state := tryInto 32 state.remote
  completed state := state.completed
  getCiphers state :=
    let key := (state.heard.map UInt8.toNat).sum.toUInt8
    (sampleCipher key, sampleCipher (key + 1))

def sampleSetup : HandshakeSetup where
  client := ⟨⟨Vector.replicate 32 5⟩, ⟨Vector.replicate 32 1⟩, ⟨Vector.replicate 32 2⟩⟩
  server := ⟨⟨Vector.replicate 32 1⟩, ⟨Vector.replicate 32 2⟩, [⟨Vector.replicate 32 5⟩]⟩
  clientEphemeral := Vector.replicate 32 3
  serverEphemeral := Vector.replicate 32 4

/-- The messages go over in pieces. -/
def sampleEvents : List Event :=
  [.clientWrites 1, .serverReads 5, .clientWrites 97, .clientFlushes, .serverReads 2,
   .serverReads 90, .serverReads 90, .serverWrites 49, .clientReads 2, .serverWrites 1,
   .clientReads 48, .clientSends [7, 8], .serverFlushes]

theorem refines_exchange_sample : ∃ tr h,
    Run (step sampleSetup) (new sampleLibrary sampleSetup) tr h ∧ tr.map Prod.fst = sampleEvents ∧
      Settled sampleLibrary sampleSetup h ∧ Over h ∧ tr.countP (fun e => e.1.shakes) = 12 := by
  obtain ⟨⟨tr, h⟩, ran, client, server, count⟩ : ∃ result,
      exec (step sampleSetup) (new sampleLibrary sampleSetup) sampleEvents = some result ∧
        (∃ r, result.2.client.phase = .done r) ∧ (∃ r, result.2.server.phase = .done r) ∧
        result.1.countP (fun e => e.1.shakes) = 12 := ⟨_, rfl, ⟨_, rfl⟩, ⟨_, rfl⟩, rfl⟩
  obtain ⟨run, inputs⟩ := exec_run ran
  obtain ⟨settled, -, -⟩ := refines_exchange sampleLibrary sampleSetup tr h run
  exact ⟨tr, h, run, inputs, settled, ⟨client, server⟩, count⟩

end Handshake
end HyperionVpn
