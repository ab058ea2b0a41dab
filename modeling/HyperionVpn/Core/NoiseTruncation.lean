import HyperionVpn.Core.NoiseDelivery

/-! A stream that ends inside a frame. The reader looks at the end of the inner
stream in two places: before it knows a frame's length, and after. -/
namespace HyperionVpn.NoiseStream
open Bytes Framing

variable {aead : Aead} {s : NoiseStream}

/-- The answers asked for: none is the end of the stream, or just the last one is. -/
inductive Asked (script rest : List InnerRead) : Bool → Prop where
  | open_ {used : List InnerRead} : script = used ++ rest → .filled [] ∉ used →
      Asked script rest false
  | ended {used : List InnerRead} : script = used ++ .filled [] :: rest → .filled [] ∉ used →
      Asked script rest true

theorem Asked.refl (script : List InnerRead) : Asked script script false :=
  .open_ (List.nil_append _).symm List.not_mem_nil

theorem Asked.trans {script middle rest : List InnerRead} {ended : Bool}
    (first : Asked script middle false) (second : Asked middle rest ended) :
    Asked script rest ended := by
  cases first with
  | @open_ used split quiet =>
    cases second with
    | @open_ more split' quiet' =>
      have whole : script = (used ++ more) ++ rest := by rw [split, split', List.append_assoc]
      refine .open_ whole ?_
      exact fun member => (List.mem_append.mp member).elim quiet quiet'
    | @ended more split' quiet' =>
      have whole : script = (used ++ more) ++ .filled [] :: rest := by
        rw [split, split', List.append_assoc]
      refine .ended whole ?_
      exact fun member => (List.mem_append.mp member).elim quiet quiet'

theorem Asked.cons {answer : InnerRead} {rest : List InnerRead} (other : answer ≠ .filled []) :
    Asked (answer :: rest) rest false := by
  have split : answer :: rest = [answer] ++ rest := rfl
  exact .open_ split (by simpa using other.symm)

theorem pollFill_asked (s : NoiseStream) (n : Nat) (script : List InnerRead) :
    Asked script (s.pollFill n script).rest ((s.pollFill n script).result = .ready (.ok false)) := by
  induction script generalizing s with
  | nil =>
    unfold pollFill
    split <;> exact .refl _
  | cons answer rest ih =>
    unfold pollFill
    split
    swap
    · exact .refl _
    cases answer with
    | pending => exact .cons (by simp)
    | error e => exact .cons (by simp)
    | filled bytes =>
      dsimp only
      split <;> rename_i none_filled
      · have ended : bytes = [] := by simpa [fillCapacity] using none_filled
        subst ended
        have first : InnerRead.filled [] :: rest = [] ++ .filled [] :: rest := rfl
        exact .ended first List.not_mem_nil
      · have other : InnerRead.filled bytes ≠ .filled [] := by
          rintro ⟨⟩
          exact none_filled rfl
        exact (Asked.cons other).trans (ih _)

/-- The poll reports the end of the inner stream, one way or the other. -/
def ReportsEnd (result : PollResult (List UInt8)) : Bool :=
  result = .ready (.ok []) ∨ result = .ready (.error .unexpectedEof)

theorem Filled.reportsEnd {n : Nat} {script : List InnerRead} {fill : Reading (PollResult Bool)}
    {ended exit : PollResult (List UInt8)} (spec : Filled s n script fill)
    (reports : ReportsEnd ended = true) (stopped : exitOf ended fill.result = some exit) :
    ReportsEnd exit = decide (fill.result = .ready (.ok false)) := by
  have result := spec.result
  cases outcome : fill.result with
  | pending =>
    rw [outcome] at stopped
    cases stopped
    rfl
  | ready value =>
    rw [outcome] at stopped result
    cases value with
    | error e =>
      obtain ⟨inner, rfl, -⟩ := result
      cases stopped
      simp [ReportsEnd]
    | ok more =>
      cases more with
      | false =>
        cases stopped
        simpa using reports
      | true => cases stopped

theorem pollLength_asked {script : List InnerRead} {r : Reading Exit}
    (called : s.pollLength script = some r) :
    Asked script r.rest (r.result.any ReportsEnd) := by
  have asked := pollFill_asked s lenPrefix script
  have spec := pollFill_spec s lenPrefix script
  cases pollLength_cases called with
  | known _ => exact .refl _
  | stopped _ filled stopped =>
    rw [filled] at asked spec
    dsimp only [Option.any_some]
    rwa [spec.reportsEnd rfl stopped]
  | refused _ filled outcome _ _ =>
    rw [filled] at asked
    simpa [ReportsEnd, outcome] using asked
  | announced _ filled outcome _ _ =>
    rw [filled] at asked
    simpa [outcome] using asked

theorem pollFrame_asked {script : List InnerRead} {r : Reading Exit}
    (called : s.pollFrame aead script = some r) :
    Asked script r.rest (r.result.any ReportsEnd) := by
  have asked := pollFill_asked s s.readTarget script
  have spec := pollFill_spec s s.readTarget script
  cases pollFrame_cases called with
  | stopped filled stopped =>
    rw [filled] at asked spec
    dsimp only [Option.any_some]
    rwa [spec.reportsEnd rfl stopped]
  | failed filled outcome _ _ =>
    rw [filled] at asked
    simpa [ReportsEnd, outcome] using asked
  | opened filled outcome _ _ =>
    rw [filled] at asked
    simpa [outcome] using asked

theorem pollReadPass_asked {remaining : Nat} {script : List InnerRead} {r : Reading Exit}
    (room : 0 < remaining) (called : s.pollReadPass aead remaining script = some r) :
    Asked script r.rest (r.result.any ReportsEnd) := by
  unfold pollReadPass at called
  split at called
  · obtain ⟨out, sliced, called⟩ := Option.bind_eq_some_iff.mp called
    cases called
    have size := slice_length sliced
    have some_out : out ≠ [] := by
      rintro rfl
      simp only [List.length_nil] at size
      omega
    simpa [ReportsEnd, some_out] using Asked.refl script
  · obtain ⟨head, headed, called⟩ := Option.bind_eq_some_iff.mp called
    have asked := pollLength_asked headed
    cases outcome : head.result with
    | some result =>
      rw [outcome] at called
      cases called
      exact asked
    | none =>
      rw [outcome] at called asked
      obtain ⟨body, framed, called⟩ := Option.bind_eq_some_iff.mp called
      cases called
      have tail := pollFrame_asked framed
      exact asked.trans tail

theorem pollReadLoop_asked {remaining fuel : Nat} {script : List InnerRead}
    {r : Reading (PollResult (List UInt8))} (room : 0 < remaining)
    (called : pollReadLoop aead remaining fuel s script = some r) :
    Asked script r.rest (ReportsEnd r.result) := by
  induction fuel generalizing s script r with
  | zero => cases called
  | succ fuel ih =>
    rw [pollReadLoop] at called
    obtain ⟨pass, passed, called⟩ := Option.bind_eq_some_iff.mp called
    have asked := pollReadPass_asked room passed
    cases outcome : pass.result with
    | some result =>
      rw [outcome] at called asked
      cases called
      exact asked
    | none =>
      rw [outcome] at called asked
      obtain ⟨later, looped, called⟩ := Option.bind_eq_some_iff.mp called
      cases called
      have tail := ih looped
      exact asked.trans tail

end HyperionVpn.NoiseStream

namespace HyperionVpn.Session
open Bytes Machine Framing NoiseStream

variable {aead : Aead} {c : CipherState} {cut torn : List UInt8} {complete : List (List UInt8)}
  {msg : List UInt8}

/-- The inner stream hands out the bytes, in any pieces, and then its end. -/
def HandsOut (cut : List UInt8) (s : Session) : Call → Prop
  | .read remaining script => 0 < remaining ∧ (∀ e, InnerRead.error e ∉ script) ∧
      s.received ++ scriptBytes script <+: cut ∧
      ∀ before after, script = before ++ .filled [] :: after → s.received ++ scriptBytes before = cut
  | _ => False

/-- The inner stream answers each time it is asked, up to its end. -/
def FindsEnd : Call → Prop
  | .read _ script => .pending ∉ script ∧ AtEnd script
  | _ => False

/-- The read hands out more of the text, or waits for the inner stream, or has
handed out the text and reports an error. -/
def ReadsTorn (text : List UInt8) (s : Session) (call : Call) : Reply → Prop
  | .read .pending => ¬ FindsEnd call
  | .read (.ready (.ok out)) => out ≠ [] ∧ s.delivered ++ out <+: text
  | .read (.ready (.error e)) => e = .unexpectedEof ∧ s.delivered = text
  | _ => False

/-- The bytes are the frames of the complete messages and a part of one more. -/
structure TornAt (aead : Aead) (c : CipherState) (complete : List (List UInt8))
    (msg torn cut : List UInt8) : Prop where
  cut_eq : cut = stream (c.sealAll aead complete) ++ torn
  begins : torn <+: frame ((c.advance complete.length).encryptVec aead msg).1
  nonempty : torn ≠ []
  inside : torn ≠ frame ((c.advance complete.length).encryptVec aead msg).1
  small : ∀ m ∈ complete ++ [msg], m.length ≤ maxPlaintext

theorem TornAt.whole (h : TornAt aead c complete msg torn cut) :
    ∃ left, torn ++ left = frame ((c.advance complete.length).encryptVec aead msg).1 ∧
      cut ++ left = stream (c.sealAll aead (complete ++ [msg])) := by
  obtain ⟨left, last⟩ := h.begins
  refine ⟨left, last, ?_⟩
  rw [h.cut_eq, List.append_assoc, last, CipherState.sealAll_append, stream_append]
  simp [CipherState.sealAll]

/-- A receiver of these bytes opens only complete frames. -/
theorem TornAt.opened {s : NoiseStream} {received delivered more : List UInt8}
    {opened : List (List UInt8)} (h : TornAt aead c complete msg torn cut)
    (receiving : Receiving aead c s received delivered opened) (part : received ++ more = cut) :
    ∃ rest, complete = opened ++ rest ∧
      s.readRaw ++ more = stream ((c.advance opened.length).sealAll aead rest) ++ torn := by
  obtain ⟨left, last, whole⟩ := h.whole
  rw [← part, List.append_assoc] at whole
  obtain ⟨rest, split, tail⟩ := genuine receiving h.small whole
  rcases List.eq_nil_or_concat rest with rfl | ⟨rest, msg', rfl⟩
  · simp only [CipherState.sealAll_nil, stream_nil, List.append_eq_nil_iff] at tail
    rw [tail.2.2, List.append_nil] at last
    exact absurd last h.inside
  · rw [List.concat_eq_append, ← List.append_assoc] at split
    obtain ⟨same, last_same⟩ := List.append_inj' split rfl
    cases last_same
    refine ⟨rest, same, ?_⟩
    rw [List.concat_eq_append, CipherState.sealAll_append, stream_append] at tail
    simp only [CipherState.sealAll, stream_cons, stream_nil, List.append_nil,
      CipherState.advance_advance] at tail
    rw [same, List.length_append] at last
    rw [← last, ← List.append_assoc, ← List.append_assoc] at tail
    exact List.append_cancel_right tail

/-- A starved receiver of all these bytes has opened all complete frames. -/
theorem TornAt.starved {s : NoiseStream} {received delivered : List UInt8}
    {opened : List (List UInt8)} (h : TornAt aead c complete msg torn cut)
    (receiving : Receiving aead c s received delivered opened) (all : received = cut)
    (starved : Starved s) : delivered = complete.flatten ∧ s.readRaw = torn := by
  have part : received ++ [] = cut := by rw [List.append_nil, all]
  obtain ⟨rest, split, raw⟩ := h.opened receiving part
  rw [List.append_nil] at raw
  cases rest with
  | nil =>
    rw [List.append_nil] at split
    have handed := receiving.handed
    rw [List.drop_of_length_le starved.1, List.append_nil] at handed
    exact ⟨by rw [split, handed], by simpa using raw⟩
  | cons next rest =>
    have size := congrArg List.length raw
    simp only [CipherState.sealAll, stream_cons, List.length_append, frame_length,
      CipherState.encryptVec_length] at size
    have short := starved.2
    cases set : s.haveLen with
    | false =>
      simp only [set, lenPrefix, Bool.false_eq_true, if_false] at short
      omega
    | true =>
      obtain ⟨a, b, held, front, target, -⟩ := receiving.announced set
      have small : next.length ≤ maxPlaintext := h.small next (by simp [split])
      have genuineFront : (a :: b :: held) ++ [] =
          frame ((c.advance opened.length).encryptVec aead next).1 ++
            (stream (((c.advance opened.length).advance 1).sealAll aead rest) ++ torn) := by
        rw [← front, raw]
        simp [CipherState.sealAll]
      have announced := announced_length small genuineFront
      simp only [set, target, announced, lenPrefix, if_true] at short
      omega

/-- The reader has taken some of the bytes. -/
def Takes (aead : Aead) (c : CipherState) (cut : List UInt8) (s : Session) : Prop :=
  s.received <+: cut ∧ ∃ opened, Receiving aead c s.receiver s.received s.delivered opened

/-- What one read of these bytes does. -/
theorem TornAt.reads {s s' : Session} {call : Call} {reply : Reply}
    (h : TornAt aead c complete msg torn cut) (takes : Takes aead c cut s)
    (hands : HandsOut cut s call) (stepped : step aead s call = some (reply, s')) :
    Takes aead c cut s' ∧ (torn.length ≠ 1 → ReadsTorn complete.flatten s call reply) ∧
      (torn.length = 1 → reply ≠ .read (.ready (.error .unexpectedEof))) := by
  obtain ⟨piped, opened, receiving⟩ := takes
  cases call with
  | write _ _ => exact hands.elim
  | flush _ _ => exact hands.elim
  | shutdown _ _ => exact hands.elim
  | read remaining script =>
    obtain ⟨room, no_error, within, ending⟩ := hands
    obtain ⟨r, called, accounts, ⟨more, receiving'⟩, stops⟩ :=
      pollRead_spec receiving remaining script
    have asked := pollReadLoop_asked room called
    simp only [Session.step, called, Option.bind_eq_bind, Option.bind_some] at stepped
    cases stepped
    have piped' : s.received ++ r.taken <+: cut := by
      rw [accounts.bytes, ← List.append_assoc] at within
      exact (List.prefix_append _ _).trans within
    -- A read that meets the end of the inner stream has taken all bytes.
    have all (ended : ReportsEnd r.result = true) : s.received ++ r.taken = cut := by
      rw [ended] at asked
      cases asked with
      | @ended used split _ =>
        have total := accounts.bytes
        have front : scriptBytes script = scriptBytes used ++ scriptBytes r.rest := by
          rw [split]
          simp [scriptBytes]
        rw [front] at total
        rw [← List.append_cancel_right total]
        exact ending used r.rest split
    have waits (waiting : r.result = .pending) : ¬ FindsEnd (.read remaining script) := by
      rintro ⟨no_pending, ended⟩
      rw [waiting] at stops asked
      rcases stops.2 with nothing | pending
      · cases asked with
        | @open_ used split quiet =>
          rw [nothing, List.append_nil] at split
          rw [AtEnd, split] at ended
          exact quiet ended
      · exact no_pending pending
    obtain ⟨others, split⟩ : ∃ others, complete = (opened ++ more) ++ others := by
      obtain ⟨later, whole⟩ := piped'
      obtain ⟨others, split, -⟩ := h.opened receiving' whole
      exact ⟨others, split⟩
    have handed := delivered_prefix receiving' ⟨others, split.symm⟩
    refine ⟨⟨piped', opened ++ more, receiving'⟩, ?_⟩
    cases outcome : r.result with
    | pending => exact ⟨fun _ => waits outcome, fun _ => by simp⟩
    | ready value =>
      rw [outcome] at stops handed all
      cases value with
      | ok out =>
        refine ⟨fun longer => ⟨?_, handed⟩, fun _ => by simp⟩
        rintro rfl
        rcases stops with ⟨-, starved, unset, -⟩ | some_out
        · have raw := (h.starved receiving' (all rfl) starved).2
          have short := starved.2
          have pos := List.length_pos_iff.mpr h.nonempty
          rw [raw, unset] at short
          simp only [lenPrefix, Bool.false_eq_true, if_false] at short
          omega
        · exact some_out room rfl
      | error e =>
        cases e with
        | inner e => exact absurd stops (no_error e)
        | writeZero => exact stops.elim
        | invalidData message =>
          obtain ⟨later, part⟩ := piped'
          obtain ⟨left, -, whole⟩ := h.whole
          rw [← part, List.append_assoc] at whole
          exact absurd stops (genuine_not_poisoned receiving' h.small whole)
        | unexpectedEof =>
          obtain ⟨starved, set, -⟩ := stops
          obtain ⟨text, raw⟩ := h.starved receiving' (all rfl) starved
          refine ⟨fun _ => ⟨rfl, ?_⟩, ?_⟩
          · simpa [outOf, outcome] using text
          · intro one
            obtain ⟨a, b, held, front, -⟩ := receiving'.announced set
            rw [← raw, front] at one
            simp at one

theorem takes_new (aead : Aead) (c recv send : CipherState) (cut : List UInt8) :
    Takes aead c cut (new c recv send) :=
  ⟨List.nil_prefix, [], receiving_new aead send c⟩

theorem read_delivers {s s' : Session} {call : Call} {result : PollResult (List UInt8)}
    (stepped : step aead s call = some (.read result, s')) :
    s'.delivered = s.delivered ++ outOf result := by
  cases call with
  | read remaining script =>
    obtain ⟨r, -, same⟩ := Option.bind_eq_some_iff.mp stepped
    cases same
    rfl
  | write _ _ =>
    obtain ⟨w, -, same⟩ := Option.bind_eq_some_iff.mp stepped
    cases same
  | flush _ _ =>
    obtain ⟨w, -, same⟩ := Option.bind_eq_some_iff.mp stepped
    cases same
  | shutdown _ _ =>
    obtain ⟨w, -, same⟩ := Option.bind_eq_some_iff.mp stepped
    cases same

/-- Reads that find the end hand out something as long as none reports an error. -/
theorem TornAt.progress {recv send : CipherState} {tr : List (Call × Reply)} {s : Session}
    (h : TornAt aead c complete msg torn cut) (longer : torn.length ≠ 1)
    (run : Run (step aead) (new c recv send) tr s)
    (hands : Always (step aead) (new c recv send) (HandsOut cut) tr)
    (finds : ∀ e ∈ tr, FindsEnd e.1)
    (unreported : ∀ call, (call, .read (.ready (.error .unexpectedEof))) ∉ tr) :
    Takes aead c cut s ∧ tr.length ≤ s.delivered.length := by
  induction run with
  | nil => exact ⟨takes_new aead c recv send cut, le_rfl⟩
  | @snoc tr m call reply m' left stepped ih =>
    obtain ⟨takes, count⟩ := ih hands.prefix
      (fun e member => finds e (List.mem_append_left _ member))
      fun call member => unreported call (List.mem_append_left _ member)
    obtain ⟨takes', reads, -⟩ := h.reads takes (hands.last left) stepped
    refine ⟨takes', ?_⟩
    have answer := reads longer
    cases reply with
    | wrote _ => exact answer.elim
    | drained _ => exact answer.elim
    | read result =>
      have delivered := congrArg List.length (read_delivers stepped)
      rw [List.length_append] at delivered
      cases result with
      | pending => exact absurd (finds _ (List.mem_append_right _ List.mem_cons_self)) answer
      | ready value =>
        cases value with
        | ok out =>
          have some_out := List.length_pos_iff.mpr answer.1
          rw [List.length_append, delivered, List.length_singleton, outOf]
          omega
        | error e =>
          obtain ⟨rfl, -⟩ := answer
          exact absurd (List.mem_append_right _ List.mem_cons_self) (unreported call)

/-- Every read hands out more of the text, waits, or reports the truncation
after all of the text; and reads that find the end come to that report. -/
structure ReportsTruncation (aead : Aead) (c recv send : CipherState) (cut text : List UInt8) :
    Prop where
  replies : ∀ tr s, Run (step aead) (new c recv send) tr s →
    Always (step aead) (new c recv send) (HandsOut cut) tr →
    ∀ before call reply after m, tr = before ++ (call, reply) :: after →
      Run (step aead) (new c recv send) before m → ReadsTorn text m call reply
  reported : ∀ tr s, Run (step aead) (new c recv send) tr s →
    Always (step aead) (new c recv send) (HandsOut cut) tr → (∀ e ∈ tr, FindsEnd e.1) →
    text.length < tr.length → ∃ call, (call, .read (.ready (.error .unexpectedEof))) ∈ tr

theorem takes_run {recv send : CipherState} {tr : List (Call × Reply)} {s : Session}
    (h : TornAt aead c complete msg torn cut) (run : Run (step aead) (new c recv send) tr s)
    (hands : Always (step aead) (new c recv send) (HandsOut cut) tr) : Takes aead c cut s :=
  run.invariant_always hands (takes_new aead c recv send cut)
    fun takes hands stepped => (h.reads takes hands stepped).1

/-- What a read of a run over these bytes meets and answers. -/
theorem TornAt.reads_at {recv send : CipherState} {before after : List (Call × Reply)}
    {call : Call} {reply : Reply} {s : Session} (h : TornAt aead c complete msg torn cut)
    (run : Run (step aead) (new c recv send) (before ++ (call, reply) :: after) s)
    (hands : Always (step aead) (new c recv send) (HandsOut cut)
      (before ++ (call, reply) :: after)) :
    ∃ m, Run (step aead) (new c recv send) before m ∧
      (torn.length ≠ 1 → ReadsTorn complete.flatten m call reply) ∧
      (torn.length = 1 → reply ≠ .read (.ready (.error .unexpectedEof))) := by
  obtain ⟨m, m', left, stepped, -⟩ := run.at_step
  have takes := takes_run h left hands.prefix
  exact ⟨m, left, (h.reads takes (hands before call reply after m rfl left) stepped).2⟩

/-- The rest of the bytes one by one, and then the end. -/
def trickle (bytes : List UInt8) : List InnerRead := bytes.map (.filled [·]) ++ [.filled []]

theorem scriptBytes_trickle (bytes : List UInt8) : scriptBytes (bytes.map (.filled [·])) = bytes := by
  induction bytes with
  | nil => rfl
  | cons b rest ih =>
    rw [List.map_cons, scriptBytes_cons, ih]
    rfl

theorem handsOut_trickle {s : Session} {rest : List UInt8} (split : s.received ++ rest = cut) :
    HandsOut cut s (.read 1 (trickle rest)) ∧ FindsEnd (.read 1 (trickle rest)) := by
  have none_ends : InnerRead.filled [] ∉ rest.map (.filled [·]) := by simp
  refine ⟨⟨Nat.one_pos, by simp [trickle], ?_, ?_⟩, by simp [trickle], by simp [AtEnd, trickle]⟩
  · have bytes : scriptBytes (trickle rest) = rest := by
      conv_rhs => rw [← scriptBytes_trickle rest]
      simp [scriptBytes, trickle]
    rw [bytes, split]
  · intro before after same
    rcases List.eq_nil_or_concat after with rfl | ⟨after, last, rfl⟩
    · obtain ⟨same, -⟩ := List.append_inj' same rfl
      rw [← same, scriptBytes_trickle, split]
    · rw [List.concat_eq_append, ← List.cons_append, ← List.append_assoc] at same
      obtain ⟨same, -⟩ := List.append_inj' same rfl
      rw [same] at none_ends
      exact absurd (by simp) none_ends

theorem trickles_exist (recv send : CipherState) (h : TornAt aead c complete msg torn cut)
    (n : Nat) : ∃ tr s, Run (step aead) (new c recv send) tr s ∧
      Always (step aead) (new c recv send) (HandsOut cut) tr ∧ (∀ e ∈ tr, FindsEnd e.1) ∧
      tr.length = n := by
  induction n with
  | zero =>
    refine ⟨[], _, .nil, ?_, by simp, rfl⟩
    intro before i o after m split
    simp at split
  | succ n ih =>
    obtain ⟨tr, s, run, hands, finds, size⟩ := ih
    obtain ⟨⟨rest, split⟩, opened, receiving⟩ := takes_run h run hands
    obtain ⟨hands', finds'⟩ := handsOut_trickle split
    obtain ⟨r, called, -⟩ := pollRead_spec receiving 1 (trickle rest)
    have stepped : ∃ reply s', step aead s (.read 1 (trickle rest)) = some (reply, s') := by
      simp [step, called]
    obtain ⟨reply, s', stepped⟩ := stepped
    refine ⟨_, s', run.snoc stepped, (Always.snoc_iff run).mpr ⟨hands, hands'⟩, ?_, by simp [size]⟩
    intro e member
    rcases List.mem_append.mp member with old | new_
    · exact finds e old
    · rw [List.mem_singleton.mp new_]
      exact finds'

theorem not_reported (recv send : CipherState) (h : TornAt aead c complete msg torn cut)
    (one : torn.length = 1) : ¬ ReportsTruncation aead c recv send cut complete.flatten := by
  intro reports
  obtain ⟨tr, s, run, hands, finds, size⟩ :=
    trickles_exist recv send h (complete.flatten.length + 1)
  obtain ⟨call, member⟩ := reports.reported tr s run hands finds (by omega)
  obtain ⟨before, after, rfl⟩ := List.append_of_mem member
  obtain ⟨m, -, -, other⟩ := h.reads_at run hands
  exact other one rfl

/-- A truncation inside a frame is reported, after the complete frames, exactly
unless it leaves one byte of the frame. -/
theorem truncation_reported_iff (aead : Aead) (c recv send : CipherState)
    (complete : List (List UInt8)) (msg torn cut : List UInt8)
    (h : TornAt aead c complete msg torn cut) :
    ReportsTruncation aead c recv send cut complete.flatten ↔ torn.length ≠ 1 := by
  constructor
  · exact fun reports one => not_reported recv send h one reports
  · intro longer
    constructor
    · rintro tr s run hands before call reply after m rfl left
      obtain ⟨m', left', reads, -⟩ := h.reads_at run hands
      obtain ⟨-, rfl⟩ := left.functional left' rfl
      exact reads longer
    · intro tr s run hands finds count
      by_contra unreported
      obtain ⟨takes, progress⟩ := h.progress longer run hands finds (not_exists.mp unreported)
      obtain ⟨⟨rest, part⟩, opened, receiving⟩ := takes
      obtain ⟨others, split, -⟩ := h.opened receiving part
      have handed := delivered_prefix receiving ⟨others, split.symm⟩
      have bound := handed.length_le
      omega

/-- A first frame, and what is left of a second. -/
def sampleCut (torn : List UInt8) : List UInt8 :=
  stream (sampleCipher.sealAll .transparent [[7]]) ++ torn

theorem truncation_reported_sample : ReportsTruncation .transparent sampleCipher sampleCipher
    sampleCipher (sampleCut [0, 17]) [7] := by
  have torn : TornAt .transparent sampleCipher [[7]] [8] [0, 17] (sampleCut [0, 17]) :=
    ⟨rfl, by decide +kernel, by decide, by decide +kernel, by decide⟩
  exact (truncation_reported_iff _ _ _ _ _ _ _ _ torn).mpr (by decide)

/-- One byte of the second frame is left. -/
theorem truncation_unreported : ¬ ∀ (aead : Aead) (c recv send : CipherState)
    (complete : List (List UInt8)) (msg torn cut : List UInt8),
    TornAt aead c complete msg torn cut →
    ReportsTruncation aead c recv send cut complete.flatten := by
  intro claim
  have torn : TornAt .transparent sampleCipher [[7]] [8] [0] (sampleCut [0]) :=
    ⟨rfl, by decide +kernel, by decide, by decide +kernel, by decide⟩
  exact not_reported sampleCipher sampleCipher torn rfl (claim _ _ _ _ _ _ _ _ torn)

end HyperionVpn.Session
