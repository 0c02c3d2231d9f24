-- SUMMARY: When what happened before does not show in the next response.
import GetEmail.Pop.ParserStable
import GetEmail.Pop.Polling

/-!
# History independence

Of the fields of a stream, a finished response leaves behind the unread bytes, in
a buffer of one chunk, and `decode_needs`. Nothing resets the latter, so the next
`decode` may be passed over because of what an earlier response was waiting for.
Two streams with the same unread bytes behave alike when the first `decode` leaves
them waiting for the same number of bytes.
-/

namespace Pop.PopStream

open Exec
open Nom (Bytes ascii)

/-! ## Streams that differ in their past only -/

/-- All but the record of the past is the same. -/
structure Same (s t : PopStream) : Prop where
  buffer : s.buffer = t.buffer
  needs : s.decodeNeeds = t.decodeNeeds
  queue : s.queue = t.queue
  stream : s.stream = t.stream

/-- The same value or exit, after the same reads. -/
def SameOutcome {α : Type} (r r' : EStateM.Result (Exit Error) PopStream α) : Prop :=
  value? r = value? r' ∧ exit? r = exit? r' ∧ (stateOf r).stream = (stateOf r').stream

theorem Same.receive {s t : PopStream} (h : Same s t) :
    (∃ s' t', receive s = .ok () s' ∧ receive t = .ok () t' ∧ Same s' t') ∨
      ∃ x s' t', receive s = .error x s' ∧ receive t = .error x t' ∧ s'.stream = t'.stream := by
  obtain ⟨buffer, needs, queue, stream, history⟩ := s
  obtain ⟨_, _, _, _, history'⟩ := t
  obtain ⟨rfl, rfl, rfl, rfl⟩ := h
  simp only [PopStream.receive, bind_apply, get_apply, onBuffer, onStream, zoom]
  cases Buffer.ensureCapacity needs buffer with
  | error x b => exact .inr ⟨x, _, _, rfl, rfl, rfl⟩
  | ok _ b =>
    dsimp only
    cases Buffer.unused b with
    | error x b => exact .inr ⟨x, _, _, rfl, rfl, rfl⟩
    | ok unused b =>
      dsimp only
      cases Transport.pollRead unused.length stream with
      | error x stream => exact .inr ⟨x, _, _, rfl, rfl, rfl⟩
      | ok polled stream =>
        cases polled with
        | none => exact .inl ⟨_, _, rfl, rfl, rfl, rfl, rfl, rfl⟩
        | some bytes => exact .inl ⟨_, _, rfl, rfl, rfl, rfl, rfl, rfl⟩

variable [Host]

/-- The position at which the parser is tried next after a `decode` in `s`: what
`s` waits for already, or else what the parser asks for now. -/
def waitsFor (s : PopStream) : Nat :=
  if s.buffer.cursor < s.decodeNeeds then s.decodeNeeds
  else match s.queue with
    | [] => 0
    | command :: _ =>
      match Parser.parse (s.buffer.inner.take s.buffer.cursor) command with
      | .incomplete needed => asked s.buffer.cursor needed
      | _ => 0

structure Alike (s t : PopStream) : Prop where
  holds : ∃ bytes, s.Holds bytes
  buffer : s.buffer = t.buffer
  queue : s.queue = t.queue
  stream : s.stream = t.stream
  waits : s.waitsFor = t.waitsFor

theorem Same.alike {s t : PopStream} (h : Same s t) (hs : ∃ bytes, s.Holds bytes) : Alike s t :=
  ⟨hs, h.buffer, h.queue, h.stream, by rw [waitsFor, waitsFor, h.buffer, h.queue, h.needs]⟩

/-- While the parser is not to be tried, `decode` leaves the stream waiting. -/
theorem decode_waits {s : PopStream} {bytes : Bytes} (hs : s.Holds bytes)
    (h : s.buffer.cursor < s.waitsFor) :
    decode s = .ok none { s with decodeNeeds := s.waitsFor } := by
  by_cases hskip : s.buffer.cursor < s.decodeNeeds
  · rw [decode_skip hskip, waitsFor, if_pos hskip]
  · unfold waitsFor at h ⊢
    rw [if_neg hskip] at h ⊢
    cases hq : s.queue with
    | nil => simp [hq] at h
    | cons command queue =>
      rw [hq] at h
      rw [decode_eq (Nat.not_lt.mp hskip) hq, if_neg (Nat.not_lt.mpr hs.le)]
      cases hparse : Parser.parse (s.buffer.inner.take s.buffer.cursor) command with
      | incomplete needed => simp [hparse, hq]
      | ok rest response => simp [hparse] at h
      | error e => simp [hparse] at h

/-- Otherwise it tries the parser. -/
theorem le_of_waitsFor {s : PopStream} (h : s.waitsFor ≤ s.buffer.cursor) :
    s.decodeNeeds ≤ s.buffer.cursor := by
  by_contra hskip
  have hskip := Nat.not_le.mp hskip
  rw [waitsFor, if_pos hskip] at h
  exact absurd hskip (Nat.not_lt.mpr h)

/-- `decode` gives the same answer, or leaves both streams waiting for the same. -/
theorem decode_alike {s t : PopStream} (h : Alike s t) :
    (∃ s' t', decode s = .ok none s' ∧ decode t = .ok none t' ∧ Same s' t') ∨
      SameOutcome (decode s) (decode t) ∧ ∀ s', decode s ≠ .ok none s' := by
  obtain ⟨bytes, hs⟩ := h.holds
  have ht : t.Holds bytes := by
    obtain ⟨room, hroom⟩ := hs
    exact ⟨room, h.buffer ▸ hroom⟩
  rcases Nat.lt_or_ge s.buffer.cursor s.waitsFor with hwaits | hwaits
  · have hwaits' : t.buffer.cursor < t.waitsFor := h.waits ▸ h.buffer ▸ hwaits
    exact .inl ⟨_, _, decode_waits hs hwaits, decode_waits ht hwaits', h.buffer, h.waits, h.queue,
      h.stream⟩
  · have hle := le_of_waitsFor hwaits
    have hle' : t.decodeNeeds ≤ t.buffer.cursor := by
      apply le_of_waitsFor
      rwa [← h.waits, ← h.buffer]
    cases hq : s.queue with
    | nil =>
      rw [decode_missing hle hq, decode_missing hle' (h.queue ▸ hq)]
      exact .inr ⟨⟨rfl, rfl, h.stream⟩, nofun⟩
    | cons command queue =>
      rw [decode_eq hle hq, decode_eq hle' (h.queue ▸ hq), ← h.buffer]
      split
      · exact .inr ⟨⟨rfl, rfl, h.stream⟩, nofun⟩
      split
      · split
        · exact .inr ⟨⟨rfl, rfl, h.stream⟩, nofun⟩
        · split
          · exact .inr ⟨⟨rfl, rfl, h.stream⟩, nofun⟩
          · exact .inr ⟨⟨rfl, rfl, h.stream⟩, nofun⟩
      · exact .inl ⟨_, _, rfl, rfl, rfl, rfl, h.queue, h.stream⟩
      · exact .inr ⟨⟨rfl, rfl, h.stream⟩, nofun⟩

/-- Streams that are alike poll to the same outcome. -/
theorem Polls.alike {s t : PopStream} {r : Outcome} (hpolls : Polls s r) (h : Alike s t) :
    ∃ r', Polls t r' ∧ SameOutcome r r' := by
  induction hpolls generalizing t with
  | done hdecode =>
    rcases decode_alike h with ⟨_, _, hnone, -⟩ | ⟨⟨hvalue, hexit, hstream⟩, -⟩
    · simp [hnone] at hdecode
    · rw [hdecode] at hvalue hexit hstream
      have ht := eq_ok_of_value? hvalue.symm
      exact ⟨_, .done ht, rfl, rfl, hstream⟩
  | exit hdecode =>
    rcases decode_alike h with ⟨_, _, hnone, -⟩ | ⟨⟨hvalue, hexit, hstream⟩, -⟩
    · simp [hnone] at hdecode
    · rw [hdecode] at hvalue hexit hstream
      have ht := eq_error_of_exit? hexit.symm
      exact ⟨_, .exit ht, rfl, rfl, hstream⟩
  | stop hdecode hreceive =>
    rcases decode_alike h with ⟨s', t', hnone, hnone', hsame⟩ | ⟨-, hsome⟩
    · rw [hdecode] at hnone
      cases hnone
      rcases hsame.receive with ⟨_, _, hok, -⟩ | ⟨x, _, t'', herror, herror', hstream⟩
      · simp [hreceive] at hok
      · rw [hreceive] at herror
        cases herror
        exact ⟨_, .stop hnone' herror', rfl, rfl, hstream⟩
    · exact absurd hdecode (hsome _)
  | again hdecode hreceive _ ih =>
    rcases decode_alike h with ⟨s', t', hnone, hnone', hsame⟩ | ⟨-, hsome⟩
    · rw [hdecode] at hnone
      cases hnone
      rcases hsame.receive with ⟨_, t'', hok, hok', hsame'⟩ | ⟨x, _, _, herror, -⟩
      · rw [hreceive] at hok
        cases hok
        obtain ⟨bytes, hbytes⟩ := h.holds
        obtain ⟨⟨new, hnew, -⟩, -⟩ := receive_holds (decode_none_holds hbytes hdecode).1 hreceive
        obtain ⟨r', hpolls', houtcome⟩ := ih (hsame'.alike ⟨_, hnew⟩)
        exact ⟨r', .again hnone' hok' hpolls', houtcome⟩
      · simp [hreceive] at herror
    · exact absurd hdecode (hsome _)

/-- The calls have the same outcome when polling has. -/
theorem SameOutcome.readResponse {s t : PopStream} {command : Command}
    (h : SameOutcome (next (s.awaiting command)) (next (t.awaiting command))) :
    SameOutcome (readResponse command s) (readResponse command t) := by
  rw [readResponse_eq, readResponse_eq]
  obtain ⟨hvalue, hexit, hstream⟩ := h
  cases hs : next (s.awaiting command) with
  | ok response s' =>
    rw [hs] at hvalue hstream
    rw [eq_ok_of_value? hvalue.symm]
    cases response <;> exact ⟨rfl, rfl, hstream⟩
  | error x s' =>
    rw [hs] at hexit hstream
    rw [eq_error_of_exit? hexit.symm]
    exact ⟨rfl, rfl, hstream⟩

/-! ## Runs of answered calls -/

/-- The streams after runs of calls of `read_response` that were all answered. -/
inductive AfterAnswers : PopStream → Prop where
  | new (stream : Transport) : AfterAnswers (new stream)
  | read {s s' : PopStream} (h : AfterAnswers s) (stream : Transport) {command : Command}
      {answer : Except Error Response}
      (hread : readResponse command { s with stream := stream } = finished answer s')
      (hanswer : Answered answer) : AfterAnswers s'

/-- The buffer of a stream between answered calls has the size of one chunk. -/
theorem AfterAnswers.buffer {s : PopStream} (h : AfterAnswers s) : s.queue = [] ∧
    ∃ bytes, s.buffer = .holding bytes (Buffer.chunkSize - bytes.length) := by
  induction h with
  | new stream => exact ⟨rfl, [], rfl⟩
  | @read s _ _ stream _ _ hread hanswer ih =>
    obtain ⟨hqueue, bytes, hbuffer⟩ := ih
    obtain ⟨-, rest, -, -, -, -, -, hqueue', hbuffer'⟩ :=
      readResponse_answered (s := { s with stream := stream }) ⟨_, hbuffer⟩ hqueue hread hanswer
    exact ⟨hqueue', rest, hbuffer'⟩

/-- After answered calls that leave the same unread bytes, a call has the same
outcome on every transport, as long as both streams then wait for the same number
of bytes. -/
theorem readResponse_history_independent {s t : PopStream} (hs : AfterAnswers s)
    (ht : AfterAnswers t)
    (hunread : s.buffer.inner.take s.buffer.cursor = t.buffer.inner.take t.buffer.cursor)
    (command : Command) (hwaits : (s.awaiting command).waitsFor = (t.awaiting command).waitsFor)
    (stream : Transport) :
    SameOutcome (readResponse command { s with stream := stream })
      (readResponse command { t with stream := stream }) := by
  obtain ⟨hqueue, bytes, hbuffer⟩ := hs.buffer
  obtain ⟨hqueue', bytes', hbuffer'⟩ := ht.buffer
  obtain rfl : bytes = bytes' := by simpa [hbuffer, hbuffer'] using hunread
  have halike : Alike ({ s with stream := stream }.awaiting command)
      ({ t with stream := stream }.awaiting command) :=
    ⟨⟨_, _, hbuffer⟩, hbuffer.trans hbuffer'.symm, by simp [awaiting, hqueue, hqueue'], rfl, hwaits⟩
  have hpolls := next_polls (s := { s with stream := stream }.awaiting command) ⟨_, hbuffer⟩
  have hpolls' := next_polls (s := { t with stream := stream }.awaiting command) ⟨_, hbuffer'⟩
  obtain ⟨r, hr, houtcome⟩ := hpolls.alike halike
  rw [hr.unique hpolls'] at houtcome
  exact houtcome.readResponse

/-- A first call of `STAT`, with the answer in these chunks. -/
def readStat (chunks : List Bytes) : Outcome :=
  readResponse .stat { new ⟨[], [], false, none⟩ with stream := ⟨chunks.map .data, [], false, none⟩ }

theorem readStat_answered {chunks : List Bytes} {response : Response}
    (h : value? (readStat chunks) = some response) : AfterAnswers (stateOf (readStat chunks)) := by
  have hread : readStat chunks = finished (.ok response) (stateOf (readStat chunks)) :=
    eq_ok_of_value? h
  exact .read (.new _) _ hread trivial

omit [Host] in
/-- A stream that has read a response and a new one, which both go on with `NOOP`. -/
theorem readResponse_history_independent_noop : ∃ s t : PopStream,
    @AfterAnswers (.bare false) s ∧ @AfterAnswers (.bare false) t ∧ s ≠ t ∧
      ∀ stream, SameOutcome (@readResponse (.bare false) .noop { s with stream := stream })
        (@readResponse (.bare false) .noop { t with stream := stream }) := by
  let host : Host := .bare false
  have hstat : value? (readStat [ascii "+OK 1 2\r\n"]) = some (.stat ⟨⟨ascii "1"⟩, ⟨ascii "2"⟩⟩) := by
    decide +kernel
  have hs := readStat_answered hstat
  exact ⟨_, new ⟨[], [], false, none⟩, hs, .new _, by decide +kernel,
    readResponse_history_independent hs (.new _) (by decide +kernel) .noop (by decide +kernel)⟩

omit [Host] in
/-- The answer to `STAT` came in two chunks, and in between the parser asked for more
bytes than the answer to `NOOP` has. -/
theorem readResponse_history_dependent :
    ∃ (s t : PopStream) (command : Command) (stream : Transport),
      @AfterAnswers (.bare false) s ∧ @AfterAnswers (.bare false) t ∧
        s.buffer.cursor = t.buffer.cursor ∧
        s.buffer.inner.take s.buffer.cursor = t.buffer.inner.take t.buffer.cursor ∧
        s.queue = [] ∧ t.queue = [] ∧
        exit? (@readResponse (.bare false) command { s with stream := stream }) = some .pending ∧
        value? (@readResponse (.bare false) command { t with stream := stream }) =
          some (.message ⟨[]⟩) := by
  let host : Host := .bare false
  have hsplit : value? (readStat [ascii "+OK 1 ", ascii "2\r\n"]) =
      some (.stat ⟨⟨ascii "1"⟩, ⟨ascii "2"⟩⟩) := by decide +kernel
  have hwhole : value? (readStat [ascii "+OK 1 2\r\n"]) =
      some (.stat ⟨⟨ascii "1"⟩, ⟨ascii "2"⟩⟩) := by decide +kernel
  exact ⟨_, _, .noop, ⟨[.data (ascii "+OK\r\n")], [], false, none⟩, readStat_answered hsplit,
    readStat_answered hwhole, by decide +kernel⟩

end Pop.PopStream
