-- SUMMARY: Streams on which no call returns a response again, and the calls that lead there.
import GetEmail.Pop.Frame
import GetEmail.Pop.ParserKinds
import GetEmail.Pop.Sequential

/-!
# Stuck streams

An error of `read_response` that is not the server's leaves the command in the
queue. After a rejected response the buffer is blank as well, and every further
call rejects the blank. After a failed read, or a response that is too large, the
stream waits on, and the next read fails in the same way.
-/

namespace Pop.PopStream

open Exec
open Nom (Bytes Needed)

/-! ## What writing does not change -/

/-- Only the script and the record of the traffic differ, and a broken transport
stays broken. -/
structure SameReader (s s' : PopStream) : Prop where
  buffer : s'.buffer = s.buffer
  decodeNeeds : s'.decodeNeeds = s.decodeNeeds
  queue : s'.queue = s.queue
  sticky : s'.stream.sticky = s.stream.sticky
  broken : s.stream.broken ≠ none → s'.stream.broken ≠ none
  received : received s'.history = received s.history

theorem SameReader.supply (s : PopStream) (reads : List ReadEvent) (writes : List WriteEvent) :
    SameReader s (s.supply reads writes) :=
  ⟨rfl, rfl, rfl, rfl, fun h => h, rfl⟩

theorem Sent.sameReader {s s' : PopStream} {bytes : Bytes} (h : Sent s s' bytes)
    (hfailure : s'.stream.failure = s.stream.failure ∨ s'.stream.failure ≠ none) :
    SameReader s s' := by
  refine ⟨h.buffer, h.decodeNeeds, h.queue, h.after.sticky, fun hbroken => ?_, h.received_eq⟩
  simp only [Transport.broken, h.after.sticky] at hbroken ⊢
  cases hsticky : s.stream.sticky with
  | false => simp [hsticky] at hbroken
  | true =>
    simp only [hsticky, if_true] at hbroken ⊢
    rcases hfailure with heq | hne
    · exact heq ▸ hbroken
    · exact hne

/-- What depends on the reading side only is kept by writes. -/
theorem Sends.keeps {m : Exec Error PopStream Unit} {bytes : Bytes} (hm : Sends m bytes)
    {counts : Exit Error → Prop} {R : PopStream → Prop}
    (hR : ∀ s s', SameReader s s' → R s → R s') : Keeps counts R m := by
  refine .of_pre fun s hs => (hm s).consequence (fun _ h => h) ?_ ?_
  · intro _ s' ⟨hsent, hfailure⟩
    exact hR s s' (hsent.sameReader (.inl hfailure)) hs
  · intro x s' ⟨⟨sent, _, hsent⟩, hx⟩ _
    cases x with
    | pending => exact hR s s' (hsent.sameReader (.inl hx.2)) hs
    | error e =>
      obtain ⟨io, -, hfailed | ⟨hsame, -⟩⟩ := hx
      · exact hR s s' (hsent.sameReader (.inr (by simp [hfailed]))) hs
      · exact hR s s' (hsent.sameReader (.inl hsame)) hs
    | panicked => exact hx.elim

theorem Sends.keeps_line {m : Exec Error PopStream Unit} {bytes : Bytes} (hm : Sends m bytes)
    {counts : Exit Error → Prop} {R : PopStream → Prop}
    (hR : ∀ s s', SameReader s s' → R s → R s') (command : Command) (buf : Bytes) :
    Keeps counts R (do m; record (.line command buf)) :=
  .bind (hm.keeps hR) fun _ => .modify fun s hs =>
    hR s _ ⟨rfl, rfl, rfl, rfl, fun h => h, by simp⟩ hs

variable [Host]

/-! ## Waiting -/

/-- `decode` has no response, and leaves the stream as it is. -/
def Waits (s : PopStream) : Prop :=
  ∃ bytes, s.Holds bytes ∧ (bytes.length < s.decodeNeeds ∨ ∃ command queue needed,
    s.queue = command :: queue ∧ Parser.parse bytes command = .incomplete needed ∧
      s.decodeNeeds = asked bytes.length needed)

theorem Waits.decode {s : PopStream} (h : Waits s) : decode s = .ok none s := by
  obtain ⟨bytes, hs, hskip | ⟨command, queue, needed, hq, hparse, hneeds⟩⟩ := h
  · exact decode_skip (hs.cursor ▸ hskip)
  · rcases Nat.lt_or_ge s.buffer.cursor s.decodeNeeds with hskip | hle
    · exact decode_skip hskip
    · rw [decode_eq hle hq, if_neg (Nat.not_lt.mpr hs.le), hs.take, hparse, hs.cursor]
      simp only [← hneeds]

theorem Waits.of_decode {s s' : PopStream} {bytes : Bytes} (hs : s.Holds bytes)
    (h : PopStream.decode s = .ok none s') : Waits s' := by
  rcases decode_eq_none h with ⟨hskip, rfl⟩ | ⟨command, queue, needed, hq, hparse, rfl⟩
  · exact ⟨bytes, hs, .inl (hs.cursor ▸ hskip)⟩
  · rw [hs.take] at hparse
    exact ⟨bytes, hs, .inr ⟨command, queue, needed, hq, hparse, by rw [hs.cursor]⟩⟩

/-- More commands in the queue do not end the waiting. -/
theorem Waits.awaiting {s : PopStream} (h : Waits s) (command : Command) :
    Waits (s.awaiting command) := by
  obtain ⟨bytes, hs, hskip | ⟨command', queue, needed, hq, hparse, hneeds⟩⟩ := h
  · exact ⟨bytes, hs, .inl hskip⟩
  · exact ⟨bytes, hs, .inr ⟨command', queue ++ [command], needed, by simp [PopStream.awaiting, hq],
      hparse, hneeds⟩⟩

omit [Host] in
theorem SameReader.holds {s s' : PopStream} (h : SameReader s s') {bytes : Bytes}
    (hs : s.Holds bytes) : s'.Holds bytes := by
  obtain ⟨room, hs⟩ := hs
  exact ⟨room, h.buffer.trans hs⟩

theorem Waits.congr {s s' : PopStream} (hs : Waits s)
    (hholds : ∀ bytes, s.Holds bytes → s'.Holds bytes) (hneeds : s'.decodeNeeds = s.decodeNeeds)
    (hqueue : s'.queue = s.queue) : Waits s' := by
  obtain ⟨bytes, hbytes, hwhy⟩ := hs
  refine ⟨bytes, hholds bytes hbytes, ?_⟩
  rwa [hneeds, hqueue]

/-! ## Stuck -/

/-- What a rejected response leaves behind. -/
structure Rejected (s : PopStream) : Prop where
  queue : s.queue ≠ []
  needs : s.decodeNeeds ≤ s.buffer.cursor
  cursor : 0 < s.buffer.cursor
  blank : s.buffer.inner = zeroed Buffer.chunkSize

/-- The buffer cannot grow any more. -/
def Overfull (s : PopStream) : Prop :=
  Buffer.ensureCapacity s.decodeNeeds s.buffer = .error (.error Buffer.tooLarge) s.buffer

def Stuck (s : PopStream) : Prop :=
  Rejected s ∨ Waits s ∧ (Overfull s ∨ s.stream.broken ≠ none)

omit [Host] in
theorem SameReader.rejected {s s' : PopStream} (h : SameReader s s') (hs : Rejected s) :
    Rejected s' :=
  ⟨h.queue ▸ hs.queue, h.decodeNeeds ▸ h.buffer ▸ hs.needs, h.buffer ▸ hs.cursor,
    h.buffer ▸ hs.blank⟩

theorem SameReader.stuck {s s' : PopStream} (h : SameReader s s') (hs : Stuck s) : Stuck s' := by
  rcases hs with hrejected | ⟨hwaits, hwhy⟩
  · exact .inl (h.rejected hrejected)
  · refine .inr ⟨hwaits.congr (fun _ => h.holds) h.decodeNeeds h.queue,
      hwhy.imp (fun hfull => ?_) h.broken⟩
    rw [Overfull, h.decodeNeeds, h.buffer]
    exact hfull

theorem Stuck.awaiting {s : PopStream} (h : Stuck s) (command : Command) :
    Stuck (s.awaiting command) := by
  rcases h with hrejected | ⟨hwaits, hwhy⟩
  · exact .inl ⟨by simp [PopStream.awaiting], hrejected.needs, hrejected.cursor, hrejected.blank⟩
  · exact .inr ⟨hwaits.awaiting command, hwhy⟩

/-- How a call ends on a stream that is stuck. -/
def StuckExit (x : Exit Error) (s : PopStream) : Prop :=
  match x with
  | .error e => Stuck s ∧ ∀ text, e.kind ≠ .serverError text
  | _ => True

/-- Nothing parses from a blank buffer. -/
theorem Rejected.parse {s : PopStream} (h : Rejected s) (command : Command) :
    ∃ e, Parser.parse (s.buffer.inner.take s.buffer.cursor) command = .error e := by
  obtain ⟨n, hn⟩ := Nat.exists_eq_succ_of_ne_zero (Nat.pos_iff_ne_zero.mp h.cursor)
  have hblank : zeroed Buffer.chunkSize = 0 :: zeroed 2047 := rfl
  rw [h.blank, hn, hblank, List.take_succ_cons]
  exact Parser.parse_blank _ command

theorem Rejected.decode {s : PopStream} (h : Rejected s) :
    (∃ e, decode s = .error (.error (invalidResponse e)) s) ∨
      decode s = .error .panicked s := by
  obtain ⟨command, queue, hq⟩ := List.exists_cons_of_ne_nil h.queue
  have htaken : s.taken = s := by rw [taken, ← h.blank]
  rw [decode_eq h.needs hq, htaken]
  split
  · exact .inr rfl
  · obtain ⟨e, he⟩ := h.parse command
    rw [he]
    exact .inl ⟨e, rfl⟩

omit [Host] in
theorem Overfull.receive {s : PopStream} (h : Overfull s) :
    receive s = .error (.error Buffer.tooLarge) s := by
  unfold Overfull at h
  simp [PopStream.receive, onBuffer, zoom, h]

/-- A read that fails leaves a waiting stream stuck. -/
theorem receive_stuck {s s' : PopStream} {x : Exit Error} (hs : Waits s)
    (hsticky : s.stream.sticky = true ∨ Overfull s) (h : receive s = .error x s') :
    StuckExit x s' := by
  obtain ⟨bytes, ⟨room, hbuffer⟩, -⟩ := id hs
  have hcases := receive_cases hbuffer
  rw [h] at hcases
  cases hcases with
  | tooLarge hsize hgrow =>
    refine ⟨.inr ⟨hs, .inl ?_⟩, nofun⟩
    rw [Overfull, hbuffer, Buffer.ensureCapacity_holding, if_pos ⟨hsize, hgrow⟩]
  | blocked hbroken hreads => exact trivial
  | @failed e reads hwhy =>
    rcases hsticky with hsticky | hfull
    · refine ⟨.inr ⟨hs.congr ?_ rfl rfl, .inr ?_⟩, nofun⟩
      · rintro bytes' ⟨room', hbuffer'⟩
        obtain rfl : bytes = bytes' := by
          simpa [hbuffer, Buffer.holding_cursor] using congrArg (fun b => b.inner.take b.cursor)
            (hbuffer.symm.trans hbuffer')
        exact ⟨_, rfl⟩
      · simp [Transport.broken, hsticky]
    · simp [hfull.receive, Buffer.tooLarge, Error.ofIo] at h

theorem Stuck.next {s : PopStream} (h : Stuck s) :
    ∃ x s', next s = .error x s' ∧ StuckExit x s' := by
  rcases h with hrejected | ⟨hwaits, hwhy⟩
  · rcases hrejected.decode with ⟨e, he⟩ | hpanics
    · refine ⟨.error (invalidResponse e), s, ?_, .inl hrejected, nofun⟩
      simp [PopStream.next, he]
    · refine ⟨.panicked, s, ?_, trivial⟩
      simp [PopStream.next, hpanics]
  · obtain ⟨bytes, hbytes, -⟩ := id hwaits
    have hreceive : ∃ x s', receive s = .error x s' := by
      rcases hwhy with hfull | hbroken
      · exact ⟨_, _, hfull.receive⟩
      · obtain ⟨room, hbuffer⟩ := hbytes
        have hcases := receive_cases hbuffer
        generalize receive s = r at hcases
        cases hcases with
        | woken hnone => exact absurd hnone hbroken
        | ready hnone => exact absurd hnone hbroken
        | _ => exact ⟨_, _, rfl⟩
    obtain ⟨x, s', hx⟩ := hreceive
    refine ⟨x, s', (next_polls hbytes).unique (.stop hwaits.decode hx), receive_stuck hwaits ?_ hx⟩
    refine hwhy.symm.imp (fun hbroken => ?_) id
    by_contra hsticky
    simp [Transport.broken, hsticky] at hbroken

/-- On a stuck stream no call returns a response. -/
theorem readResponse_stuck (command : Command) :
    Triple Stuck (readResponse command) (fun _ _ => False) StuckExit := by
  intro s hs
  obtain ⟨x, s', hnext, hx⟩ := (hs.awaiting command).next
  rw [readResponse_eq, hnext]
  exact hx

/-! ## Idle -/

/-- Nothing is awaited. -/
def Idle (s : PopStream) : Prop :=
  s.queue = [] ∧ ∃ bytes, s.Holds bytes ∧ bytes <:+ received s.history

omit [Host] in
theorem new_idle (t : Transport) : Idle (new t) := ⟨rfl, [], new_holds t, List.nil_suffix⟩

omit [Host] in
theorem SameReader.idle {s s' : PopStream} (h : SameReader s s') (hs : Idle s) : Idle s' := by
  obtain ⟨hqueue, bytes, hbytes, hreceived⟩ := hs
  exact ⟨h.queue.trans hqueue, bytes, h.holds hbytes, h.received ▸ hreceived⟩

theorem Decodes.framed {accepts : Command → Prop} {P : PopStream → Prop} (hP : Framed accepts P)
    {s t : PopStream} (ht : Decodes s t) (hs : P s) : P t := by
  induction ht with
  | start => exact hs
  | again _ hdecode hreceive ih =>
    have hdecodes : Keeps (fun _ => True) P PopStream.decode := decode_keeps hP
    have hreceives : Keeps (fun _ => True) P receive := receive_keeps hP.toReading
    exact hreceives.ok (hdecodes.ok ih hdecode) hreceive

/-- After `history`, the response to `command` was parsed from received bytes, last of
all. -/
def Responds (history : List Event) (s : PopStream) (command : Command) (response : Response) :
    Prop :=
  ∃ before input rest, history <+: before ∧ s.history = before ++ [.answered command response] ∧
    input <:+ received before ∧ Parser.parse input command = .ok rest response

/-- An idle stream that has answered a call is idle. -/
theorem readResponse_idle {s s' : PopStream} {command : Command} {answer : Except Error Response}
    (hs : Idle s) (h : readResponse command s = finished answer s') (hanswer : Answered answer) :
    Idle s' ∧ ∃ response, answer = deliver response ∧ Responds s.history s' command response := by
  obtain ⟨hqueue, bytes, hbytes, hsuffix⟩ := hs
  obtain ⟨response, hpolls, rfl⟩ := (readResponse_finished hbytes hanswer).mp h
  obtain ⟨t, ht, hends⟩ := hpolls.last
  obtain ⟨new, hnew, hreceived, hqueue'⟩ := ht.holds hbytes
  obtain ⟨command', queue, rest, hq, hparse, hrest, rfl⟩ := decode_eq_some hends
  obtain ⟨rfl, rfl⟩ : command' = command ∧ queue = [] := by
    simpa [hqueue', awaiting, hqueue] using hq.symm
  rw [hnew.take] at hparse
  have hinput : bytes ++ new <:+ received t.history := by
    rw [hreceived]
    exact (List.suffix_append_self_iff ..).mpr hsuffix
  have hhistory : s.history <+: t.history :=
    ht.framed (framed_history s.history) List.prefix_rfl
  refine ⟨⟨rfl, rest, ⟨_, rfl⟩, ?_⟩, response, rfl, _, _, rest, hhistory, rfl, hinput, hparse⟩
  simpa using ((Parser.parse_stable _).suffix hparse).trans hinput

/-- The error of `decode` for a response that it rejects. -/
theorem decode_rejected {s s' : PopStream} {e : Error} (hq : s.queue ≠ [])
    (h : decode s = .error (.error e) s') :
    Rejected s' ∧ s' = s.taken ∧ ∃ e', e = invalidResponse e' := by
  rcases decode_eq_error h with ⟨hnil, -⟩ | ⟨command, queue, hqueue, hneeds, hcases⟩
  · exact absurd hnil hq
  · cases hcases with
    | @rejected e hparse =>
      refine ⟨⟨hq, hneeds, ?_, rfl⟩, rfl, e, rfl⟩
      -- The parser rejects nothing before the first byte.
      by_contra hcursor
      have hzero : s.buffer.cursor = 0 := by simpa [taken] using hcursor
      simp [hzero, Parser.parse_nil] at hparse

/-- An idle stream is stuck after an error that is not the server's. -/
theorem readResponse_idle_error {s s' : PopStream} {command : Command} {e : Error} (hs : Idle s)
    (hsticky : s.stream.sticky = true) (h : readResponse command s = .error (.error e) s')
    (he : ∀ text, e.kind ≠ .serverError text) : Stuck s' := by
  obtain ⟨hqueue, bytes, hbytes, -⟩ := hs
  have hpolls := next_polls (s := s.awaiting command) hbytes
  rw [readResponse_eq] at h
  cases hnext : next (s.awaiting command) with
  | ok response s'' =>
    rw [hnext] at h
    have hdeliver : deliver response = .error e := ((finished_inj (b := .error e)).mp h).1
    have hanswer := deliver_answered response
    rw [hdeliver] at hanswer
    obtain ⟨text, htext⟩ := hanswer
    exact absurd htext (he text)
  | error x s'' =>
    rw [hnext] at h hpolls
    cases h
    obtain ⟨t, ht, hends⟩ := hpolls.last
    obtain ⟨new, hnew, -, hqueue'⟩ := ht.holds hbytes
    rcases hends with hdecode | ⟨t', hdecode, hreceive⟩
    · have hne : t.queue ≠ [] := by simp [hqueue', awaiting]
      exact .inl (decode_rejected hne hdecode).1
    · have hstream := (decode_none_holds hnew hdecode).2.2.1
      have hsticky' : t'.stream.sticky = true := hstream ▸ ht.framed (framed_sticky true) hsticky
      exact (receive_stuck (.of_decode hnew hdecode) (.inl hsticky') hreceive).1

/-! ## The invariant of a stream whose failures last -/

/-- Between calls that came to an end. -/
def Sound (s : PopStream) : Prop := s.stream.sticky = true ∧ (Idle s ∨ Stuck s)

theorem SameReader.sound {s s' : PopStream} (h : SameReader s s') (hs : Sound s) : Sound s' :=
  ⟨h.sticky.trans hs.1, hs.2.imp h.idle h.stuck⟩

theorem readResponse_sound (command : Command) :
    Keeps Exit.IsError Sound (readResponse command) := by
  intro s hs
  have hkeeps : Keeps (fun _ => True) (fun s => s.stream.sticky = true) (readResponse command) :=
    readResponse_keeps (framed_sticky true) trivial
  have hsticky := hkeeps s hs.1
  have hstuck := readResponse_stuck command s
  cases hread : readResponse command s with
  | ok response s' =>
    rw [hread] at hsticky hstuck
    refine ⟨hsticky, .inl ?_⟩
    rcases hs.2 with hidle | hs
    · have hfinished : readResponse command s = finished (.ok response) s' := hread
      exact (readResponse_idle hidle hfinished trivial).1
    · exact (hstuck hs).elim
  | error x s' =>
    rw [hread] at hsticky hstuck
    cases x with
    | error e =>
      refine fun _ => ⟨hsticky trivial, ?_⟩
      rcases hs.2 with hidle | hstuck'
      · by_cases he : ∃ text, e.kind = .serverError text
        · have hfinished : readResponse command s = finished (.error e) s' := hread
          exact .inl (readResponse_idle hidle hfinished he).1
        · exact .inr (readResponse_idle_error hidle hs.1 hread fun text htext => he ⟨text, htext⟩)
      · exact .inr (hstuck hstuck').1
    | pending => exact False.elim
    | panicked => exact False.elim

theorem sound_keep : Connection.Keep Exit.IsError Sound :=
  ⟨fun _ => (encode_sends _).keeps_line (fun _ _ h => h.sound) _ _,
    fun _ => (sendBytes_sends _).keeps_line (fun _ _ h => h.sound) _ _, readResponse_sound⟩

end Pop.PopStream
