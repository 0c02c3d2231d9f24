-- SUMMARY: When a call returns on a connection that the server has closed.
import GetEmail.Pop.Allocation
import GetEmail.Pop.Ending

/-!
# Closed connections

On a connection that the server has closed every read succeeds with no bytes.
`poll_next` takes such a read for progress and goes on reading. So a call returns
only if the parser has an answer to what the buffer can hold of the delivery, and asks
for nothing behind it, or if the buffer overflows.
-/

namespace Pop

open Exec
open Nom (Bytes ascii)

variable [Host]

namespace PopStream

/-! ## How a call ends -/

/-- What follows the response fits the new buffer, and the trace line can be
printed. -/
def Readable (seen rest : Bytes) : Prop :=
  rest.length ≤ Buffer.chunkSize ∧ (Host.traceEnabled → Utf8.valid seen)

instance (seen rest : Bytes) : Decidable (Readable seen rest) :=
  inferInstanceAs (Decidable (_ ∧ _))

inductive Concludes (command : Command) : Ending → Outcome → Prop where
  | accepted {seen rest : Bytes} {response : Response} {s' : PopStream}
      (hparse : Parser.parse seen command = .ok rest response) (hread : Readable seen rest) :
      Concludes command (.decided seen) (.ok response s')
  | panicked {seen rest : Bytes} {response : Response} {s' : PopStream}
      (hparse : Parser.parse seen command = .ok rest response) (hread : ¬ Readable seen rest) :
      Concludes command (.decided seen) (.error .panicked s')
  | rejected {seen : Bytes} {e : Nom.ParseError} {s' : PopStream}
      (hparse : Parser.parse seen command = .error e) :
      Concludes command (.decided seen) (.error (.error (invalidResponse e)) s')
  | full {s' : PopStream} : Concludes command .full (.error (.error Buffer.tooLarge) s')
  | unfinished {s' : PopStream} : Concludes command .unfinished (.error .pending s')

theorem Follows.decode {s : PopStream} {command : Command} {queue : CommandQueue} {d : Delivery}
    (h : Follows s (command :: queue) d) :
    (∃ s₁ d₁, d.decode command = some d₁ ∧ PopStream.decode s = .ok none s₁ ∧
        Follows s₁ (command :: queue) d₁) ∨
      d.decode command = none ∧ ∃ r, Polls s r ∧ Concludes command (.decided d.seen) r := by
  have hholds : s.Holds d.seen := ⟨_, h.buffer⟩
  by_cases hskip : d.seen.length < d.needs
  · refine .inl ⟨s, d, by simp [Delivery.decode, hskip], decode_skip ?_, h⟩
    rw [hholds.cursor, h.needs]
    exact hskip
  have hcases := decode_command (s := s) (by rw [hholds.cursor, h.needs]; omega) h.queue
  have hvalid : Utf8.valid s.buffer.inner = Utf8.valid d.seen := by
    rw [h.buffer]
    exact Utf8.valid_append_zeros _ _
  generalize hdecode : PopStream.decode s = r at hcases
  cases hcases with
  | overrun hlen => exact absurd hholds.le (Nat.not_le.mpr hlen)
  | accepted hparse htrace hrest =>
    rw [hholds.take] at hparse
    refine .inr ⟨by simp [Delivery.decode, hskip, hparse], _, .done hdecode, .accepted hparse ?_⟩
    exact ⟨hrest, hvalid ▸ htrace⟩
  | untraceable hparse htrace =>
    rw [hholds.take] at hparse
    refine .inr ⟨by simp [Delivery.decode, hskip, hparse], _, .exit hdecode, .panicked hparse ?_⟩
    exact fun hread => htrace (hvalid ▸ hread.2)
  | overflow hparse hrest =>
    rw [hholds.take] at hparse
    refine .inr ⟨by simp [Delivery.decode, hskip, hparse], _, .exit hdecode, .panicked hparse ?_⟩
    exact fun hread => absurd hread.1 (Nat.not_le.mpr hrest)
  | @incomplete needed hparse =>
    rw [hholds.take] at hparse
    refine .inl ⟨_, _, by simp only [Delivery.decode, hskip, hparse, if_false]; rfl, rfl, ?_⟩
    exact ⟨h.buffer, by rw [hholds.cursor], h.queue, h.stream, h.fits, h.bounded⟩
  | rejected hparse =>
    rw [hholds.take] at hparse
    exact .inr ⟨by simp [Delivery.decode, hskip, hparse], _, .exit hdecode, .rejected hparse⟩

/-- Polling ends as the delivery does. -/
theorem Follows.concludes {s : PopStream} {command : Command} {queue : CommandQueue} {d : Delivery}
    {fuel : Nat} (h : Follows s (command :: queue) d) (hfuel : d.reads < fuel) :
    ∃ r, Polls s r ∧ Concludes command (d.endingWithin command fuel) r := by
  induction fuel generalizing s d with
  | zero => exact absurd hfuel (Nat.not_lt_zero _)
  | succ fuel ih =>
    rcases h.decode with ⟨s₁, d₁, hd, hdecode, h₁⟩ | ⟨hd, hanswer⟩
    · simp only [Delivery.endingWithin, hd]
      obtain ⟨-, -, hsame, -⟩ := Delivery.decode_spec hd
      rcases h₁.receive with ⟨hfull, hreceive⟩ | ⟨hfull, hread, s₂, hreceive⟩ |
        ⟨hfull, s₂, d₂, hread, hreceive, h₂⟩
      · rw [if_pos hfull]
        exact ⟨_, .stop hdecode hreceive, .full⟩
      · rw [if_neg hfull, hread]
        exact ⟨_, .stop hdecode hreceive, .unfinished⟩
      · have hless := (Delivery.read_fits hread h₁.fits).2
        have hreads : d₁.reads = d.reads := by simp [Delivery.reads, hsame]
        obtain ⟨r, hr, hconcludes⟩ := ih h₂ (by omega)
        rw [if_neg hfull, hread]
        exact ⟨r, .again hdecode hreceive hr, hconcludes⟩
    · simp only [Delivery.endingWithin, hd]
      exact hanswer

/-! ## Calls on a connection that closes -/

/-- An exit of a call without an error: it was dropped while it waited, or the server has
answered with an error. -/
def Unfailed : Exit Error → Prop
  | .error e => ∃ text, e.kind = .serverError text
  | .pending => True
  | .panicked => False

/-- The streams that calls without an error lead to. Any of the calls may have been dropped,
and the transport may go on with other events at any time. -/
inductive Reached : PopStream → Prop where
  | new (stream : Transport) : Reached (new stream)
  | supply {s : PopStream} (h : Reached s) (reads : List ReadEvent) (writes : List WriteEvent) :
      Reached (s.supply reads writes)
  /-- `encode` sends the line of a request. -/
  | sendBytes {s : PopStream} (h : Reached s) (buf : Bytes)
      (hsend : ∀ x, exit? (PopStream.sendBytes buf s) = some x → Unfailed x) :
      Reached (stateOf (PopStream.sendBytes buf s))
  | readResponse {s : PopStream} (h : Reached s) (command : Command)
      (hread : ∀ x, exit? (PopStream.readResponse command s) = some x → Unfailed x) :
      Reached (stateOf (PopStream.readResponse command s))

theorem decode_ne_pending {s s' : PopStream} : decode s ≠ .error .pending s' := by
  intro h
  rcases decode_eq_error h with ⟨-, hx, -⟩ | ⟨command, queue, -, -, hcases⟩
  · cases hx
  · cases hcases

/-- Polling that ends with a response, or waits, leaves a buffer of whole chunks. -/
theorem Polls.allocated {s : PopStream} {r : Outcome} (h : Polls s r) (hs : Allocated s)
    (hr : ∀ x, exit? r = some x → x = .pending) : Allocated (stateOf r) := by
  obtain ⟨t, ht, hends⟩ := h.last
  have ht := ht.allocated hs
  cases r with
  | ok response s' =>
    obtain ⟨command, queue, rest, -, -, hrest, rfl⟩ := decode_eq_some hends
    refine ⟨rest, _, rfl, ?_⟩
    rw [Nat.add_sub_cancel' hrest]
    exact ⟨Nat.dvd_refl _, by decide⟩
  | error x s' =>
    obtain rfl := hr x rfl
    rcases hends with hdecode | ⟨t', hdecode, hreceive⟩
    · exact absurd hdecode decode_ne_pending
    · refine (receive_stays_allocated ?_).2 s' hreceive
      rcases decode_eq_none hdecode with ⟨-, rfl⟩ | ⟨_, _, _, -, -, rfl⟩ <;> exact ht

/-- The buffer consists of whole chunks, and no more than a buffer may have. -/
theorem Reached.allocated {s : PopStream} (h : Reached s) : Allocated s := by
  induction h with
  | new stream => exact ⟨[], Buffer.chunkSize, rfl, Nat.dvd_refl _, by decide⟩
  | supply _ reads writes ih => exact ih
  | sendBytes _ buf _ ih =>
    refine Triple.stateOf ((sendBytes_sends buf).keeps_sent (R := Allocated) ?_) ih
    rintro s s' sent hsent ⟨bytes, room, hbuffer, hsize⟩
    exact ⟨bytes, room, hsent.buffer.trans hbuffer, hsize⟩
  | @readResponse s _ command hread ih =>
    obtain ⟨bytes, hholds⟩ := ih.holds
    have hpolls : Polls (s.awaiting command) _ := next_polls hholds
    rw [readResponse_eq] at hread ⊢
    cases hnext : next (s.awaiting command) with
    | ok response s' =>
      rw [hnext] at hpolls
      rw [stateOf_finished]
      exact hpolls.allocated ih nofun
    | error x s' =>
      rw [hnext] at hpolls hread
      have hunfailed := hread x rfl
      refine hpolls.allocated ih ?_
      rintro _ ⟨⟩
      cases x with
      | pending => rfl
      | panicked => exact hunfailed.elim
      | error e =>
        obtain ⟨text, htext⟩ := hunfailed
        obtain ⟨t, ht, hends⟩ := hpolls.last
        obtain ⟨new, hnew, -⟩ := ht.holds hholds
        exact absurd htext (hends.kind hnew text)

/-- The command whose response is due, when this one is given -/
def due (s : PopStream) (command : Command) : Command := s.queue.head?.getD command

omit [Host] in
theorem due_spec (s : PopStream) (command : Command) :
    ∃ queue, (s.awaiting command).queue = s.due command :: queue := by
  cases hqueue : s.queue with
  | nil => exact ⟨[], by simp [awaiting, due, hqueue]⟩
  | cons first queue => exact ⟨queue ++ [command], by simp [awaiting, due, hqueue]⟩

/-- The delivery of the chunks to a stream. -/
def delivery (s : PopStream) (chunks : List Bytes) : Delivery :=
  ⟨s.buffer.inner.take s.buffer.cursor, s.buffer.inner.length, s.decodeNeeds, chunks⟩

/-- The transport delivers the chunks, and then `n` reads find the end of the
stream. -/
def closing (s : PopStream) (chunks : List Bytes) (n : Nat) : PopStream :=
  { s with stream := delivering (chunks ++ List.replicate n []) }

/-- The call ends after finitely many reads: with the response if the bytes that are
there complete the one that is due, and otherwise with an error. -/
def Returns (s : PopStream) (command : Command) (chunks : List Bytes) : Prop :=
  ∃ n answer s', readResponse command (s.closing chunks n) = finished answer s' ∧
    match Parser.parse (s.buffer.inner.take s.buffer.cursor ++ chunks.flatten) (s.due command) with
    | .ok _ response => answer = deliver response
    | _ => ∃ e, answer = .error e

omit [Host] in
theorem Allocated.delivery {s : PopStream} (hs : Allocated s) (chunks : List Bytes) :
    (s.delivery chunks).Sound ∧ s.buffer = .holding (s.delivery chunks).seen
      ((s.delivery chunks).size - (s.delivery chunks).seen.length) := by
  obtain ⟨bytes, room, hbuffer, haligned, hmax⟩ := hs
  have hseen : (s.delivery chunks).seen = bytes := by simp [PopStream.delivery, hbuffer]
  have hsize : (s.delivery chunks).size = bytes.length + room := by
    simp [PopStream.delivery, hbuffer]
  refine ⟨⟨?_, hsize ▸ haligned, hsize ▸ hmax⟩, ?_⟩
  · rw [hseen, hsize]
    omega
  · rw [hseen, hsize, Nat.add_sub_cancel_left, hbuffer]

theorem Reached.concludes {s : PopStream} (hs : Reached s) (command : Command)
    (chunks : List Bytes) (n : Nat) :
    Concludes (s.due command) ((s.delivery chunks).ending (s.due command))
      (next ((s.closing chunks n).awaiting command)) := by
  obtain ⟨bytes, hholds⟩ := hs.allocated.holds
  obtain ⟨hsound, hbuffer⟩ := hs.allocated.delivery chunks
  obtain ⟨queue, hqueue⟩ := due_spec s command
  have hfollows : Follows ((s.closing chunks n).awaiting command) (s.due command :: queue)
      ((s.delivery chunks).closing n) :=
    ⟨hbuffer, rfl, hqueue, rfl, hsound.fits, hsound.bounded⟩
  obtain ⟨r, hpolls, hconcludes⟩ := hfollows.concludes (Nat.lt_succ_self _)
  rw [Delivery.endingWithin_closing n hsound.fits (Nat.lt_succ_self _) (Nat.lt_succ_self _)]
    at hconcludes
  have hnext : Polls ((s.closing chunks n).awaiting command) _ := next_polls hholds
  rwa [hnext.unique hpolls]

/-- The delivery ends the call: the parser answers, and an accepted answer can be
delivered, or the bytes outgrow the buffer and are no response. -/
def Resolved (command : Command) (d : Delivery) : Prop :=
  match d.ending command with
  | .decided seen => ∀ rest ∈ (Parser.parse seen command).rest?, Readable seen rest
  | .full => (Parser.parse d.total command).rest? = none
  | .unfinished => False

/-- What `read_response` makes of the outcome of polling. -/
def returned : Outcome → Outcome
  | .ok response s => finished (deliver response) s
  | .error x s => .error x s

theorem readResponse_returned (command : Command) (s : PopStream) :
    readResponse command s = returned (next (s.awaiting command)) := readResponse_eq command s

omit [Host] in
theorem deliver_ne_tooLarge (response : Response) : deliver response ≠ .error Buffer.tooLarge := by
  cases response <;> simp [deliver, Buffer.tooLarge]

/-- A call that is over has settled the delivery. -/
theorem Concludes.resolved {command : Command} {d : Delivery} {r : Outcome}
    (h : Concludes command (d.ending command) r) {answer : Except Error Response} {s' : PopStream}
    (hr : returned r = finished answer s')
    (hanswer : ∀ rest response, Parser.parse (d.total) command =
      .ok rest response → answer = deliver response) : Resolved command d := by
  unfold Resolved
  generalize d.ending command = ending at h ⊢
  cases h with
  | accepted hparse hread => simpa [hparse, Nom.IResult.rest?] using hread
  | panicked hparse hread => cases answer <;> cases hr
  | rejected hparse => simp [hparse, Nom.IResult.rest?]
  | full =>
    have herror : answer = .error Buffer.tooLarge := by
      cases answer <;> cases hr
      rfl
    cases hparse : Parser.parse (d.total) command with
    | ok rest response =>
      exact absurd ((hanswer rest response hparse).symm.trans herror) (deliver_ne_tooLarge response)
    | _ => simp [Nom.IResult.rest?]
  | unfinished => cases answer <;> cases hr

/-- On a delivery that is settled, the call is over. -/
theorem Concludes.returns {command : Command} {d : Delivery} {r : Outcome}
    (h : Concludes command (d.ending command) r) (hsound : d.Sound) (hd : Resolved command d) :
    ∃ answer s', returned r = finished answer s' ∧
      match Parser.parse (d.total) command with
      | .ok _ response => answer = deliver response
      | _ => ∃ e, answer = .error e := by
  have hjustified := Delivery.endingWithin_justified command hsound (Nat.lt_succ_self _)
  rw [← Delivery.ending] at hjustified
  have hstable := Parser.parse_stable command
  unfold Resolved at hd
  generalize d.ending command = ending at h hd hjustified
  cases h with
  | @accepted seen rest response s' hparse hread =>
    obtain ⟨-, -, ⟨more, hmore⟩, -⟩ := hjustified
    refine ⟨deliver response, s', rfl, ?_⟩
    rw [← hmore, hstable.ok hparse more]
  | panicked hparse hread =>
    exact absurd (by simpa [hparse, Nom.IResult.rest?] using hd) hread
  | @rejected seen e s' hparse =>
    obtain ⟨-, -, ⟨more, hmore⟩, -⟩ := hjustified
    obtain ⟨e', he'⟩ := hstable.error hparse more
    refine ⟨.error (invalidResponse e), s', rfl, ?_⟩
    rw [← hmore, he']
    exact ⟨_, rfl⟩
  | @full s' =>
    refine ⟨.error Buffer.tooLarge, s', rfl, ?_⟩
    split
    · next hparse => simp [hparse, Nom.IResult.rest?] at hd
    · exact ⟨_, rfl⟩
  | unfinished => exact hd.elim

/-- The delivered bytes have an answer. The parser answers on what a buffer can hold of them
and asks for nothing behind it, and what it accepts can be delivered; or that is not so, and
the bytes that come or are asked for outgrow the buffer, and are no response. -/
def Conclusive (command : Command) (d : Delivery) : Prop :=
  if Delivery.Settles command (d.total.take Buffer.maxSize) (d.requests command) then
    ∀ x ∈ d.attempts command, ∀ rest ∈ (Parser.parse x command).rest?, Readable x rest
  else
    Delivery.Outgrows d.total (d.requests command) ∧ (Parser.parse d.total command).rest? = none

instance (command : Command) (d : Delivery) : Decidable (Conclusive command d) :=
  inferInstanceAs (Decidable (if Delivery.Settles command (d.total.take Buffer.maxSize)
    (d.requests command) then _ else _))

/-- What the parser answers on a part, it answers on the whole. -/
theorem settles_append {command : Command} {seen bytes : Bytes} {requests : List Nat}
    (h : Delivery.Settles command seen requests) (hpre : seen <+: bytes) :
    Delivery.Settles command bytes requests := by
  obtain ⟨more, rfl⟩ := hpre
  refine ⟨(Parser.parse_stable command).needed? h.1 more, fun n hn => (h.2 n hn).trans ?_⟩
  rw [List.length_append]
  omega

/-- The prefixes that are tried tell how a delivery ends. -/
theorem resolved_iff (command : Command) {d : Delivery} (hd : d.Sound) :
    Resolved command d ↔ Conclusive command d := by
  have hjustified := Delivery.endingWithin_justified command hd (Nat.lt_succ_self _)
  rw [← Delivery.ending] at hjustified
  rw [Resolved, Conclusive, Delivery.requests, Delivery.attempts]
  generalize d.ending command = ending at hjustified ⊢
  cases ending with
  | decided seen =>
    obtain ⟨hmem, -, hwhole, hmax, hsettles, honly⟩ := hjustified
    rw [if_pos (settles_append hsettles (List.prefix_take_iff.mpr ⟨hwhole, hmax⟩))]
    refine ⟨fun h x hx rest hrest => ?_, fun h => h seen hmem⟩
    obtain ⟨response, hparse⟩ := Nom.IResult.rest?_eq_some.mp hrest
    obtain rfl := honly x hx (by rw [hparse]; rfl)
    exact h rest hrest
  | full => rw [if_neg hjustified.1, and_iff_right hjustified.2]
  | unfinished =>
    rw [if_neg hjustified.1]
    exact iff_of_false id fun h => hjustified.2 h.1

/-- On a connection that closes, a call returns what it should exactly when the
delivered bytes have an answer. -/
theorem returns_iff {s : PopStream} (hs : Reached s) (command : Command) (chunks : List Bytes) :
    Returns s command chunks ↔ Conclusive (s.due command) (s.delivery chunks) := by
  have hsound := (hs.allocated.delivery chunks).1
  rw [← resolved_iff _ hsound]
  constructor
  · rintro ⟨n, answer, s', hread, hanswer⟩
    rw [readResponse_returned] at hread
    refine (hs.concludes command chunks n).resolved hread fun rest response hparse => ?_
    simp only [Delivery.total, delivery] at hparse
    simpa only [hparse] using hanswer
  · intro hd
    obtain ⟨answer, s', hread, hanswer⟩ := (hs.concludes command chunks 0).returns hsound hd
    exact ⟨0, answer, s', (readResponse_returned _ _).trans hread, hanswer⟩

omit [Host] in
/-- The answer to STAT is cut off, and comes in full when the next command is given. -/
theorem returns_iff_stat :
    let s := stateOf (@readResponse (.bare false) .stat (new (delivering [ascii "+OK 1"])))
    s.queue = [.stat] ∧ @Returns (.bare false) (s.supply [] []) .noop [ascii " 2\r\n"] := by
  let host : Host := .bare false
  have hdropped : ∀ x, exit? (readResponse .stat (new (delivering [ascii "+OK 1"]))) = some x →
      Unfailed x := by
    have hpending : exit? (readResponse .stat (new (delivering [ascii "+OK 1"]))) = some .pending := by
      decide +kernel
    rw [hpending]
    rintro x ⟨⟩
    trivial
  exact ⟨by decide +kernel, (returns_iff (.supply (.readResponse (.new _) .stat hdropped) [] []) .noop
    [ascii " 2\r\n"]).mpr (by decide +kernel)⟩

omit [Host] in
/-- A response that is cut off is waited for, however often the end of the stream is
read. -/
theorem stat_cut_off : @Reached (.bare false) (new (delivering [])) ∧
    ¬ @Returns (.bare false) (new (delivering [])) .stat [ascii "+OK 1"] := by
  let host : Host := .bare false
  refine ⟨.new _, ?_⟩
  rintro ⟨n, answer, s', hread, -⟩
  have hconcludes := (Reached.new (delivering [])).concludes .stat [ascii "+OK 1"] n
  have hending : ((new (delivering [])).delivery [ascii "+OK 1"]).ending .stat = .unfinished := by
    decide +kernel
  have hdue : (new (delivering [])).due .stat = .stat := rfl
  rw [readResponse_returned] at hread
  rw [hdue, hending] at hconcludes
  generalize next _ = r at hconcludes hread
  cases hconcludes
  cases answer <;> cases hread

end PopStream

end Pop
