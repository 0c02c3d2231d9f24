-- SUMMARY: The limit on the size of a reply to RETR or TOP, for every delivery of it.
import GetEmail.Nom.Asks
import GetEmail.Pop.Closing
import GetEmail.Pop.Rfc822

/-!
# The size of a message

The buffer grows in chunks until the reply has arrived in full, up to a limit. As long
as a part of the reply is there the parser waits, and it never waits for bytes behind
the end. So whether the reply is too large depends on its length alone.
-/

namespace Pop

open Exec
open Nom (Bytes Needed ascii crlf AsksAtMost IResult)

variable [Host]

/-! ## Replies that arrive in full -/

/-- The parser waits on each proper part of `w`, but for no bytes behind the end. -/
def Gradual (command : Command) (w : Bytes) : Prop :=
  ∀ x, x <+: w → x ≠ w → ∃ needed, Parser.parse x command = .incomplete needed ∧
    PopStream.asked x.length needed ≤ w.length

/-- What fits the buffer is read to its end. -/
theorem Delivery.endingWithin_whole {command : Command} {w rest : Bytes} {response : Response}
    (hgradual : Gradual command w) (hparse : Parser.parse w command = .ok rest response)
    (hmax : w.length ≤ Buffer.maxSize) {fuel : Nat} {d : Delivery} (hd : d.Sound)
    (htotal : d.total = w) (hneeds : d.needs ≤ w.length) (hfuel : d.reads < fuel) :
    d.endingWithin command fuel = .decided w := by
  have hpart {x : Bytes} (hx : x <+: w) (hanswer : (Parser.parse x command).needed? = none) :
      x = w := by
    by_contra hne
    obtain ⟨needed, hincomplete, -⟩ := hgradual x hx hne
    rw [hincomplete] at hanswer
    cases hanswer
  have hsettles : Settles command (d.total.take Buffer.maxSize) (d.requestsWithin command fuel) := by
    rw [htotal, List.take_of_length_le hmax]
    refine ⟨by rw [hparse]; rfl, fun n hn => ?_⟩
    rcases List.mem_cons.mp hn with rfl | hn
    · exact hneeds
    · obtain ⟨x, hx, hrequest⟩ := List.mem_filterMap.mp hn
      obtain ⟨needed, hneeded, rfl⟩ := Option.map_eq_some_iff.mp hrequest
      have hincomplete := Nom.IResult.needed?_eq_some.mp hneeded
      have hpre := htotal ▸ triedWithin_prefix hx
      obtain ⟨needed', hincomplete', hasked⟩ := hgradual x hpre (by
        rintro rfl
        rw [hparse] at hincomplete
        cases hincomplete)
      obtain rfl : needed = needed' := by simpa [hincomplete] using hincomplete'
      exact hasked
  have hjustified := endingWithin_justified command hd hfuel
  cases hending : d.endingWithin command fuel with
  | decided seen =>
    rw [hending] at hjustified
    obtain ⟨-, -, hwhole, -, hanswered, -⟩ := hjustified
    rw [hpart (htotal ▸ hwhole) hanswered.1]
  | full =>
    rw [hending] at hjustified
    exact absurd hsettles hjustified.1
  | unfinished =>
    rw [hending] at hjustified
    exact absurd hsettles hjustified.1

namespace PopStream

/-- What the parser waits on until the buffer is full is too large, and the buffer is
left within its limit. -/
theorem Follows.outgrows {command : Command} {w : Bytes}
    (hincomplete : ∀ x, x <+: w → x.length ≤ Buffer.maxSize →
      ∃ needed, Parser.parse x command = .incomplete needed)
    (hmax : Buffer.maxSize < w.length) {fuel : Nat} {s : PopStream} {d : Delivery}
    (h : Follows s [command] d) (hrest : d.seen ++ d.coming.flatten = w) (hfuel : d.reads < fuel) :
    ∃ s' d', Polls s (.error (.error Buffer.tooLarge) s') ∧ Follows s' [command] d' ∧ d'.seen <+: w := by
  induction fuel generalizing s d with
  | zero => exact absurd hfuel (Nat.not_lt_zero _)
  | succ fuel ih =>
    have hpart : d.seen.length ≤ Buffer.maxSize := h.fits.trans h.bounded
    rcases h.decode with ⟨s₁, d₁, hd, hdecode, h₁⟩ | ⟨hd, -⟩
    · obtain ⟨hseen, -, hsame, -⟩ := Delivery.decode_spec hd
      rcases h₁.receive with ⟨-, hreceive⟩ | ⟨-, hread, -⟩ | ⟨-, s₂, d₂, hread, hreceive, h₂⟩
      · exact ⟨s₁, d₁, .stop hdecode hreceive, h₁, hseen ▸ hrest ▸ List.prefix_append _ _⟩
      · have hnil : d.coming = [] := by
          cases hcoming : d.coming with
          | nil => rfl
          | cons chunk coming => simp [Delivery.read, hsame, hcoming] at hread
        rw [hnil, List.flatten_nil, List.append_nil] at hrest
        rw [hrest] at hpart
        omega
      · have hless := (Delivery.read_fits hread h₁.fits).2
        have hreads : d₁.reads = d.reads := by simp [Delivery.reads, hsame]
        obtain ⟨s', d', hpolls, hfollows⟩ := ih h₂
          (by rw [Delivery.read_all hread, hseen, hsame, hrest]) (by omega)
        exact ⟨s', d', .again hdecode hreceive hpolls, hfollows⟩
    · obtain ⟨needed, hparse⟩ := hincomplete d.seen ⟨_, hrest⟩ hpart
      simp only [Delivery.decode, hparse] at hd
      split at hd <;> cases hd

/-! ## Calls on a vacant stream -/

/-- Nothing is awaited, nothing is unread, and no bytes are asked for. -/
structure Vacant (s : PopStream) : Prop where
  queue : s.queue = []
  needs : s.decodeNeeds = 0
  buffer : ∃ room, s.buffer = .holding [] room ∧ Buffer.chunkSize ∣ room ∧ room ≤ Buffer.maxSize

omit [Host] in
theorem new_vacant (t : Transport) : Vacant (new t) :=
  ⟨rfl, rfl, Buffer.chunkSize, rfl, Nat.dvd_refl _, by decide⟩

/-- So is a stream between two calls, unless something is awaited, was sent ahead or asked
for. -/
theorem Reached.vacant {s : PopStream} (hs : Reached s) (hqueue : s.queue = [])
    (hcursor : s.buffer.cursor = 0) (hneeds : s.decodeNeeds = 0) : Vacant s := by
  obtain ⟨unread, room, hbuffer, haligned, hmax⟩ := hs.allocated
  rw [hbuffer, Buffer.holding_cursor] at hcursor
  obtain rfl := List.eq_nil_of_length_eq_zero hcursor
  simp only [List.length_nil, Nat.zero_add] at haligned hmax
  exact ⟨hqueue, hneeds, room, hbuffer, haligned, hmax⟩

/-- The limit is exact: a reply of at most that size is returned, and a larger one is
reported with no more than that in the buffer. -/
def SizeExact (command : Command) (w : Bytes) (response : Response) (s : PopStream) : Prop :=
  (w.length ≤ Buffer.maxSize → ∃ s', readResponse command s = .ok response s') ∧
    (Buffer.maxSize < w.length → ∃ s', readResponse command s = .error (.error Buffer.tooLarge) s' ∧
      s'.buffer.cursor ≤ s'.buffer.inner.length ∧ s'.buffer.inner.length ≤ Buffer.maxSize)

omit [Host] in
/-- The delivery of the chunks to a stream that awaits this command. -/
theorem Vacant.follows {s : PopStream} (hs : Vacant s) (command : Command) {chunks : List Bytes}
    (hstream : s.stream = delivering chunks) :
    ∃ room, Follows (s.awaiting command) [command] ⟨[], room, 0, chunks⟩ ∧
      Buffer.chunkSize ∣ room ∧ room ≤ Buffer.maxSize := by
  obtain ⟨room, hbuffer, haligned, hbounded⟩ := hs.buffer
  exact ⟨room, ⟨hbuffer, hs.needs, by simp [awaiting, hs.queue], hstream, Nat.zero_le _, hbounded⟩,
    haligned, hbounded⟩

/-- What came in before the buffer was full is in the buffer. -/
theorem Polls.received_tooLarge {s s' : PopStream} {seen : Bytes}
    (h : Polls s (.error (.error Buffer.tooLarge) s')) (hs : s.Holds []) (hs' : s'.Holds seen) :
    received s'.history = received s.history ++ seen := by
  obtain ⟨t, ht, hends⟩ := h.last
  obtain ⟨new, hnew, hreceived, -⟩ := ht.holds hs
  rcases hends with hdecode | ⟨t', hdecode, hreceive⟩
  · rcases decode_eq_error hdecode with ⟨-, herror, -⟩ | ⟨command, queue, -, -, hdecoded⟩
    · cases congrArg Error.kind (Exit.error.inj herror)
    · generalize hx : Exit.error Buffer.tooLarge = x at hdecoded
      cases hdecoded with
      | rejected => cases congrArg Error.kind (Exit.error.inj hx)
      | _ => cases hx
  · obtain ⟨hholds, -, -, hhistory⟩ := decode_none_holds hnew hdecode
    obtain ⟨hholds', -, hhistory', -⟩ := receive_error_holds hholds hreceive
    have hsame : new = seen := by simpa [hholds'.take] using hs'.take
    rw [hhistory', hhistory, hreceived, hsame]

/-- What is too large is never read: its command stays in the queue, and its first bytes in
the buffer. -/
theorem Vacant.outgrown {command : Command} {w : Bytes} {response : Response}
    (hparse : Parser.parse w command = .ok [] response) (hlarge : Buffer.maxSize < w.length)
    {s : PopStream} (hs : Vacant s) {chunks : List Bytes} (hstream : s.stream = delivering chunks)
    (hchunks : chunks.flatten = w) :
    ∃ s' seen room, readResponse command s = .error (.error Buffer.tooLarge) s' ∧
      s'.queue = [command] ∧ s'.buffer = .holding seen room ∧ seen.length + room ≤ Buffer.maxSize ∧
      received s'.history = received s.history ++ seen ∧ seen <+: w := by
  obtain ⟨room, hfollows, -⟩ := hs.follows command hstream
  have hincomplete : ∀ x, x <+: w → x.length ≤ Buffer.maxSize →
      ∃ needed, Parser.parse x command = .incomplete needed := by
    intro x hx hle
    exact Parser.parse_part hparse hx (by rintro rfl; omega)
  obtain ⟨s', d', hpolls, hfollows', hseen⟩ :=
    hfollows.outgrows hincomplete hlarge hchunks (Nat.lt_succ_self _)
  have hnext : Polls (s.awaiting command) _ :=
    next_polls (show (s.awaiting command).Holds [] from ⟨_, hfollows.buffer⟩)
  have hread := readResponse_returned command s
  rw [hnext.unique hpolls] at hread
  refine ⟨s', d'.seen, _, hread, hfollows'.queue, hfollows'.buffer, ?_, ?_, hseen⟩
  · have hfits := hfollows'.fits
    have hbounded' := hfollows'.bounded
    omega
  · exact hpolls.received_tooLarge ⟨_, hfollows.buffer⟩ ⟨_, hfollows'.buffer⟩

/-- For a reply that arrives gradually, the limit is exact up to the trace line. -/
theorem Vacant.sizeExact_of_gradual {command : Command} {w : Bytes} {response : Response}
    (hgradual : Gradual command w) (hparse : Parser.parse w command = .ok [] response)
    (hdeliver : deliver response = .ok response) {s : PopStream} (hs : Vacant s)
    {chunks : List Bytes} (hstream : s.stream = delivering chunks) (hchunks : chunks.flatten = w) :
    SizeExact command w response s ↔
      Buffer.maxSize < w.length ∨ (Host.traceEnabled → Utf8.valid w) := by
  obtain ⟨room, hfollows, haligned, hbounded⟩ := hs.follows command hstream
  have hnext : Polls (s.awaiting command) _ :=
    next_polls (show (s.awaiting command).Holds [] from ⟨_, hfollows.buffer⟩)
  have hread := readResponse_returned command s
  by_cases hmax : w.length ≤ Buffer.maxSize
  · -- The reply is decided on as a whole.
    obtain ⟨r, hpolls, hconcludes⟩ := hfollows.concludes (Nat.lt_succ_self _)
    have hending := Delivery.endingWithin_whole (d := ⟨[], room, 0, chunks⟩) hgradual hparse hmax
      ⟨Nat.zero_le _, haligned, hbounded⟩ hchunks (Nat.zero_le _) (Nat.lt_succ_self _)
    rw [hending] at hconcludes
    rw [hnext.unique hpolls] at hread
    have hreturns : SizeExact command w response s ↔
        ∃ s', readResponse command s = .ok response s' :=
      ⟨fun h => h.1 hmax, fun h => ⟨fun _ => h, fun hlarge => absurd hmax (Nat.not_le.mpr hlarge)⟩⟩
    rw [hreturns, or_iff_right (Nat.not_lt.mpr hmax)]
    cases hconcludes with
    | @accepted seen rest response' s' hparse' hreadable =>
      rw [hparse] at hparse'
      cases hparse'
      exact iff_of_true ⟨s', by rw [hread, returned, hdeliver]; rfl⟩ hreadable.2
    | panicked hparse' hreadable =>
      rw [hparse] at hparse'
      cases hparse'
      refine iff_of_false ?_ fun htrace => hreadable ⟨Nat.zero_le _, htrace⟩
      rintro ⟨s', hok⟩
      rw [hread] at hok
      cases hok
    | rejected hparse' =>
      rw [hparse] at hparse'
      cases hparse'
  · -- The buffer is full before the end.
    obtain ⟨s', seen, room', htoo, -, hbuffer, hsize, -, -⟩ :=
      hs.outgrown hparse (Nat.not_le.mp hmax) hstream hchunks
    refine iff_of_true ⟨fun h => absurd h hmax, fun _ => ⟨s', htoo, ?_⟩⟩ (.inl (Nat.not_le.mp hmax))
    rw [hbuffer, Buffer.holding_cursor, Buffer.holding_inner_length]
    omega

end PopStream

/-! ## The reply to RETR and TOP -/

namespace Parser

/-- A reply to RETR or TOP: the status line, the lines, and the line `.`. -/
def messageReply (text : Bytes) (lines : List Bytes) : Bytes :=
  okTag ++ text ++ crlf ++ (lines.flatMap (· ++ crlf) ++ dot :: crlf)

omit [Host] in
theorem status_asks : AsksAtMost 4 status := by
  refine AsksAtMost.terminated (.map ?_ _) ((Nom.asksAtMost_takeWhile _).mono (by decide))
  have hok : AsksAtMost 4 (Nom.tag okTag) := (Nom.asksAtMost_tag okTag).mono (by decide)
  exact (hok.value true).alt_cons ((Nom.asksAtMost_tag errTag).value false)

omit [Host] in
theorem messageParser_asks : AsksAtMost 4 messageParser :=
  .terminated (.opt (Nom.asksAtMost_notLineEnding.mono (by decide)))
    (.bind (.pair ((Nom.asksAtMost_takeWhile _).mono (by decide))
      (Nom.asksAtMost_lineEnding.mono (by decide))) fun _ => .pure _)

omit [Host] in
/-- Behind the search for the terminator nothing is waited for. -/
theorem rfc822Response_incomplete {x : Bytes} {needed : Needed}
    (h : rfc822Response x = .incomplete needed) :
    messageParser x = .incomplete needed ∨ needed = .unknown := by
  simp only [rfc822Response, Nom.bind_apply, IResult.bind_eq_incomplete, Nom.pure_apply] at h
  rcases h with h | ⟨mid, _, -, h | ⟨_, content, htake, h⟩⟩
  · exact .inl h
  · refine .inr ?_
    unfold Nom.takeUntil at h
    split at h <;> cases h
    rfl
  · obtain ⟨-, ⟨y, rfl⟩, -⟩ := Nom.takeUntil_eq_ok.mp htake
    have heol : eol (terminator ++ y) = .ok (dot :: (crlf ++ y)) () := eol_crlf _
    simp [heol, endOfMultiline_dot] at h

omit [Host] in
theorem statusResponse_asks {request : Command} (hok : okResponse request = rfc822Response) :
    AsksAtMost 4 (statusResponse request) := by
  refine .bind status_asks fun s => ?_
  rw [hok]
  split
  · intro x n h
    rcases rfc822Response_incomplete h with h | h
    · exact messageParser_asks h
    · cases h
  · exact .bind messageParser_asks fun _ => .pure _

theorem parse_messageReply {request : Command} (hrequest : request = .retr ∨ request = .top)
    {text : Bytes} (htext : IsLine text) {lines : List Bytes} (hne : lines ≠ [])
    (hlines : ∀ l ∈ lines, IsLine l) (hdot : ∀ l ∈ lines, l ≠ [dot]) :
    parse (messageReply text lines) request = .ok [] (.bytes (message lines)) := by
  obtain ⟨hok, hparse⟩ := parse_message_request hrequest
  obtain ⟨l, ls, rfl⟩ := List.exists_cons_of_ne_nil hne
  rw [hparse (by simp [messageReply, okTag, ascii]), messageReply, flatMap_crlf_cons]
  simp only [List.append_assoc, statusResponse, Nom.bind_apply, status_okTag, IResult.bind_ok, hok,
    if_true]
  simpa using rfc822Response_lines (htext.dropWhile _) hlines hdot []

/-- The parser waits on each part of a reply. Only within the status line it says for how
much, and that is less than what comes behind it. -/
theorem messageReply_gradual {request : Command} (hrequest : request = .retr ∨ request = .top)
    {text : Bytes} (htext : IsLine text) {lines : List Bytes} (hne : lines ≠ [])
    (hlines : ∀ l ∈ lines, IsLine l) (hdot : ∀ l ∈ lines, l ≠ [dot]) :
    Gradual request (messageReply text lines) := by
  obtain ⟨hok, hstatus⟩ := parse_message_request hrequest
  have hwhole := parse_messageReply hrequest htext hne hlines hdot
  intro x hpre hx
  obtain ⟨needed, hparse⟩ := parse_part hwhole hpre hx
  refine ⟨needed, hparse, ?_⟩
  cases needed with
  | unknown => exact Nat.zero_le _
  | size n =>
    have hxne : x ≠ [] := by
      rintro rfl
      cases hparse
    rw [hstatus hxne] at hparse
    have hasks := statusResponse_asks hok hparse
    have hline : ¬ okTag ++ text ++ crlf <+: x := by
      rintro ⟨y, rfl⟩
      simp only [List.append_assoc, statusResponse, Nom.bind_apply, status_okTag, IResult.bind_ok,
        hok, if_true] at hparse
      rcases rfc822Response_incomplete hparse with h | h
      · rw [messageParser_line (htext.dropWhile _)] at h
        cases h
      · cases h
    have hshort : x.length < (okTag ++ text ++ crlf).length := by
      refine Nat.lt_of_not_le fun hle => hline ?_
      exact List.prefix_of_prefix_length_le (List.prefix_append _ _) hpre hle
    obtain ⟨l, ls, rfl⟩ := List.exists_cons_of_ne_nil hne
    have hrest : 2 ≤ ((l :: ls).flatMap (· ++ crlf)).length := by simp [crlf]; omega
    simp only [PopStream.asked, messageReply, List.length_append, List.length_cons, crlf,
      List.length_nil] at hshort ⊢
    omega

/-- The limit on the size of a message is exact, for every delivery of it, except where the
trace line cannot be printed. -/
theorem sizeExact_iff {request : Command} (hrequest : request = .retr ∨ request = .top)
    {text : Bytes} (htext : IsLine text) {lines : List Bytes} (hne : lines ≠ [])
    (hlines : ∀ l ∈ lines, IsLine l) (hdot : ∀ l ∈ lines, l ≠ [dot]) {s : PopStream}
    (hs : s.Vacant) {chunks : List Bytes} (hstream : s.stream = PopStream.delivering chunks)
    (hchunks : chunks.flatten = messageReply text lines) :
    PopStream.SizeExact request (messageReply text lines) (.bytes (message lines)) s ↔
      Buffer.maxSize < (messageReply text lines).length ∨
        (Host.traceEnabled → Utf8.valid (messageReply text lines)) :=
  hs.sizeExact_of_gradual (messageReply_gradual hrequest htext hne hlines hdot)
    (parse_messageReply hrequest htext hne hlines hdot) rfl hstream hchunks

omit [Host] in
theorem sizeExact_iff_cut : @PopStream.SizeExact (.bare false) .retr
    (messageReply (ascii " 2") [ascii "hi"]) (.bytes (message [ascii "hi"]))
    (.new (PopStream.delivering [ascii "+OK 2\r", ascii "\nhi\r\n.\r\n"])) :=
  let host : Host := .bare false
  (sizeExact_iff (.inl rfl) (by decide) (by decide) (by decide) (by decide)
    (PopStream.new_vacant _) rfl (by decide)).mpr (.inr nofun)

omit [Host] in
/-- With the trace line, a message that is not UTF-8 panics. -/
theorem retr_untraceable :
    let s := PopStream.new (PopStream.delivering [messageReply (ascii " 1") [[0xff]]])
    IsLine (ascii " 1") ∧ IsLine [0xff] ∧ [0xff] ≠ [dot] ∧ s.Vacant ∧
      (messageReply (ascii " 1") [[0xff]]).length ≤ Buffer.maxSize ∧
      exit? (@PopStream.readResponse (.bare true) .retr s) = some .panicked ∧
      ¬ @PopStream.SizeExact (.bare true) .retr (messageReply (ascii " 1") [[0xff]])
        (.bytes (message [[0xff]])) s := by
  have hpanicked : exit? (@PopStream.readResponse (.bare true) .retr
      (.new (PopStream.delivering [messageReply (ascii " 1") [[0xff]]]))) = some .panicked := by
    decide +kernel
  refine ⟨by decide, by decide, by decide, PopStream.new_vacant _, by decide,
    hpanicked, fun h => ?_⟩
  obtain ⟨s', hok⟩ := h.1 (by decide)
  rw [hok] at hpanicked
  cases hpanicked

end Parser

end Pop
