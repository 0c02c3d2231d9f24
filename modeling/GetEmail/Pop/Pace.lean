-- SUMMARY: Replies that fit are read in pace with the lines that they answer.
import GetEmail.Pop.Fitting
import GetEmail.Pop.Pairing

/-!
# Pace

What keeps replies and lines in step is that a reply is read after each line. A reply
that the buffer cannot hold is never read, and leaves its command in the queue.
-/

namespace Pop

open Exec
open Nom (Bytes lf)

variable [Host]

/-! ## Servers that answer each line -/

omit [Host] in
/-- The answers to the lines, in order. -/
def Server.answers (server : Server) (texts : List Bytes) : Bytes :=
  (List.range texts.length).flatMap fun i => server (texts.take (i + 1))

omit [Host] in
theorem Server.answers_concat (server : Server) (texts : List Bytes) (text : Bytes) :
    server.answers (texts ++ [text]) = server.answers texts ++ server (texts ++ [text]) := by
  rw [answers, List.length_append, List.length_singleton, List.range_succ, List.flatMap_append,
    List.flatMap_singleton, List.take_of_length_le (by simp)]
  congr 1
  refine List.flatMap_congr fun i hi => ?_
  rw [List.take_append_of_le_length (List.mem_range.mp hi)]

omit [Host] in
theorem Server.answers_append (server : Server) (texts texts' : List Bytes) :
    server.answers texts <+: server.answers (texts ++ texts') := by
  induction texts' using List.reverseRecOn with
  | nil => simp
  | append_singleton texts' text ih =>
    rw [← List.append_assoc, server.answers_concat]
    exact ih.trans (List.prefix_append _ _)

/-- Each line that the server got it answers with one reply. The replies to the lines of
the client are ones that the parser accepts. -/
structure Server.Answers (server : Server) (history : List Event) : Prop where
  accepted : ∀ lines, lines <+: linesOf history → lines ≠ [] → ∃ response,
    Parser.parse (server (lines.map (·.bytes))) (lastCommand lines) = .ok [] response
  traffic : received history <+: server.answers (completeLines [] (sent history))

/-- The replies fit the buffer. -/
def Server.Fitting (server : Server) (history : List Event) : Prop :=
  ∀ lines, lines <+: linesOf history → lines ≠ [] →
    Fits (lastCommand lines) (server (lines.map (·.bytes)))

/-- What came in are replies that are accepted and fit, to the lines that were sent or
are to be sent. -/
structure Serving (server : Server) (history : List Event) : Prop where
  accepted : ∀ lines, lines <+: linesOf history → lines ≠ [] → ∃ response,
    Parser.parse (server (lines.map (·.bytes))) (lastCommand lines) = .ok [] response
  fitting : server.Fitting history
  traffic : ∃ bytes, sent history <+: bytes ∧
    received history <+: server.answers (completeLines [] bytes)

theorem Serving.mono {server : Server} {history history' : List Event}
    (h : Serving server history') (hpre : history <+: history') : Serving server history := by
  obtain ⟨bytes, hsent, hreceived⟩ := h.traffic
  have hlines := linesOf_mono hpre
  obtain ⟨rest, rfl⟩ := hpre
  refine ⟨fun lines hlines' => h.accepted lines (hlines'.trans hlines),
    fun lines hlines' => h.fitting lines (hlines'.trans hlines), bytes, ?_, ?_⟩
  · exact (List.prefix_append _ _).trans (sent_append history rest ▸ hsent)
  · exact (List.prefix_append _ _).trans (received_append history rest ▸ hreceived)

/-! ## Line by line -/

/-- Each line was answered, with a reply that was read under a command like the line's. -/
def Matched (lines : List Line) (answers : List (Command × Response)) : Prop :=
  List.Forall₂ (fun line answer => ReadsAs answer.1 line.command) lines answers

/-- In the events `new` each line but the last was answered, and the last one too unless
its answer is awaited. What the buffer holds came after these answers. -/
structure Paced (server : Server) (new : List Event) (awaited : Option Command) (s : PopStream) :
    Prop where
  queue : s.queue = []
  lined : sent new = wire (textsOf new) ∧ ∀ text ∈ textsOf new, lf ∉ text
  turn : ∃ lines last bytes, linesOf new = lines ++ Option.toList last ∧
    last.map Line.command = awaited ∧ Matched lines (answersOf new) ∧ s.Ready bytes ∧
    received new = server.answers (lines.map Line.bytes) ++ bytes

/-- Since `base` the stream has kept pace with the lines, if the server has served it. -/
def InPace (server : Server) (base : List Event) (awaited : Option Command) (s : PopStream) : Prop :=
  ∃ new, s.history = base ++ new ∧ (Serving server new → Paced server new awaited s)

variable {server : Server} {base new : List Event} {s : PopStream}

/-- The events go on, and as long as the server has served it, what a step does is described
from a stream in pace. -/
theorem inPace_step {α : Type} {m : Exec Error PopStream α} {awaited awaited' : Option Command}
    (hkeeps : ∀ history, Keeps (fun _ => True) (fun s => history <+: s.history) m)
    (hm : ∀ s new more, s.history = base ++ new → Paced server new awaited s →
      Serving server (new ++ more) → (stateOf (m s)).history = base ++ (new ++ more) →
        match m s with
        | .ok _ s' => Paced server (new ++ more) awaited' s'
        | .error x s' => x.IsError → Paced server (new ++ more) none s') :
    Triple (InPace server base awaited) m (fun _ => InPace server base awaited')
      fun x s => x.IsError → InPace server base none s := by
  rintro s ⟨new, hhistory, hpaced⟩
  obtain ⟨more, hmore⟩ : s.history <+: (stateOf (m s)).history := by
    have h := hkeeps s.history s List.prefix_rfl
    cases hms : m s with
    | ok a s' => simpa [hms, stateOf] using h
    | error x s' => simpa [hms, stateOf] using h
  have hnew : (stateOf (m s)).history = base ++ (new ++ more) := by
    rw [← hmore, hhistory, List.append_assoc]
  have hstep := fun hserving =>
    hm s new more hhistory (hpaced (Serving.mono hserving (List.prefix_append _ _))) hserving hnew
  cases hms : m s with
  | ok a s' =>
    rw [hms] at hnew hstep
    exact ⟨_, hnew, hstep⟩
  | error x s' =>
    rw [hms] at hnew hstep
    exact fun hx => ⟨_, hnew, fun hserving => hstep hserving hx⟩

/-- A line is written, or waited for. -/
theorem line_inPace {text : Bytes} (htext : lf ∉ text) (command : Command) :
    Triple (InPace server base none) (do PopStream.sendBytes text; PopStream.record (.line command text))
      (fun _ => InPace server base (some command)) fun x s => x.IsError → InPace server base none s := by
  have hkeeps (history : List Event) : Keeps (fun _ => True) (fun s => history <+: s.history)
      (do PopStream.sendBytes text; PopStream.record (.line command text)) :=
    .bind (PopStream.sendBytes_keeps (PopStream.framed_history history) text) fun _ =>
      .modify fun s hs => (PopStream.framed_history history).line s _ _ hs
  refine inPace_step hkeeps fun s new more hhistory hs hserving hnew => ?_
  obtain ⟨lines, last, bytes, hlines, hlast, hmatched, hready, hreceived⟩ := hs.turn
  obtain rfl : last = none := Option.map_eq_none_iff.mp hlast
  have hsends := PopStream.sendBytes_sends text s s rfl
  have hsmooth := PopStream.sendBytes_smooth text s hready.smooth
  rw [bind_apply] at hnew ⊢
  cases hsend : PopStream.sendBytes text s with
  | error x s' =>
    rw [hsend] at hsmooth
    intro hx
    rw [show x = .pending from hsmooth] at hx
    exact hx.elim
  | ok u s' =>
    rw [hsend] at hsends hsmooth hnew
    obtain ⟨hsent, -⟩ := hsends
    obtain ⟨pieces, hpieces, hbytes⟩ := hsent.history
    have hnew : s'.history ++ [.line command text] = base ++ (new ++ more) := hnew
    obtain rfl : pieces.map .sent ++ [.line command text] = more := by
      rw [hpieces, hhistory] at hnew
      simpa using hnew
    have htexts : textsOf (pieces.map .sent ++ [.line command text]) = [text] := by
      simp [textsOf, linesOf]
    have hone : linesOf (pieces.map .sent ++ [.line command text]) = [⟨command, text⟩] := by
      simp [linesOf]
    have hnone : answersOf (pieces.map .sent ++ [.line command text]) = [] := by
      simp [answersOf]
    have hsilent : received (pieces.map .sent ++ [.line command text]) = [] := by
      simp [received, List.flatMap_map]
    have hwire : sent (pieces.map .sent ++ [.line command text]) = wire [text] := by
      rw [sent_append, sent_sent, hbytes]
      simp [sent, wire]
    refine ⟨hsent.queue.trans hs.queue, ⟨?_, ?_⟩, lines, some ⟨command, text⟩, bytes, ?_, rfl, ?_,
      ?_, ?_⟩
    · rw [sent_append, textsOf_append, hwire, htexts, wire_append, hs.lined.1]
    · rw [textsOf_append, htexts, List.forall_mem_append]
      exact ⟨hs.lined.2, by simpa using htext⟩
    · rw [linesOf_append, hone, hlines, Option.toList_none, List.append_nil]
      rfl
    · rwa [answersOf_append, hnone, List.append_nil]
    · obtain ⟨room, hbuffer, hroom⟩ := hready.buffer
      exact ⟨hsmooth, hsent.decodeNeeds.symm ▸ hready.needs, room, hsent.buffer.trans hbuffer, hroom⟩
    · rw [received_append, hsilent, List.append_nil, hreceived]

/-- What has come in while a reply is read is a part of it and of what follows it. -/
theorem PopStream.Decodes.reading {command : Command} {t : PopStream} {bytes front later : Bytes}
    {more : List Event} (ht : Decodes (s.awaiting command) t) (hs : s.Holds bytes)
    (hhistory : s.history = base ++ new) (hreceived : received new = front ++ bytes)
    (hpre : t.history <+: base ++ (new ++ more)) (htraffic : received (new ++ more) <+: front ++ later) :
    ∃ pieces : List Bytes, t.history = base ++ (new ++ pieces.map .received) ∧
      t.Holds (bytes ++ pieces.flatten) ∧ bytes ++ pieces.flatten <+: later := by
  obtain ⟨pieces, hpieces⟩ := ht.onlyReceived
  obtain ⟨come, hholds, hcome, -⟩ := ht.holds (show (s.awaiting command).Holds bytes from hs)
  have hthistory : t.history = base ++ (new ++ pieces.map .received) := by
    rw [hpieces, ← List.append_assoc, ← hhistory]
    rfl
  have hflat := received_pieces pieces
  have heq : come = pieces.flatten := by
    have hcome : received t.history = received s.history ++ come := hcome
    rw [hthistory, hhistory] at hcome
    simpa [hflat] using hcome.symm
  subst heq
  refine ⟨pieces, hthistory, hholds, ?_⟩
  rw [hthistory, List.prefix_append_right_inj, List.prefix_append_right_inj] at hpre
  obtain ⟨after, rfl⟩ := hpre
  rw [received_append, received_append, hflat, hreceived, List.append_assoc,
    List.prefix_append_right_inj, ← List.append_assoc] at htraffic
  exact (List.prefix_append _ _).trans htraffic

/-- The reply to the last line is accepted and fits, and is the next that comes in. -/
theorem Serving.reply {more : List Event} {lines : List Line} {line : Line} {command : Command}
    (hserving : Serving server (new ++ more)) (hlines : linesOf new = lines ++ [line])
    (hlined : sent new = wire (textsOf new) ∧ ∀ text ∈ textsOf new, lf ∉ text)
    (hcommand : ReadsAs command line.command) :
    (∃ response, Parser.parse (server (textsOf new)) command = .ok [] response) ∧
      Fits command (server (textsOf new)) ∧
      ∃ later, received (new ++ more) <+:
        server.answers (lines.map Line.bytes) ++ (server (textsOf new) ++ later) := by
  have htexts : textsOf new = lines.map Line.bytes ++ [line.bytes] := by simp [textsOf, hlines]
  have hlast : linesOf new ≠ [] ∧ linesOf new <+: linesOf (new ++ more) :=
    ⟨by simp [hlines], by simp⟩
  have hlastcommand : lastCommand (linesOf new) = line.command := by
    rw [hlines]
    exact PopStream.lastCommand_append _ _
  have hparse := hcommand.parse_eq
  refine ⟨?_, ?_, ?_⟩
  · have haccepted := hserving.accepted _ hlast.2 hlast.1
    rwa [hlastcommand, ← hparse] at haccepted
  · obtain ⟨hsize, hasked⟩ := hserving.fitting _ hlast.2 hlast.1
    refine ⟨hsize, fun x hx hne needed hneeded => hasked x hx hne needed ?_⟩
    rw [hlastcommand, ← hparse]
    exact hneeded
  · obtain ⟨all, ⟨rest, rfl⟩, htraffic⟩ := hserving.traffic
    rw [sent_append, hlined.1, List.append_assoc, completeLines_wire_append hlined.2] at htraffic
    obtain ⟨tail, htail⟩ := server.answers_append (textsOf new) (completeLines [] (sent more ++ rest))
    rw [← htail, htexts, server.answers_concat, ← htexts, List.append_assoc] at htraffic
    exact ⟨tail, htraffic⟩

/-- Where the parser is tried, a part of the reply is there, and of what follows it. -/
theorem PopStream.Decodes.reading_reply {command : Command} {t : PopStream} {response : Response}
    {bytes front reply later : Bytes} {more : List Event} (ht : Decodes (s.awaiting command) t)
    (haccepted : Parser.parse reply command = .ok [] response) (hfits : Fits command reply)
    (hs : s.Ready bytes) (hqueue : s.queue = []) (hhistory : s.history = base ++ new)
    (hreceived : received new = front ++ bytes) (hpre : t.history <+: base ++ (new ++ more))
    (htraffic : received (new ++ more) <+: front ++ (reply ++ later)) :
    ∃ pieces : List Bytes, t.history = base ++ (new ++ pieces.map .received) ∧
      t.Ready (bytes ++ pieces.flatten) ∧ t.queue = [command] ∧
      bytes ++ pieces.flatten <+: reply ++ later := by
  have hawaiting : (s.awaiting command).Ready bytes := ⟨hs.smooth, hs.needs, hs.buffer⟩
  have hawaited : (s.awaiting command).queue = [command] := by simp [PopStream.awaiting, hqueue]
  obtain ⟨pieces, hthistory, hholds, hbytes⟩ := ht.reading hs.holds hhistory hreceived hpre htraffic
  obtain ⟨bytes', hready, hq⟩ := hawaiting.decodes haccepted hfits hawaited ht fun bytes' h => by
    rw [← h.take, hholds.take]
    exact hbytes
  obtain rfl : bytes' = bytes ++ pieces.flatten := by rw [← hready.holds.take, hholds.take]
  exact ⟨pieces, hthistory, hready, hq, hbytes⟩

omit [Host] in
/-- The last line is answered, and `rest` came after its reply. -/
theorem Paced.answered {command : Command} {response : Response} {line : Line}
    {bytes rest reply : Bytes} {pieces : List Bytes} {lines : List Line} {t : PopStream}
    (hlined : sent new = wire (textsOf new) ∧ ∀ text ∈ textsOf new, lf ∉ text)
    (hlines : linesOf new = lines ++ [line]) (hmatched : Matched lines (answersOf new))
    (hcommand : ReadsAs command line.command) (hreply : reply = server (textsOf new))
    (hreceived : received new = server.answers (lines.map Line.bytes) ++ bytes)
    (hsplit : bytes ++ pieces.flatten = reply ++ rest) (hsmooth : t.stream.Smooth)
    (hneeds : t.decodeNeeds ≤ Buffer.maxSize) (hrest : rest.length ≤ Buffer.chunkSize) :
    Paced server (new ++ (pieces.map .received ++ [.answered command response])) none
      { t with
        buffer := .holding rest (Buffer.chunkSize - rest.length)
        queue := []
        history := t.history ++ [.answered command response] } := by
  have htexts : textsOf new = lines.map Line.bytes ++ [line.bytes] := by simp [textsOf, hlines]
  have hlinesof : linesOf (new ++ (pieces.map .received ++ [.answered command response])) =
      lines ++ [line] := by
    simp only [linesOf_append, linesOf_received, hlines, List.nil_append]
    exact List.append_nil _
  have htextsof : textsOf (new ++ (pieces.map .received ++ [.answered command response])) =
      textsOf new := by
    rw [textsOf, hlinesof, htexts, List.map_append]
    rfl
  have hanswers := server.answers_concat (lines.map Line.bytes) line.bytes
  rw [← htexts, ← hreply] at hanswers
  refine ⟨rfl, ⟨?_, htextsof ▸ hlined.2⟩, lines ++ [line], none, rest, by simp [hlinesof], rfl,
    ?_, ?_, ?_⟩
  · rw [htextsof, sent_append, sent_append, sent_received, hlined.1]
    exact List.append_nil _
  · rw [answersOf_append, answersOf_append, answersOf_received]
    exact List.rel_append hmatched (.cons hcommand .nil)
  · refine ⟨hsmooth, hneeds, _, rfl, ?_, ?_⟩
    · exact (Nat.add_sub_cancel' hrest).symm ▸ Nat.dvd_refl _
    · exact (Nat.add_sub_cancel' hrest).trans_le (by decide)
  · rw [List.map_append, List.map_singleton, ← htexts, hanswers, received_append,
      received_append, received_pieces, received_answered, List.append_nil, hreceived,
      List.append_assoc, List.append_assoc, hsplit]

/-- The reply that is awaited is read, or waited for. -/
theorem readResponse_inPace {command awaited : Command} (hcommand : ReadsAs command awaited) :
    Triple (InPace server base (some awaited)) (PopStream.readResponse command)
      (fun _ => InPace server base none) fun x s => x.IsError → InPace server base none s := by
  refine inPace_step (fun history => PopStream.readResponse_keeps
    (PopStream.framed_history history) trivial) fun s new more hhistory hs hserving hnew => ?_
  obtain ⟨lines, last, bytes, hlines, hlast, hmatched, hready, hreceived⟩ := hs.turn
  obtain ⟨line, rfl, rfl⟩ := Option.map_eq_some_iff.mp hlast
  obtain ⟨⟨response₀, haccepted⟩, hfits, later, htraffic⟩ :=
    hserving.reply hlines hs.lined hcommand
  obtain ⟨t, ht, hends⟩ :=
    (PopStream.next_polls (show (s.awaiting command).Holds bytes from hready.holds)).last
  have hreading (hpre : t.history <+: base ++ (new ++ more)) := ht.reading_reply haccepted hfits
    hready hs.queue hhistory hreceived hpre htraffic
  rw [PopStream.readResponse_eq] at hnew ⊢
  cases hnext : PopStream.next (s.awaiting command) with
  | ok response s' =>
    rw [hnext] at hnew hends
    obtain ⟨command', queue, rest, hq, hparse, hrest, rfl⟩ := PopStream.decode_eq_some hends
    have hnew : t.history ++ [.answered command' response] = base ++ (new ++ more) := by
      simpa using hnew
    obtain ⟨pieces, hthistory, hreadyt, hqueuet, hbytes⟩ := hreading (hnew ▸ List.prefix_append _ _)
    obtain ⟨rfl, rfl⟩ : command = command' ∧ [] = queue := by simpa [hqueuet] using hq
    rw [hreadyt.holds.take] at hparse
    obtain ⟨rfl, hsplit⟩ := parse_reply hparse hbytes haccepted
    obtain rfl : pieces.map .received ++ [.answered command response] = more := by
      rw [hthistory] at hnew
      simpa using hnew
    have hpaced : Paced server (new ++ (pieces.map .received ++ [.answered command response])) none
        _ := Paced.answered hs.lined hlines hmatched hcommand rfl hreceived hsplit hreadyt.smooth
      hreadyt.needs hrest
    cases response with
    | err text => exact fun _ => hpaced
    | _ => exact hpaced
  | error x s' =>
    rw [hnext] at hnew hends
    intro hx
    obtain ⟨e, rfl⟩ : ∃ e, x = .error e := by
      cases x with
      | error e => exact ⟨e, rfl⟩
      | pending => exact hx.elim
      | panicked => exact hx.elim
    obtain ⟨come, hholds, -⟩ := ht.holds (show (s.awaiting command).Holds bytes from hready.holds)
    have hsame : t.history = base ++ (new ++ more) := (hends.history hholds).symm.trans hnew
    obtain ⟨pieces, -, hreadyt, hqueuet, hbytes⟩ := hreading (hsame ▸ List.prefix_rfl)
    exact absurd hends (hreadyt.not_ends_error haccepted hfits hqueuet hbytes)

end Pop
