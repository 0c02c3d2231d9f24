-- SUMMARY: On a settled connection every response is the server's answer to the line that was written last.
import GetEmail.Pop.Server
import GetEmail.Pop.Stuck

/-!
# Pairing of responses with lines

The command queue knows nothing of the lines that were sent. What keeps responses
and lines in step is that each exchange reads one response for the line it wrote.
Calls that were dropped in the middle break the step for good. Where all lines were
answered, it has never been broken.
-/

namespace Pop

open Exec
open Nom (Bytes cr lf)

/-! ## Histories -/

section

variable (h h' : List Event)

@[simp] theorem linesOf_append : linesOf (h ++ h') = linesOf h ++ linesOf h' :=
  List.filterMap_append

@[simp] theorem answersOf_append : answersOf (h ++ h') = answersOf h ++ answersOf h' :=
  List.filterMap_append

@[simp] theorem textsOf_append : textsOf (h ++ h') = textsOf h ++ textsOf h' := by simp [textsOf]

@[simp] theorem sent_append : sent (h ++ h') = sent h ++ sent h' := List.flatMap_append

@[simp] theorem wire_append (texts texts' : List Bytes) :
    wire (texts ++ texts') = wire texts ++ wire texts' := List.flatMap_append

theorem linesOf_received (pieces : List Bytes) : linesOf (pieces.map .received) = [] := by
  simp [linesOf]

theorem answersOf_received (pieces : List Bytes) : answersOf (pieces.map .received) = [] := by
  simp [answersOf]

theorem linesOf_sent (pieces : List Bytes) : linesOf (pieces.map .sent) = [] := by
  simp [linesOf]

theorem answersOf_sent (pieces : List Bytes) : answersOf (pieces.map .sent) = [] := by
  simp [answersOf]

theorem sent_received (pieces : List Bytes) : sent (pieces.map .received) = [] := by
  simp [sent, List.flatMap_map]

theorem sent_sent (pieces : List Bytes) : sent (pieces.map .sent) = pieces.flatten := by
  induction pieces with
  | nil => rfl
  | cons piece pieces ih => exact congrArg (piece ++ ·) ih

theorem received_pieces (pieces : List Bytes) :
    received (pieces.map .received) = pieces.flatten := by
  induction pieces with
  | nil => rfl
  | cons piece pieces ih => exact congrArg (piece ++ ·) ih

theorem textsOf_length : (textsOf h).length = (linesOf h).length := by simp [textsOf]

end

theorem linesOf_mono {h h' : List Event} (hpre : h <+: h') : linesOf h <+: linesOf h' := by
  obtain ⟨rest, rfl⟩ := hpre
  simp

/-- What came in are answers to the lines that were written, or are to be written. -/
structure Served [Host] (server : Server) (history : List Event) : Prop where
  wellFormed : ∀ lines, lines <+: linesOf history →
    ∃ response, Parser.parse (server (lines.map (·.bytes))) (lastCommand lines) = .ok [] response
  traffic : ∃ texts, textsOf history <+: texts ∧
    received history <+: server.replies texts (texts.length + 1)

theorem Served.mono [Host] {server : Server} {h h' : List Event} (hs : Served server h')
    (hpre : h <+: h') : Served server h := by
  obtain ⟨texts, hlines, hreceived⟩ := hs.traffic
  obtain ⟨rest, rfl⟩ := hpre
  refine ⟨fun lines hlines' => hs.wellFormed lines (hlines'.trans (linesOf_mono ⟨rest, rfl⟩)),
    texts, ?_, ?_⟩
  · exact (List.prefix_append _ _).trans (textsOf_append h rest ▸ hlines)
  · exact (List.prefix_append _ _).trans (received_append h rest ▸ hreceived)

theorem completeLines_wire_append {texts : List Bytes} (htexts : ∀ text ∈ texts, lf ∉ text)
    (bytes : Bytes) : completeLines [] (wire texts ++ bytes) = texts ++ completeLines [] bytes := by
  induction texts with
  | nil => rfl
  | cons text texts ih =>
    rw [wire, List.flatMap_cons, List.append_assoc,
      completeLines_line [] (htexts text List.mem_cons_self), List.nil_append]
    exact congrArg _ (ih fun t ht => htexts t (List.mem_cons_of_mem _ ht))

theorem completeLines_wire {texts : List Bytes} (htexts : ∀ text ∈ texts, lf ∉ text) :
    completeLines [] (wire texts) = texts := by
  simpa [completeLines] using completeLines_wire_append htexts []

/-- When each line is a single one, the server has got the lines of the client. -/
theorem PopStream.Lined.served [Host] {server : Server} {s : PopStream} (hs : Lined s)
    (hserver : server.Behaves s.history) : Served server s.history := by
  have htraffic := hserver.traffic
  rw [hs.1, completeLines_wire hs.2] at htraffic
  exact ⟨hserver.wellFormed, _, List.prefix_rfl, htraffic⟩

/-! ## Replies -/

namespace Server

variable (server : Server)

theorem replies_succ (texts : List Bytes) (k : Nat) :
    server.replies texts (k + 1) = server.replies texts k ++ server (texts.take k) := by
  simp [replies, List.range_succ]

theorem replies_mono (texts : List Bytes) {k k' : Nat} (h : k ≤ k') :
    server.replies texts k <+: server.replies texts k' := by
  induction h with
  | refl => exact List.prefix_rfl
  | step _ ih => exact ih.trans (server.replies_succ texts _ ▸ List.prefix_append _ _)

/-- What was answered so far does not depend on the lines to come. -/
theorem replies_congr {texts texts' : List Bytes} (h : texts <+: texts') {k : Nat}
    (hk : k ≤ texts.length + 1) : server.replies texts' k = server.replies texts k := by
  obtain ⟨rest, rfl⟩ := h
  induction k with
  | zero => rfl
  | succ k ih =>
    rw [replies_succ, replies_succ, ih (by omega), List.take_append_of_le_length (by omega)]

end Server

variable [Host]

/-! ## Reading one answer -/

/-- Reading with `command` is right for an answer to be read with `command'`. -/
def ReadsAs (command command' : Command) : Prop :=
  command = command' ∨ Parser.takesChallenge command ∧ Parser.takesChallenge command'

/-- Under all commands of a handshake the parser is the same. -/
theorem ReadsAs.parse_eq {command command' : Command} (h : ReadsAs command command') (x : Bytes) :
    Parser.parse x command = Parser.parse x command' := by
  rcases h with rfl | ⟨hcommand, hcommand'⟩
  · rfl
  · have hstatus : Parser.statusResponse command = Parser.statusResponse command' := by
      cases command <;> cases command' <;>
        first | rfl | simp [Parser.takesChallenge] at hcommand hcommand'
    rw [Parser.parse_eq, Parser.parse_eq, if_pos hcommand, if_pos hcommand', hstatus]

omit [Host] in
theorem ReadsAs.trans {a b c : Command} (h : ReadsAs a b) (h' : ReadsAs b c) : ReadsAs a c := by
  rcases h with rfl | ⟨ha, hb⟩
  · exact h'
  · rcases h' with rfl | ⟨-, hc⟩
    · exact .inr ⟨ha, hb⟩
    · exact .inr ⟨ha, hc⟩

/-- A response that was parsed from the front of `reply` and what follows it is the one
that `reply` is. -/
theorem parse_reply {x rest reply tail : Bytes} {command : Command} {response response' : Response}
    (hparse : Parser.parse x command = .ok rest response) (hx : x <+: reply ++ tail)
    (hreply : Parser.parse reply command = .ok [] response') :
    response = response' ∧ x = reply ++ rest := by
  rcases List.prefix_or_prefix_of_prefix hx (List.prefix_append reply tail) with hle | hle
  · obtain ⟨y, rfl⟩ := hle
    rw [(Parser.parse_stable command).ok hparse y] at hreply
    obtain ⟨hnil, rfl⟩ := Nom.IResult.ok.inj hreply
    obtain ⟨rfl, rfl⟩ := List.append_eq_nil_iff.mp hnil
    exact ⟨rfl, by simp⟩
  · obtain ⟨y, rfl⟩ := hle
    rw [(Parser.parse_stable command).ok hreply y] at hparse
    cases hparse
    exact ⟨rfl, rfl⟩

namespace PopStream

omit [Host] in
/-- After `history` there were only reads. -/
def OnlyReceived (history : List Event) (s : PopStream) : Prop :=
  ∃ pieces : List Bytes, s.history = history ++ pieces.map .received

/-- After `history` there were reads, and a response. -/
def OneAnswer (history : List Event) (response : Response) (s : PopStream) : Prop :=
  ∃ (pieces : List Bytes) (command : Command),
    s.history = history ++ pieces.map .received ++ [.answered command response]

omit [Host] in
theorem reading_onlyReceived (history : List Event) : Reading (OnlyReceived history) where
  buffer _ _ h := h
  stream _ _ h _ := h
  received s bytes h := by
    obtain ⟨pieces, h⟩ := h
    exact ⟨pieces ++ [bytes], by simp [h]⟩

theorem decode_history (history : List Event) :
    Triple (OnlyReceived history) decode
      (fun r s => match r with
        | some response => OneAnswer history response s
        | none => OnlyReceived history s)
      (fun _ => OnlyReceived history) := by
  intro s hs
  by_cases hskip : s.buffer.cursor < s.decodeNeeds
  · rw [decode_skip hskip]
    exact hs
  have hle := Nat.not_lt.mp hskip
  cases hq : s.queue with
  | nil =>
    rw [decode_missing hle hq]
    exact hs
  | cons command queue =>
    have hcases := decode_command hle hq
    generalize decode s = r at hcases
    cases hcases with
    | accepted =>
      obtain ⟨pieces, hs⟩ := hs
      exact ⟨pieces, command, by simp [hs]⟩
    | _ => exact hs

theorem next_history (history : List Event) :
    Triple (OnlyReceived history) next (OneAnswer history) (fun _ => OnlyReceived history) := by
  have hreceive : Triple (OnlyReceived history) receive (fun _ => OnlyReceived history)
      (fun _ => OnlyReceived history) :=
    (receive_keeps (reading_onlyReceived history)).consequence (fun _ h => h) (fun _ _ h => h)
      fun _ _ h => h trivial
  have hturn : ∀ u, Triple (OnlyReceived history) (readTurn u)
      (fun r s => r.elim (fun _ => OnlyReceived history s) (OneAnswer history · s))
      (fun _ => OnlyReceived history) := fun _ =>
    .bind hreceive fun _ => .bind (decode_history history) fun response => by
      cases response <;> exact .pure fun _ h => h
  refine .bind (decode_history history) fun response => ?_
  cases response with
  | some response => exact .pure fun _ h => h
  | none => exact .bind (.get fun _ h => h) fun s => .loop hturn (fun _ _ h => h) _ _

/-- A call reads, and reads one response or none. -/
theorem readResponse_history (command : Command) (s : PopStream) :
    (∃ response, OneAnswer s.history response (stateOf (readResponse command s)) ∧
      readResponse command s = finished (deliver response) (stateOf (readResponse command s))) ∨
      OnlyReceived s.history (stateOf (readResponse command s)) := by
  have hs : OnlyReceived s.history (s.awaiting command) := ⟨[], by simp [awaiting]⟩
  have hnext := next_history s.history (s.awaiting command) hs
  rw [readResponse_eq]
  cases h : next (s.awaiting command) with
  | ok response s' =>
    rw [h] at hnext
    exact .inl ⟨response, by rwa [stateOf_finished], by rw [stateOf_finished]⟩
  | error x s' =>
    rw [h] at hnext
    exact .inr hnext

theorem Decodes.onlyReceived {s t : PopStream} (ht : Decodes s t) : OnlyReceived s.history t := by
  induction ht with
  | start => exact ⟨[], by simp⟩
  | again _ hdecode hreceive ih =>
    have hreceives : Keeps (fun _ => True) (OnlyReceived s.history) receive :=
      receive_keeps (reading_onlyReceived _)
    exact hreceives.ok ((decode_history _).ok ih hdecode) hreceive

/-! ## In turn -/

/-- All lines were answered, or all but the last one. What the buffer holds comes after
these answers. -/
structure InTurn (server : Server) (awaited : Bool) (s : PopStream) : Prop where
  queue : s.queue = []
  count : (answersOf s.history).length + awaited.toNat = (linesOf s.history).length + 1
  unread : ∃ bytes, s.Holds bytes ∧ bytes <:+ received s.history ∧
    (Served server s.history → received s.history =
      server.replies (textsOf s.history) (answersOf s.history).length ++ bytes)

variable {server : Server} {awaited : Bool} {s s' : PopStream}

theorem new_inTurn (t : Transport) : InTurn server true (new t) :=
  ⟨rfl, rfl, [], new_holds t, List.nil_suffix, fun _ => rfl⟩

theorem InTurn.idle (hs : InTurn server awaited s) : Idle s := by
  obtain ⟨bytes, hbytes, hsuffix, -⟩ := hs.unread
  exact ⟨hs.queue, bytes, hbytes, hsuffix⟩

theorem InTurn.supply (hs : InTurn server awaited s) (reads : List ReadEvent)
    (writes : List WriteEvent) : InTurn server awaited (s.supply reads writes) :=
  ⟨hs.queue, hs.count, hs.unread⟩

theorem InTurn.sent (hs : InTurn server awaited s) {bytes : Bytes} (h : Sent s s' bytes) :
    InTurn server awaited s' := by
  obtain ⟨pieces, hhistory, -⟩ := h.history
  have htexts : textsOf (pieces.map .sent) = [] := by simp [textsOf, linesOf_sent]
  obtain ⟨unread, ⟨room, hholds⟩, hsuffix, hreplies⟩ := hs.unread
  refine ⟨h.queue.trans hs.queue, ?_, unread, ⟨room, h.buffer.trans hholds⟩, ?_, fun hserved => ?_⟩
  · simpa [hhistory, linesOf_sent, answersOf_sent] using hs.count
  · exact h.received_eq ▸ hsuffix
  · rw [h.received_eq, hreplies (hserved.mono ⟨_, hhistory.symm⟩)]
    simp [hhistory, answersOf_sent, htexts]

/-- A line more is awaited. -/
theorem InTurn.line (hs : InTurn server false s) (command : Command) (text : Bytes) :
    InTurn server true { s with history := s.history ++ [.line command text] } := by
  have hlines : linesOf [.line command text] = [⟨command, text⟩] := rfl
  have hanswers : answersOf [.line command text] = [] := rfl
  have hcount : (answersOf s.history).length = (linesOf s.history).length + 1 := hs.count
  obtain ⟨unread, hholds, hsuffix, hreplies⟩ := hs.unread
  refine ⟨hs.queue, by simp [hlines, hanswers, hcount], unread, hholds, ?_, fun hserved => ?_⟩
  · simpa using hsuffix
  · have hcongr := server.replies_congr (k := (answersOf s.history).length)
      (List.prefix_append (textsOf s.history) (textsOf [.line command text]))
      (by rw [textsOf_length]; omega)
    simp only [received_append, received_line, List.append_nil, answersOf_append, hanswers,
      textsOf_append, hcongr]
    exact hreplies (hserved.mono (List.prefix_append _ _))

/-- The response that is parsed in turn is the answer to the last line. -/
theorem InTurn.reply {new rest : Bytes} {command : Command} {response : Response}
    (hs : InTurn server true s) {unread : Bytes}
    (hreplies : received s.history =
      server.replies (textsOf s.history) (answersOf s.history).length ++ unread)
    (hcommand : ReadsAs command (lastCommand (linesOf s.history))) {history : List Event}
    (hlines : linesOf history = linesOf s.history)
    (hreceived : received history = received s.history ++ new) (hserved : Served server history)
    (hparse : Parser.parse (unread ++ new) command = .ok rest response) :
    Parser.parse (server (textsOf s.history)) command = .ok [] response ∧
      unread ++ new = server (textsOf s.history) ++ rest := by
  have hcount : (answersOf s.history).length = (textsOf s.history).length := by
    rw [textsOf_length]
    exact Nat.succ.inj hs.count
  obtain ⟨response', hwell⟩ := hserved.wellFormed (linesOf s.history) (hlines ▸ List.prefix_rfl)
  rw [← hcommand.parse_eq] at hwell
  obtain ⟨texts, htexts, htraffic⟩ := hserved.traffic
  have htexts : textsOf s.history <+: texts := by simpa [textsOf, hlines] using htexts
  -- What came in, up to the answer to the last line and on.
  have hnext : server.replies texts ((textsOf s.history).length + 1) =
      server.replies (textsOf s.history) (textsOf s.history).length ++
        server (textsOf s.history) := by
    rw [server.replies_congr htexts (Nat.le_refl _), server.replies_succ, List.take_length]
  obtain ⟨tail, htail⟩ := server.replies_mono texts (Nat.succ_le_succ htexts.length_le)
  rw [hreceived, hreplies, hcount, ← htail, hnext, List.append_assoc, List.append_assoc,
    List.prefix_append_right_inj] at htraffic
  obtain ⟨rfl, hsplit⟩ := parse_reply hparse htraffic hwell
  exact ⟨hwell, hsplit⟩

/-- A read in turn returns the answer to the last line, and then none is awaited. -/
theorem InTurn.answered {command : Command} {answer : Except Error Response}
    (hs : InTurn server true s) (hcommand : ReadsAs command (lastCommand (linesOf s.history)))
    (h : readResponse command s = finished answer s') (hanswer : Answered answer) :
    InTurn server false s' ∧ (Served server s'.history →
      ∃ response, Parser.parse (server (textsOf s'.history)) command = .ok [] response ∧
        answer = deliver response) := by
  obtain ⟨unread, hunread, hsuffix, hreplies⟩ := hs.unread
  obtain ⟨response, hpolls, rfl⟩ := (readResponse_finished hunread hanswer).mp h
  obtain ⟨t, ht, hends⟩ := hpolls.last
  obtain ⟨new, hnew, hreceived, hqueue⟩ := ht.holds hunread
  obtain ⟨pieces, hpieces⟩ := ht.onlyReceived
  obtain ⟨command', queue, rest, hq, hparse, hrest, rfl⟩ := decode_eq_some hends
  obtain ⟨rfl, rfl⟩ : command = command' ∧ [] = queue := by
    simpa [hqueue, awaiting, hs.queue] using hq
  rw [hnew.take] at hparse
  have hlines : linesOf (t.history ++ [.answered command response]) = linesOf s.history := by
    rw [hpieces, linesOf_append, linesOf_append, linesOf_received, List.append_nil]
    exact List.append_nil _
  have hanswers : (answersOf (t.history ++ [.answered command response])).length =
      (answersOf s.history).length + 1 := by
    rw [hpieces, answersOf_append, answersOf_append, answersOf_received, List.append_nil]
    exact List.length_append
  have htexts : textsOf (t.history ++ [.answered command response]) = textsOf s.history := by
    rw [textsOf, hlines, textsOf]
  have hreceived : received (t.history ++ [.answered command response]) =
      received s.history ++ new := by simpa [awaiting] using hreceived
  have hbefore : s.history <+: t.history ++ [.answered command response] := by
    rw [hpieces]
    exact (List.prefix_append _ _).trans (List.prefix_append _ _)
  have hreply := fun hserved => hs.reply (hreplies (hserved.mono hbefore)) hcommand hlines
    hreceived hserved hparse
  refine ⟨⟨rfl, ?_, rest, ⟨_, rfl⟩, ?_, fun hserved => ?_⟩, fun hserved => ?_⟩
  · rw [hlines, hanswers]
    exact hs.count
  · rw [hreceived]
    exact ((Parser.parse_stable _).suffix hparse).trans
      ((List.suffix_append_self_iff ..).mpr hsuffix)
  · have hcount : (answersOf s.history).length = (textsOf s.history).length := by
      rw [textsOf_length]
      exact Nat.succ.inj hs.count
    rw [hreceived, hreplies (hserved.mono hbefore), htexts, hanswers, server.replies_succ, hcount,
      List.take_length, List.append_assoc, List.append_assoc, (hreply hserved).2]
  · exact ⟨response, by rw [htexts]; exact (hreply hserved).1, rfl⟩

omit [Host] in
theorem hasAnswer_answered {r : Outcome} (h : hasAnswer r = true) :
    ∃ answer, Answered answer ∧ r = finished answer (stateOf r) := by
  cases r with
  | ok response s => exact ⟨.ok response, trivial, rfl⟩
  | error x s =>
    cases x with
    | error e =>
      obtain ⟨message, kind⟩ := e
      cases kind with
      | serverError text => exact ⟨.error _, ⟨text, rfl⟩, rfl⟩
      | _ => cases h
    | pending => cases h
    | panicked => cases h

theorem judged_of_own {command : Command} {r : Outcome}
    (h : ∀ answer, Answered answer → r = finished answer (stateOf r) →
      server.Behaves (stateOf r).history → ∃ response,
        Parser.parse (server (textsOf (stateOf r).history)) command = .ok [] response ∧
          answer = deliver response) : judged server command r = r := by
  unfold judged
  split
  · next hanswered =>
    obtain ⟨answer, hanswer, hr⟩ := hasAnswer_answered hanswered
    unfold ownAnswer
    by_cases hserver : server.Behaves (stateOf r).history
    · obtain ⟨response, hparse, rfl⟩ := h answer hanswer hr hserver
      simp only [hserver, if_true, hparse]
      exact hr.symm
    · simp only [hserver, if_false]
  · rfl

/-! ## Steps of an exchange -/

/-- In turn, and the answer that is awaited is one to read with the command. -/
def Turn (server : Server) (awaited : Option Command) (s : PopStream) : Prop :=
  InTurn server awaited.isSome s ∧
    ∀ command ∈ awaited, ReadsAs command (lastCommand (linesOf s.history))

/-- There are lines that will never be caught up with. -/
def Behind (awaited : Option Command) (s : PopStream) : Prop :=
  (answersOf s.history).length + awaited.isSome.toNat ≤ (linesOf s.history).length

theorem Turn.reads {s : PopStream} {command awaited : Command} (hs : Turn server (some awaited) s)
    (h : ReadsAs command awaited) : Turn server (some command) s :=
  ⟨hs.1, by rintro _ ⟨⟩; exact h.trans (hs.2 awaited rfl)⟩

omit [Host] in
theorem lastCommand_append (lines : List Line) (line : Line) :
    lastCommand (lines ++ [line]) = line.command := by simp [lastCommand]

/-- Writing a line, from in turn. -/
theorem line_turn {m : Exec Error PopStream Unit} {bytes : Bytes} (hm : Sends m bytes)
    (command : Command) (text : Bytes) :
    Triple (Turn server none) (do m; record (.line command text))
      (fun _ => Turn server (some command)) (fun _ => Turn server none) := by
  refine .bind (hm.keeps_sent fun hsent hs => ⟨hs.1.sent hsent, nofun⟩) fun _ => .modify fun s hs => ?_
  refine ⟨hs.1.line command text, ?_⟩
  rintro _ ⟨⟩
  rw [linesOf_append]
  exact .inl (lastCommand_append _ ⟨command, text⟩).symm

omit [Host] in
theorem line_behind {m : Exec Error PopStream Unit} {bytes : Bytes} (hm : Sends m bytes)
    (command : Command) (text : Bytes) :
    Triple (Behind none) (do m; record (.line command text))
      (fun _ => Behind (some command)) (fun _ => Behind none) := by
  refine .bind (hm.keeps_sent fun {s s' _} hsent hs => ?_) fun _ => .modify fun s hs => ?_
  · obtain ⟨pieces, hhistory, -⟩ := hsent.history
    simpa [Behind, hhistory, linesOf_sent, answersOf_sent] using hs
  · have hlines : linesOf [.line command text] = [⟨command, text⟩] := rfl
    have hanswers : answersOf [.line command text] = [] := rfl
    simpa [Behind, hlines, hanswers] using hs

omit [Host] in
theorem OnlyReceived.behind (h : OnlyReceived s.history s')
    (hs : (answersOf s.history).length ≤ (linesOf s.history).length) : Behind none s' := by
  obtain ⟨pieces, hhistory⟩ := h
  simpa [Behind, hhistory, linesOf_received, answersOf_received] using hs

/-- Reading the answer, from in turn. Without it the stream is behind. -/
theorem readResponse_turn (command : Command) :
    Triple (Turn server (some command)) (readResponse command)
      (fun _ s => Turn server none s ∨ Behind none s)
      (fun _ s => Turn server none s ∨ Behind none s) := by
  refine .of_stateOf fun s ⟨hs, hcommand⟩ => ?_
  rcases readResponse_history command s with ⟨response, -, hr⟩ | hreceived
  · exact .inl ⟨(hs.answered (hcommand command rfl) hr (deliver_answered response)).1, nofun⟩
  · exact .inr (hreceived.behind (Nat.le_of_eq (Nat.succ.inj hs.count)))

theorem readResponse_behind (command awaited : Command) :
    Triple (Behind (some awaited)) (readResponse command) (fun _ => Behind none)
      (fun _ => Behind none) := by
  refine .of_stateOf fun s (hs : _ + 1 ≤ _) => ?_
  rcases readResponse_history command s with ⟨response, ⟨pieces, c, hhistory⟩, -⟩ | hreceived
  · have hlines : linesOf [.answered c response] = [] := rfl
    have hanswers : answersOf [.answered c response] = [(c, response)] := rfl
    simpa [Behind, hhistory, linesOf_received, answersOf_received, hlines, hanswers] using hs
  · exact hreceived.behind (Nat.le_of_succ_le hs)

/-! ## On time -/

theorem readResponse_lined (command : Command) :
    Triple Lined (readResponse command) (fun _ => Lined) fun _ => Lined := by
  refine .of_stateOf fun s hs => ?_
  have hkept : ∀ {s' : PopStream} {pieces : List Bytes} (after : List Event),
      s'.history = s.history ++ pieces.map .received ++ after → linesOf after = [] →
        sent after = [] → Lined s' := by
    intro s' pieces after hhistory hlines hsent
    simpa [Lined, textsOf, hhistory, linesOf_received, sent_received, hlines, hsent] using hs
  rcases readResponse_history command s with ⟨response, ⟨pieces, c, h⟩, -⟩ | ⟨pieces, h⟩
  · exact hkept _ h rfl rfl
  · exact hkept [] (by simpa using h) rfl rfl

/-- The failures of the transport last, and it never accepts nothing. -/
def Fit (s : PopStream) : Prop := s.stream.sticky = true ∧ .ready 0 ∉ s.stream.writes

omit [Host] in
theorem framed_fit : Framed (fun _ => True) Fit where
  buffer _ _ h := h
  decodeNeeds _ _ h := h
  stream _ _ h ht := ⟨ht.sticky.trans h.1, fun hmem => h.2 (ht.writes.mem hmem)⟩
  sent _ _ h := h
  line _ _ _ h := h
  received _ _ h := h
  add _ _ _ h := h
  done _ _ _ _ h := h
  answered _ _ _ _ _ h := h

omit [Host] in
/-- A line that is not written in full cuts the stream off. -/
theorem line_lined {text : Bytes} (htext : lf ∉ text) (command : Command) :
    Triple (fun s => Fit s ∧ Lined s) (do sendBytes text; record (.line command text))
      (fun _ => Lined) (fun x s => x.IsError → s.stream.broken ≠ none) := by
  refine .bind (R := fun _ s => sent s.history = wire (textsOf s.history ++ [text]) ∧
    ∀ text ∈ textsOf s.history, lf ∉ text) ?_ fun _ => .modify fun s hs => ?_
  · refine .of_pre fun s ⟨hfit, hs⟩ => (sendBytes_sends text s).consequence (fun _ h => h) ?_ ?_
    · rintro _ s' ⟨hsent, -⟩
      obtain ⟨pieces, hhistory, hpieces⟩ := hsent.history
      have htexts : textsOf (pieces.map .sent) = [] := by simp [textsOf, linesOf_sent]
      have hbytes : sent (pieces.map .sent) = text ++ endOfLine := (sent_sent pieces).trans hpieces
      rw [hhistory, sent_append, textsOf_append, htexts, hbytes, List.append_nil, wire_append, hs.1]
      exact ⟨by simp [wire], hs.2⟩
    · rintro x s' ⟨⟨_, _, hsent⟩, hx⟩ hend
      cases x with
      | error e =>
        obtain ⟨io, -, hfailed | ⟨-, hzero⟩⟩ := hx
        · simp [Transport.broken, hsent.after.sticky, hfit.1, hfailed]
        · exact absurd hzero hfit.2
      | pending => exact hend.elim
      | panicked => exact hend.elim
  · have htexts : textsOf [.line command text] = [text] := rfl
    have hsent : sent [.line command text] = [] := rfl
    refine ⟨by simp [htexts, hsent, hs.1], fun t ht => ?_⟩
    rcases List.mem_append.mp (textsOf_append _ _ ▸ ht) with ht | ht
    · exact hs.2 t ht
    · exact List.mem_singleton.mp ht ▸ htext

/-- In turn on a fit transport, stuck, or cut off before the next line. -/
def OnTime (server : Server) (awaited : Option Command) (s : PopStream) : Prop :=
  Fit s ∧ (Turn server awaited s ∧ Lined s ∨ Stuck s ∨ awaited = none ∧ s.stream.broken ≠ none)

theorem OnTime.reads {s : PopStream} {command awaited : Command}
    (hs : OnTime server (some awaited) s) (h : ReadsAs command awaited) :
    OnTime server (some command) s :=
  ⟨hs.1, hs.2.imp (fun hs => ⟨hs.1.reads h, hs.2⟩) fun hs => hs.imp_right nofun⟩

theorem line_onTime {text : Bytes} (htext : lf ∉ text) (command : Command) :
    Triple (OnTime server none) (do sendBytes text; record (.line command text))
      (fun _ => OnTime server (some command)) (fun x s => x.IsError → OnTime server none s) := by
  have hfit : Keeps Exit.IsError Fit (do sendBytes text; record (.line command text)) :=
    .bind (sendBytes_keeps framed_fit text) fun _ => .modify fun _ h => h
  have hstuck : Keeps Exit.IsError Stuck (do sendBytes text; record (.line command text)) :=
    (sendBytes_sends text).keeps_line (fun _ _ h => h.stuck) command text
  have hturn := (line_lined htext command).and
    (line_turn (sendBytes_sends text) command text : Triple (Turn server none) _ _ _)
  rintro s ⟨hs, hcase⟩
  have hfit := hfit s hs
  rcases hcase with ⟨hcase, hlined⟩ | hcase | ⟨-, hcut⟩
  · have hturn := hturn s ⟨⟨hs, hlined⟩, hcase⟩
    split at hfit <;> simp only [*] at hturn
    · exact ⟨hfit, .inl hturn.symm⟩
    · exact fun hx => ⟨hfit hx, .inr (.inr ⟨rfl, hturn.1 hx⟩)⟩
  · have hstuck := hstuck s hcase
    split at hfit <;> simp only [*] at hstuck
    · exact ⟨hfit, .inr (.inl hstuck)⟩
    · exact fun hx => ⟨hfit hx, .inr (.inl (hstuck hx))⟩
  · obtain ⟨e, he⟩ := Option.ne_none_iff_exists'.mp hcut
    simp only [bind_apply, sendBytes_broken he]
    exact fun _ => ⟨hs, .inr (.inr ⟨rfl, hcut⟩)⟩

/-- On a fit transport, a read on time is paired or never answered. -/
theorem readResponse_agree (command : Command) :
    Agree (OnTime server (some command)) (readResponse command)
      ((paired server).readResponse command) (fun _ => OnTime server none)
      (fun x s => x.IsError → OnTime server none s) := by
  have hlined := readResponse_lined command
  refine ⟨fun s ⟨hfit, hs⟩ => ?_, fun s ⟨_, hs⟩ => ?_⟩
  · have hkeeps : Keeps (fun _ => True) Fit (readResponse command) :=
      readResponse_keeps framed_fit trivial
    have hfit' := hkeeps s hfit
    have hstuck := readResponse_stuck command s
    cases hread : readResponse command s with
    | ok response s' =>
      rw [hread] at hfit' hstuck
      rcases hs with ⟨⟨hs, hcommand⟩, hline⟩ | hs | ⟨hnone, -⟩
      · have hfinished : readResponse command s = finished (.ok response) s' := hread
        have hturn := (hs.answered (hcommand command rfl) hfinished trivial).1
        exact ⟨hfit', .inl ⟨⟨hturn, nofun⟩, hlined.ok hline hread⟩⟩
      · exact (hstuck hs).elim
      · cases hnone
    | error x s' =>
      rw [hread] at hfit' hstuck
      cases x with
      | error e =>
        refine fun _ => ⟨hfit' trivial, ?_⟩
        rcases hs with ⟨⟨hs, hcommand⟩, hline⟩ | hs | ⟨hnone, -⟩
        · by_cases he : ∃ text, e.kind = .serverError text
          · have hfinished : readResponse command s = finished (.error e) s' := hread
            have hturn := (hs.answered (hcommand command rfl) hfinished he).1
            exact .inl ⟨⟨hturn, nofun⟩, hlined.exit hline hread⟩
          · exact .inr (.inl (readResponse_idle_error hs.idle hfit.1 hread
              fun text htext => he ⟨text, htext⟩))
        · exact .inr (.inl (hstuck hs).1)
        · cases hnone
      | pending => exact False.elim
      | panicked => exact False.elim
  · refine judged_of_own fun answer hanswer hr hserver => ?_
    rcases hs with ⟨⟨hs, hcommand⟩, hline⟩ | hstuck | ⟨hnone, -⟩
    · exact (hs.answered (hcommand command rfl) hr hanswer).2 ((hlined.stateOf hline).served hserver)
    · -- Nothing is read.
      have h := readResponse_stuck command s hstuck
      rw [hr] at h
      cases answer with
      | ok response => exact h.elim
      | error e =>
        obtain ⟨text, htext⟩ := hanswer
        exact absurd htext (h.2 text)
    · cases hnone

end PopStream

end Pop
