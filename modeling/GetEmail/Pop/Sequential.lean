-- SUMMARY: The stream refines the plain sequential parse of everything that came in.
import GetEmail.Pop.ParserStable
import GetEmail.Pop.Polling

/-!
# The sequential parse

What a session reads is specified by parsing the received bytes front to back,
one response for each command. Stability under extension makes the incremental
loop agree with it: bytes that came in after a response do not change it.
-/

namespace Pop

open Exec
open Nom (Bytes ascii)

variable [Host]

/-- Parse one response for each command from the front of `input`. -/
def sequential (input : Bytes) : List Command → Option (List Response × Bytes)
  | [] => some ([], input)
  | command :: commands =>
    match Parser.parse input command with
    | .ok rest response =>
      (sequential rest commands).map fun (responses, unread) => (response :: responses, unread)
    | _ => none

theorem sequential_append {input unread : Bytes} {commands : List Command}
    {responses : List Response} (h : sequential input commands = some (responses, unread))
    (new : Bytes) : sequential (input ++ new) commands = some (responses, unread ++ new) := by
  induction commands generalizing input responses with
  | nil =>
    cases h
    rfl
  | cons command commands ih =>
    simp only [sequential] at h ⊢
    split at h
    · next hparse =>
      obtain ⟨⟨responses', unread'⟩, hrest, heq⟩ := Option.map_eq_some_iff.mp h
      cases heq
      simp [(Parser.parse_stable command).ok hparse new, ih hrest]
    · cases h

theorem sequential_concat {input unread rest : Bytes} {commands : List Command}
    {responses : List Response} (h : sequential input commands = some (responses, unread))
    {command : Command} {response : Response}
    (hparse : Parser.parse unread command = .ok rest response) :
    sequential input (commands ++ [command]) = some (responses ++ [response], rest) := by
  induction commands generalizing input responses with
  | nil =>
    cases h
    simp [sequential, hparse]
  | cons command' commands ih =>
    simp only [sequential, List.cons_append] at h ⊢
    split at h
    · obtain ⟨⟨responses', unread'⟩, hrest, heq⟩ := Option.map_eq_some_iff.mp h
      cases heq
      simp [ih hrest]
    · cases h

/-- What is unread is the end of the input. -/
theorem sequential_suffix {input unread : Bytes} {commands : List Command}
    {responses : List Response} (h : sequential input commands = some (responses, unread)) :
    unread <:+ input := by
  induction commands generalizing input responses with
  | nil =>
    cases h
    exact List.suffix_rfl
  | cons command commands ih =>
    simp only [sequential] at h
    split at h
    · next hparse =>
      obtain ⟨⟨responses', unread'⟩, hrest, heq⟩ := Option.map_eq_some_iff.mp h
      cases heq
      exact (ih hrest).trans ((Parser.parse_stable command).suffix hparse)
    · cases h

namespace PopStream

/-! ## Sessions -/

/-- The transport goes on with other events. -/
def supply (s : PopStream) (reads : List ReadEvent) (writes : List WriteEvent) : PopStream :=
  { s with stream := { s.stream with reads := reads, writes := writes } }

/-- The sessions of calls that were answered, with the command and the answer of
each call. -/
inductive Session : List (Command × Except Error Response) → PopStream → Prop where
  | new (stream : Transport) : Session [] (new stream)
  | call {calls : List (Command × Except Error Response)} {s s₁ s₂ : PopStream}
      (h : Session calls s) (request : Request) {reads reads' : List ReadEvent}
      {writes writes' : List WriteEvent} {answer : Except Error Response}
      (hencode : encode request (s.supply reads writes) = .ok () s₁)
      (hread : readResponse request.command (s₁.supply reads' writes') = finished answer s₂)
      (hanswer : Answered answer) :
      Session (calls ++ [(request.command, answer)]) s₂

/-- Between calls nothing is awaited, and the buffer holds what the sequential
parse has not read. -/
theorem Session.sequential {calls : List (Command × Except Error Response)} {s : PopStream}
    (h : Session calls s) : ∃ responses unread,
      Pop.sequential (received s.history) (calls.map Prod.fst) = some (responses, unread) ∧
      calls.map Prod.snd = responses.map deliver ∧ s.queue = [] ∧
      ∃ room, s.buffer = .holding unread room ∧ unread.length + room = Buffer.chunkSize := by
  induction h with
  | new stream => exact ⟨[], [], rfl, rfl, rfl, Buffer.chunkSize, rfl, rfl⟩
  | @call calls s s₁ s₂ _ request reads reads' writes writes' answer hencode hread hanswer ih =>
    obtain ⟨responses, unread, hseq, hanswers, hqueue, room, hbuffer, -⟩ := ih
    have hsent := ((encode_sends request _).ok rfl hencode).1
    obtain ⟨new, rest, response, hreceived, hparse, hrest, rfl, hqueue', hbuffer'⟩ :=
      readResponse_answered (s := s₁.supply reads' writes') ⟨room, hsent.buffer.trans hbuffer⟩
        (hsent.queue.trans hqueue) hread hanswer
    refine ⟨responses ++ [response], rest, ?_, by simp [hanswers], hqueue', _, hbuffer', by omega⟩
    rw [hreceived, List.map_append]
    refine sequential_concat ?_ hparse
    have hreceived₁ : received (s₁.supply reads' writes').history = received s.history :=
      hsent.received_eq
    exact hreceived₁ ▸ sequential_append hseq new

/-! ## Intermediate states -/

/-- The states that the next exchange of a session goes through: while the line is
sent, and while the answer is awaited. -/
inductive Passes (s : PopStream) (request : Request) : PopStream → Prop where
  | sending {reads : List ReadEvent} {writes : List WriteEvent} {x : Exit Error} {t : PopStream}
      (hencode : encode request (s.supply reads writes) = .error x t) : Passes s request t
  | decoding {reads reads' : List ReadEvent} {writes writes' : List WriteEvent}
      {s₁ t : PopStream} (hencode : encode request (s.supply reads writes) = .ok () s₁)
      (h : Decodes ((s₁.supply reads' writes').awaiting request.command) t) : Passes s request t
  | reading {t t' : PopStream} (h : Passes s request t) (hdecode : decode t = .ok none t') :
      Passes s request t'
  | waiting {t t' : PopStream} {x : Exit Error} (h : Passes s request t)
      (hreceive : receive t = .error x t') : Passes s request t'

theorem Passes.holds {s t : PopStream} {request : Request} {unread : Bytes}
    (ht : Passes s request t) (h : s.Holds unread) : ∃ new,
      t.Holds (unread ++ new) ∧ received t.history = received s.history ++ new := by
  induction ht with
  | sending hencode =>
    obtain ⟨sent, -, hsent⟩ := ((encode_sends request _).exit rfl hencode).1
    refine ⟨[], ?_, hsent.received_eq.trans (List.append_nil _).symm⟩
    obtain ⟨room, hbuffer⟩ := h
    exact ⟨room, by simpa using hsent.buffer.trans hbuffer⟩
  | @decoding reads reads' writes writes' s₁ t hencode ht =>
    have hsent := ((encode_sends request _).ok rfl hencode).1
    obtain ⟨room, hbuffer⟩ := h
    obtain ⟨new, hholds, hreceived, -⟩ := ht.holds ⟨room, hsent.buffer.trans hbuffer⟩
    exact ⟨new, hholds, hreceived.trans (congrArg (· ++ new) hsent.received_eq)⟩
  | reading _ hdecode ih =>
    obtain ⟨new, hholds, hreceived⟩ := ih
    obtain ⟨hholds', -, -, hhistory⟩ := decode_none_holds hholds hdecode
    exact ⟨new, hholds', hhistory ▸ hreceived⟩
  | waiting _ hreceive ih =>
    obtain ⟨new, hholds, hreceived⟩ := ih
    obtain ⟨hholds', -, hhistory, -⟩ := receive_error_holds hholds hreceive
    exact ⟨new, hholds', hhistory ▸ hreceived⟩

/-- A session of answered calls returns the responses of the sequential parse.
Between the calls nothing is awaited. In every state of the next exchange the bytes
below the cursor are the received bytes that no response has consumed. -/
theorem session_refines {calls : List (Command × Except Error Response)} {s : PopStream}
    (h : Session calls s) : ∃ responses unread consumed,
      Pop.sequential (received s.history) (calls.map Prod.fst) = some (responses, unread) ∧
      calls.map Prod.snd = responses.map deliver ∧
      s.queue = [] ∧
      received s.history = consumed ++ unread ∧
      ∀ request t, t = s ∨ Passes s request t →
        t.buffer.cursor ≤ t.buffer.inner.length ∧
          received t.history = consumed ++ t.buffer.inner.take t.buffer.cursor := by
  obtain ⟨responses, unread, hseq, hanswers, hqueue, room, hbuffer, -⟩ := h.sequential
  obtain ⟨consumed, hconsumed⟩ := sequential_suffix hseq
  have hs : s.Holds unread := ⟨room, hbuffer⟩
  refine ⟨responses, unread, consumed, hseq, hanswers, hqueue, hconsumed.symm, ?_⟩
  rintro request t (rfl | ht)
  · exact ⟨hs.le, by rw [hs.take, hconsumed]⟩
  · obtain ⟨new, hholds, hreceived⟩ := ht.holds hs
    exact ⟨hholds.le, by rw [hholds.take, hreceived, ← hconsumed, List.append_assoc]⟩

omit [Host] in
/-- The second call is answered with what the first one has left in the buffer, and the
rest of it. -/
theorem session_refines_stat : ∃ (calls : List (Command × Except Error Response)) (s : PopStream),
    @Session (.bare false) calls s ∧
      calls = [(.stat, .ok (.stat ⟨⟨ascii "2"⟩, ⟨ascii "320"⟩⟩)),
        (.noop, .error ⟨"Server error", .serverError (ascii "busy")⟩)] ∧
      ∃ responses unread consumed,
        @Pop.sequential (.bare false) (received s.history) (calls.map Prod.fst) =
          some (responses, unread) ∧
        calls.map Prod.snd = responses.map deliver ∧
        s.queue = [] ∧
        received s.history = consumed ++ unread ∧
        ∀ request t, t = s ∨ @Passes (.bare false) s request t →
          t.buffer.cursor ≤ t.buffer.inner.length ∧
            received t.history = consumed ++ t.buffer.inner.take t.buffer.cursor := by
  let host : Host := .bare false
  let r₁ := encode (.ofCommand .stat) ((new ⟨[], [], false, none⟩).supply []
    [.ready 3, .pending, .ready 9, .ready 2, .ready 0])
  let r₂ := readResponse .stat ((stateOf r₁).supply
    [.data (ascii "+OK 2"), .data (ascii " 32"), .data (ascii "0\r\n-ERR b")] [])
  let r₃ := encode (.ofCommand .noop) ((stateOf r₂).supply [] [.ready 9, .ready 9, .ready 9])
  let r₄ := readResponse .noop ((stateOf r₃).supply [.data (ascii "usy\r"), .data (ascii "\n+O")] [])
  have hstat : value? r₁ = some () := by decide
  have hanswered : value? r₂ = some (.stat ⟨⟨ascii "2"⟩, ⟨ascii "320"⟩⟩) := by decide +kernel
  have hnoop : value? r₃ = some () := by decide +kernel
  have hrefused : exit? r₄ = some (.error ⟨"Server error", .serverError (ascii "busy")⟩) := by
    decide +kernel
  have hfirst : Session [(.stat, .ok (.stat ⟨⟨ascii "2"⟩, ⟨ascii "320"⟩⟩))] (stateOf r₂) :=
    .call (.new _) (.ofCommand .stat) (eq_ok_of_value? hstat) (eq_ok_of_value? hanswered) trivial
  have hsession : Session [_, (.noop, .error ⟨"Server error", .serverError (ascii "busy")⟩)]
      (stateOf r₄) :=
    .call hfirst (.ofCommand .noop) (eq_ok_of_value? hnoop) (eq_error_of_exit? hrefused) ⟨_, rfl⟩
  exact ⟨_, _, hsession, rfl, session_refines hsession⟩

end PopStream

end Pop
