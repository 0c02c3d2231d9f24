-- SUMMARY: What no operation of the stream changes.
import GetEmail.Pop.Sasl
import GetEmail.Pop.StreamSteps

/-!
# Frames

What the steps of the stream keep is kept by its operations: whether the
transport is sticky, what is in the history, and, for calls with the same
command, that no other command is answered.
-/

namespace Pop

open Exec
open Nom (Bytes)

variable {counts : Exit Error → Prop}

/-! ## Stream -/

namespace PopStream

/-- `P` is kept by reads. -/
structure Reading (P : PopStream → Prop) : Prop where
  buffer (s : PopStream) (buffer : Buffer) : P s → P { s with buffer := buffer }
  stream (s : PopStream) (t : Transport) :
    P s → s.stream.After t → P { s with stream := t }
  received (s : PopStream) (bytes : Bytes) :
    P s → P { s with history := s.history ++ [.received bytes] }

/-- `P` is kept by every step of calls with commands that `accepts` has. -/
structure Framed (accepts : Command → Prop) (P : PopStream → Prop) : Prop extends Reading P where
  decodeNeeds (s : PopStream) (n : Nat) : P s → P { s with decodeNeeds := n }
  sent (s : PopStream) (bytes : Bytes) :
    P s → P { s with history := s.history ++ [.sent bytes] }
  line (s : PopStream) (command : Command) (bytes : Bytes) :
    P s → P { s with history := s.history ++ [.line command bytes] }
  add (s : PopStream) (command : Command) :
    accepts command → P s → P { s with queue := s.queue ++ [command] }
  done (s : PopStream) (command : Command) (queue : CommandQueue) :
    s.queue = command :: queue → P s → P { s with queue := queue }
  answered (s : PopStream) (command : Command) (queue : CommandQueue) (response : Response) :
    s.queue = command :: queue → P s →
      P { s with queue := queue, history := s.history ++ [.answered command response] }

theorem framed_sticky (b : Bool) : Framed (fun _ => True) fun s => s.stream.sticky = b where
  buffer _ _ h := h
  decodeNeeds _ _ h := h
  stream _ _ h ht := ht.sticky.trans h
  sent _ _ h := h
  line _ _ _ h := h
  received _ _ h := h
  add _ _ _ h := h
  done _ _ _ _ h := h
  answered _ _ _ _ _ h := h

theorem framed_writes (n : Nat) : Framed (fun _ => True) fun s => s.stream.writes.length < n where
  buffer _ _ h := h
  decodeNeeds _ _ h := h
  stream _ _ h ht := Nat.lt_of_le_of_lt ht.writes.length_le h
  sent _ _ h := h
  line _ _ _ h := h
  received _ _ h := h
  add _ _ _ h := h
  done _ _ _ _ h := h
  answered _ _ _ _ _ h := h

theorem framed_history (history : List Event) :
    Framed (fun _ => True) fun s => history <+: s.history where
  buffer _ _ h := h
  decodeNeeds _ _ h := h
  stream _ _ h _ := h
  sent _ _ h := h.trans (List.prefix_append _ _)
  line _ _ _ h := h.trans (List.prefix_append _ _)
  received _ _ h := h.trans (List.prefix_append _ _)
  add _ _ _ h := h
  done _ _ _ _ h := h
  answered _ _ _ _ _ h := h.trans (List.prefix_append _ _)

/-- Only `command` is awaited, and only it was answered after `history`. -/
def OnlyAnswers (command : Command) (history : List Event) (s : PopStream) : Prop :=
  (∀ c ∈ s.queue, c = command) ∧ ∃ after, s.history = history ++ after ∧
    ∀ c response, .answered c response ∈ after → c = command

theorem OnlyAnswers.append {command : Command} {history : List Event} {s : PopStream}
    (h : OnlyAnswers command history s) (queue : CommandQueue) (hqueue : ∀ c ∈ queue, c = command)
    (e : Event) (he : ∀ c response, e = .answered c response → c = command) :
    OnlyAnswers command history { s with queue := queue, history := s.history ++ [e] } := by
  obtain ⟨-, after, hhistory, hafter⟩ := h
  refine ⟨hqueue, after ++ [e], by simp [hhistory], fun c response hmem => ?_⟩
  rcases List.mem_append.mp hmem with hmem | hmem
  · exact hafter c response hmem
  · exact he c response (List.mem_singleton.mp hmem).symm

theorem framed_onlyAnswers (command : Command) (history : List Event) :
    Framed (· = command) (OnlyAnswers command history) where
  buffer _ _ h := h
  decodeNeeds _ _ h := h
  stream _ _ h _ := h
  sent s bytes h := h.append s.queue h.1 (.sent bytes) nofun
  line s command bytes h := h.append s.queue h.1 (.line command bytes) nofun
  received s bytes h := h.append s.queue h.1 (.received bytes) nofun
  add s c hc h := by
    refine ⟨fun c' hc' => ?_, h.2⟩
    rcases List.mem_append.mp hc' with hc' | hc'
    · exact h.1 c' hc'
    · exact (List.mem_singleton.mp hc').trans hc
  done s c queue hq h := ⟨fun c' hc' => h.1 c' (hq ▸ List.mem_cons_of_mem c hc'), h.2⟩
  answered s c queue response hq h := by
    refine h.append queue (fun c' hc' => h.1 c' (hq ▸ List.mem_cons_of_mem c hc')) _ ?_
    intro c' response' heq
    cases heq
    exact h.1 c (hq ▸ List.mem_cons_self)

variable {accepts : Command → Prop} {P : PopStream → Prop}

section

variable (hP : Reading P)

include hP

theorem onBuffer_keeps {α : Type} (m : Exec Error Buffer α) : Keeps counts P (onBuffer m) :=
  .zoom .true (fun _ _ => trivial) fun s b hs _ => hP.buffer s b hs

theorem onStream_keeps {α : Type} {m : Exec Error Transport α}
    (hm : ∀ t, Keeps counts (Transport.After t) m) : Keeps counts P (onStream m) :=
  Triple.zoom fun s hs => (hm s.stream).consequence (fun _ ht => ht ▸ .refl s.stream)
    (fun _ t ht => hP.stream s t hs ht) fun _ t ht hx => hP.stream s t hs (ht hx)

theorem receive_keeps : Keeps counts P receive := by
  refine .bind .get fun s => .bind (onBuffer_keeps hP _) fun _ => .bind (onBuffer_keeps hP _)
    fun buf => .bind (onStream_keeps hP fun _ => Transport.pollRead_after _ _) fun polled => ?_
  cases polled with
  | none => exact .pure _
  | some bytes =>
    exact .bind (.modify fun s hs => hP.received s _ hs) fun _ => .bind (onBuffer_keeps hP _)
      fun _ => onBuffer_keeps hP _

end

variable (hP : Framed accepts P)

include hP

theorem writeTurn_keeps (buf : Bytes) : Keeps counts P (writeTurn buf) := by
  refine .ite (.pure _) ?_
  refine .bind (onStream_keeps hP.toReading fun _ => Transport.pollWrite_after _ buf) fun accepted => ?_
  split
  · exact .pure _
  · exact .fail _
  · exact .bind (.modify fun s hs => hP.sent s _ hs) fun _ => .pure _

theorem writeAll_keeps (buf : Bytes) : Keeps counts P (writeAll buf) :=
  .bind .get fun _ => .loop (writeTurn_keeps hP) _ _

theorem flush_keeps : Keeps counts P flush := by
  refine .bind .get fun s => .loop (fun _ => ?_) _ _
  refine .bind (onStream_keeps hP.toReading fun _ => Transport.pollWrite_after _ []) fun accepted => ?_
  cases accepted <;> exact .pure _

theorem sendBytes_keeps (buf : Bytes) : Keeps counts P (sendBytes buf) :=
  .bind (writeAll_keeps hP buf) fun _ => .bind (writeAll_keeps hP endOfLine) fun _ => flush_keeps hP

variable [Host]

theorem decode_keeps : Keeps counts P decode := by
  intro s hs
  by_cases hskip : s.buffer.cursor < s.decodeNeeds
  · rw [decode_skip hskip]
    exact hs
  have hle := Nat.not_lt.mp hskip
  cases hq : s.queue with
  | nil =>
    rw [decode_missing hle hq]
    exact fun _ => hs
  | cons command queue =>
    have hcases := decode_command hle hq
    generalize decode s = r at hcases
    cases hcases with
    | overrun => exact fun _ => hP.buffer s _ hs
    | accepted => exact hP.buffer _ _ (hP.answered s command queue _ hq hs)
    | untraceable => exact fun _ => hP.buffer s _ hs
    | overflow => exact fun _ => hP.buffer _ _ (hP.done s command queue hq hs)
    | incomplete => exact hP.decodeNeeds s _ hs
    | rejected => exact fun _ => hP.buffer s _ hs

theorem next_keeps : Keeps counts P next := by
  have hturn : ∀ u, Keeps counts P (readTurn u) := fun _ =>
    .bind (receive_keeps hP.toReading) fun _ => .bind (decode_keeps hP) fun response => by
      cases response <;> exact .pure _
  refine .bind (decode_keeps hP) fun response => ?_
  cases response with
  | some response => exact .pure _
  | none => exact .bind .get fun s => .loop hturn _ _

theorem readResponse_keeps {command : Command} (hcommand : accepts command) :
    Keeps counts P (readResponse command) := by
  have hadd : Keeps counts P (onQueue (CommandQueue.add command)) :=
    fun s hs => hP.add s command hcommand hs
  refine .bind hadd fun _ => .bind (next_keeps hP) fun response => ?_
  cases response with
  | err text => exact .fail _
  | _ => exact .pure _

theorem encode_keeps (request : Request) : Keeps counts P (Connection.encode request) :=
  .bind (sendBytes_keeps hP _) fun _ => .modify fun s hs => hP.line s _ _ hs

theorem exchange_keeps {request : Request} (hrequest : accepts request.command) :
    Keeps counts P (Connection.exchange request) :=
  .bind (encode_keeps hP request) fun _ => readResponse_keeps hP hrequest

omit hP in
theorem Framed.keep (hP : Framed (fun _ => True) P) : Connection.Keep counts P where
  encode := encode_keeps hP
  sendBytes buf := .bind (sendBytes_keeps hP buf) fun _ => .modify fun s hs => hP.line s _ _ hs
  readResponse _ := readResponse_keeps hP trivial

end PopStream

end Pop
