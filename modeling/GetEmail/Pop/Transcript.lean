-- SUMMARY: A connection that plays back a transcript, and the stream that simulates it.
import GetEmail.Exec.Simulation
import GetEmail.Pop.Chunking
import GetEmail.Pop.Fitting
import GetEmail.Pop.Pairing

/-!
# Transcripts

A transcript lists the lines of a session with the replies to them. As a connection it
takes each line in its turn, and has the reply to it ready in full. Over a network that
brings these replies, in whatever pieces, the stream simulates it.
-/

namespace Pop

open Exec
open Nom (Bytes)

/-- A line, and the reply to it. -/
structure Exchange where
  line : Bytes
  reply : Bytes
  deriving DecidableEq, Repr

/-- What is left of a transcript. -/
structure Transcript where
  /-- The reply to the last line, until it is read. -/
  awaited : Option Bytes
  coming : List Exchange
  deriving DecidableEq, Repr

namespace Transcript

/-- The replies that have not been read. -/
def replies (t : Transcript) : Bytes := t.awaited.getD [] ++ t.coming.flatMap Exchange.reply

/-- The transcript of a session that the server opens with `greeting` -/
def opening (greeting : Bytes) (exchanges : List Exchange) : Transcript := ⟨some greeting, exchanges⟩

/-- The transcript goes on with these exchanges. -/
def supply (t : Transcript) (exchanges : List Exchange) : Transcript :=
  { t with coming := exchanges }

/-- The line is the next of the transcript. -/
def writeLine (line : Bytes) : Exec Error Transcript Unit := do
  match ← get with
  | ⟨none, exchange :: coming⟩ =>
    if exchange.line = line then modify fun _ => ⟨some exchange.reply, coming⟩ else wait
  | _ => wait

variable [Host]

/-- The reply, if it is one response, and short enough for every buffer. -/
def response? (command : Command) (reply : Bytes) : Option Response :=
  match Parser.parse reply command with
  | .ok [] response => if reply.length + Parser.longest ≤ Buffer.maxSize + 1 then some response else none
  | _ => none

theorem response?_eq_some {command : Command} {reply : Bytes} {response : Response} :
    response? command reply = some response ↔
      Parser.parse reply command = .ok [] response ∧
        reply.length + Parser.longest ≤ Buffer.maxSize + 1 := by
  unfold response?
  split
  · next response' hparse =>
    rw [hparse]
    by_cases hlength : reply.length + Parser.longest ≤ Buffer.maxSize + 1
    · simp [hlength]
    · simp [hlength]
  · next hother =>
    refine iff_of_false nofun fun h => ?_
    exact hother response h.1

def readReply (command : Command) : Exec Error Transcript Response := do
  match (← get).awaited.bind (response? command) with
  | none => wait
  | some response =>
    modify fun t => { t with awaited := none }
    match PopStream.deliver response with
    | .ok response => return response
    | .error e => fail e

@[reducible] instance connection : Connection Transcript where
  encode request := writeLine request.display
  sendBytes buf := writeLine buf
  readResponse := readReply

omit [Host] in
/-- The transcript takes the line, or waits for ever. -/
theorem writeLine_cases (line : Bytes) (t : Transcript) :
    (∃ reply coming, t = ⟨none, ⟨line, reply⟩ :: coming⟩ ∧
        writeLine line t = .ok () ⟨some reply, coming⟩) ∨
      writeLine line t = .error .pending t := by
  obtain ⟨awaited, coming⟩ := t
  rcases awaited with _ | reply
  · rcases coming with _ | ⟨⟨line', reply⟩, coming⟩
    · exact .inr rfl
    · by_cases hline : line' = line
      · subst hline
        exact .inl ⟨reply, coming, rfl, by simp [writeLine]⟩
      · exact .inr (by simp [writeLine, hline])
  · exact .inr rfl

theorem readReply_cases (command : Command) (t : Transcript) :
    (∃ reply response, t.awaited = some reply ∧ response? command reply = some response ∧
        readReply command t = match PopStream.deliver response with
          | .ok response => .ok response { t with awaited := none }
          | .error e => .error (.error e) { t with awaited := none }) ∨
      readReply command t = .error .pending t := by
  simp only [readReply, bind_apply, get_apply]
  cases hread : t.awaited.bind (response? command) with
  | none => exact .inr rfl
  | some response =>
    obtain ⟨reply, hawaited, hresponse⟩ := Option.bind_eq_some_iff.mp hread
    refine .inl ⟨reply, response, hawaited, hresponse, ?_⟩
    simp only [bind_apply, modify_apply]
    cases PopStream.deliver response <;> rfl

end Transcript

/-! ## Simulation of connections -/

/-- The operations of the one connection simulate those of the other one. -/
structure Connection.Simulates {κ κ' : Type} (C : Connection κ) (C' : Connection κ')
    (R : κ → κ' → Prop) : Prop where
  encode (request : Request) : Exec.Simulates R (C.encode request) (C'.encode request)
  sendBytes (buf : Bytes) : Exec.Simulates R (C.sendBytes buf) (C'.sendBytes buf)
  readResponse (command : Command) :
    Exec.Simulates R (C.readResponse command) (C'.readResponse command)

namespace PopStream

/-- Nothing is awaited, what the stream holds and is to receive are the replies that the
transcript goes on with, or a part of them, and behind the lines that were written the
lines of the transcript make up `texts`. -/
structure Brings (texts : List Bytes) (s : PopStream) (t : Transcript) : Prop where
  queue : s.queue = []
  replies : ∃ bytes, s.Ready bytes ∧ bytes ++ incoming s.stream.reads <+: t.replies
  lines : textsOf s.history ++ t.coming.map Exchange.line = texts

theorem new_ready {stream : Transport} (hsmooth : stream.Smooth) : (new stream).Ready [] :=
  ⟨hsmooth, Nat.zero_le _, Buffer.chunkSize, rfl, Nat.dvd_refl _, by decide⟩

theorem new_brings {stream : Transport} (hsmooth : stream.Smooth) {t : Transcript}
    (hreads : incoming stream.reads <+: t.replies) :
    Brings (t.coming.map Exchange.line) (new stream) t :=
  ⟨rfl, ⟨[], new_ready hsmooth, hreads⟩, rfl⟩

/-- The lines are written, or wait. -/
theorem line_simulates (texts : List Bytes) (command : Command) (line : Bytes) :
    Simulates (Brings texts) (do sendBytes line; record (.line command line))
      (Transcript.writeLine line) := by
  rintro s t ⟨hqueue, ⟨bytes, hready, hreads⟩, hlines⟩
  rcases Transcript.writeLine_cases line t with ⟨reply, coming, rfl, hline⟩ | hwaits
  · rw [hline]
    have hsends := sendBytes_sends line s s rfl
    have hsmooth := sendBytes_smooth line s hready.smooth
    rw [bind_apply]
    cases hsend : sendBytes line s with
    | error x s' =>
      rw [hsend] at hsmooth
      exact .left (by rw [show x = .pending from hsmooth]; exact id)
    | ok u s' =>
      rw [hsend] at hsends hsmooth
      obtain ⟨hsent, -⟩ := hsends
      refine .ok ⟨hsent.queue.trans hqueue, ⟨bytes, ?_, ?_⟩, ?_⟩
      · obtain ⟨room, hbuffer, hroom⟩ := hready.buffer
        exact ⟨hsmooth, hsent.decodeNeeds.symm ▸ hready.needs, room, hsent.buffer.trans hbuffer, hroom⟩
      · have hsame : incoming s'.stream.reads = incoming s.stream.reads := by rw [hsent.reads]
        change bytes ++ incoming s'.stream.reads <+: _
        rw [hsame]
        exact hreads
      · obtain ⟨pieces, hhistory, -⟩ := hsent.history
        change textsOf (s'.history ++ [.line command line]) ++ _ = texts
        rw [hhistory, ← hlines]
        simp [textsOf, linesOf]
  · rw [hwaits]
    exact .right id

variable [Host]

/-- A read writes no line. -/
theorem readResponse_texts (command : Command) (s : PopStream) :
    textsOf (stateOf (readResponse command s)).history = textsOf s.history := by
  rcases readResponse_history command s with ⟨response, ⟨pieces, command', hhistory⟩, -⟩ |
    ⟨pieces, hhistory⟩
  · simp [hhistory, textsOf, linesOf]
  · simp [hhistory, textsOf, linesOf_received]

/-- The reply is read, or waited for. -/
theorem readResponse_simulates (texts : List Bytes) (command : Command) :
    Simulates (Brings texts) (readResponse command) (Transcript.readReply command) := by
  rintro s t ⟨hqueue, ⟨bytes, hready, hreads⟩, hlines⟩
  rcases Transcript.readReply_cases command t with
    ⟨reply, response, hawaited, hresponse, hread⟩ | hwaits
  swap
  · rw [hwaits]
    exact .right id
  obtain ⟨hparse, hlength⟩ := Transcript.response?_eq_some.mp hresponse
  have hfits := fits_of_length hlength command
  obtain ⟨awaited, coming⟩ := t
  obtain rfl : awaited = some reply := hawaited
  have hreplies : Transcript.replies ⟨some reply, coming⟩ = reply ++ coming.flatMap Exchange.reply := rfl
  rw [hreplies] at hreads
  obtain ⟨u, hu, hends⟩ :=
    (next_polls (show (s.awaiting command).Holds bytes from hready.holds)).last
  -- Where the parser is tried for the last time, a part of the replies is there.
  obtain ⟨bytes', hholds, hincoming⟩ := hu.incoming_eq (show (s.awaiting command).Holds bytes from
    hready.holds)
  have hincoming : bytes' ++ incoming u.stream.reads = bytes ++ incoming s.stream.reads := hincoming
  have hpart : bytes' <+: reply ++ coming.flatMap Exchange.reply :=
    (List.prefix_append _ _).trans (hincoming ▸ hreads)
  have hawaiting : (s.awaiting command).Ready bytes := ⟨hready.smooth, hready.needs, hready.buffer⟩
  have hawaited : (s.awaiting command).queue = [command] := by simp [awaiting, hqueue]
  obtain ⟨bytes'', hreadyu, hqueueu⟩ := hawaiting.decodes hparse hfits hawaited hu fun b hb => by
    rw [← hb.take, hholds.take]
    exact hpart
  obtain rfl : bytes'' = bytes' := by rw [← hreadyu.holds.take, hholds.take]
  rw [readResponse_eq, hread]
  cases hnext : next (s.awaiting command) with
  | ok response' s' =>
    rw [hnext] at hends
    obtain ⟨command', queue, rest, hq, hparse', hrest, rfl⟩ := decode_eq_some hends
    obtain ⟨rfl, rfl⟩ : command = command' ∧ [] = queue := by simpa [hqueueu] using hq
    rw [hreadyu.holds.take] at hparse'
    obtain ⟨rfl, hsplit⟩ := parse_reply hparse' hpart hparse
    have htexts := readResponse_texts command s
    have hbrings : Brings texts { u with
        buffer := .holding rest (Buffer.chunkSize - rest.length)
        queue := []
        history := u.history ++ [.answered command response'] } ⟨none, coming⟩ := by
      refine ⟨rfl, ⟨rest, ⟨hreadyu.smooth, hreadyu.needs, _, rfl, ?_⟩, ?_⟩, ?_⟩
      · rw [Nat.add_sub_cancel' hrest]
        exact ⟨Nat.dvd_refl _, by decide⟩
      · have hrest := hincoming ▸ hreads
        rw [hsplit, List.append_assoc, List.prefix_append_right_inj] at hrest
        exact hrest
      · rw [readResponse_eq, hnext] at htexts
        rw [← hlines, ← htexts]
        cases response' <;> rfl
    cases response' with
    | err text => exact .error hbrings
    | _ => exact .ok hbrings
  | error x s' =>
    rw [hnext] at hends
    cases x with
    | error e => exact absurd hends (hreadyu.not_ends_error hparse hfits hqueueu hpart)
    | pending => exact .left id
    | panicked => exact .left id

/-- The stream simulates the transcript of what it is brought. -/
theorem simulates_transcript (texts : List Bytes) :
    Connection.Simulates instConnectionPopStreamOfHost Transcript.connection (Brings texts) :=
  ⟨fun _ => line_simulates _ _ _, fun _ => line_simulates _ _ _, readResponse_simulates texts⟩

end PopStream

end Pop
