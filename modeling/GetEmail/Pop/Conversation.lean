-- SUMMARY: Over a network the client gets what it gets over the transcripts that the network brings.
import GetEmail.Pop.ClientSimulation

/-!
# Conversations

A conversation is a run of a client beside a run over transcripts: for each call the
network brings the replies of a transcript, and the transcript plays them back. It may
bring them in any pieces, with any delays, and stop early.
-/

namespace Pop

open Exec
open Nom (Bytes)

/-- The call came to its end. -/
def Ended {α : Type} (result : Except (Exit Error) α) : Prop := ∀ x, result = .error x → x.IsError

theorem ended_of_outcome {σ α : Type} {r : EStateM.Result (Exit Error) σ α} (h : Ended (outcome r))
    (x : Exit Error) (hx : exit? r = some x) : x.IsError := by
  refine h x ?_
  cases r <;> cases hx
  rfl

/-- No poll fails, and no write is refused. -/
structure Reliable (reads : List ReadEvent) (writes : List WriteEvent) : Prop where
  received : ∀ e, .failed e ∉ reads
  sent : ∀ e, .failed e ∉ writes
  accepts : .ready 0 ∉ writes

namespace Client

/-- The transcript of the client goes on with these exchanges. -/
def proceed (d : Client Transcript) (exchanges : List Exchange) : Client Transcript :=
  { d with inner := d.inner.map (·.supply exchanges) }

/-- All exchanges of the transcript were made. -/
def Finished (d : Client Transcript) : Prop := ∀ t ∈ d.inner, t = ⟨none, []⟩

end Client

variable [Host]

/-- The calls of a client with what came of them, and what comes of them over the
transcripts of what the network brings, with the lines of these transcripts. -/
inductive Conversation : Log → Log → List Bytes → Client PopStream → Client Transcript → Prop where
  | opened {stream : Transport} {greeting : Bytes} {exchanges : List Exchange}
      {c : Client PopStream} {d : Client Transcript} (hsmooth : stream.Smooth)
      (hreads : incoming stream.reads <+: (Transcript.opening greeting exchanges).replies)
      (hclient : newClient stream = .ok () c)
      (hplayed : Client.createClientFromSocket (Transcript.opening greeting exchanges) = .ok () d)
      (hfinished : d.Finished) : Conversation [] [] (exchanges.map Exchange.line) c d
  | call {log played : Log} {lines : List Bytes} {c : Client PopStream} {d : Client Transcript}
      (h : Conversation log played lines c d) (op : ClientOp) {exchanges : List Exchange}
      {reads : List ReadEvent} {writes : List WriteEvent} (hreliable : Reliable reads writes)
      (hreads : incoming reads <+: exchanges.flatMap Exchange.reply)
      (hplayed : Ended (outcome (op.run (d.proceed exchanges))))
      (hfinished : (stateOf (op.run (d.proceed exchanges))).Finished) :
      Conversation (log ++ [(op, outcome (op.run (c.supply reads writes)))])
        (played ++ [(op, outcome (op.run (d.proceed exchanges)))])
        (lines ++ exchanges.map Exchange.line)
        (stateOf (op.run (c.supply reads writes))) (stateOf (op.run (d.proceed exchanges)))

namespace PopStream

omit [Host] in
/-- A stream that has read all replies goes on with those of the next exchanges. -/
theorem Brings.supply {texts : List Bytes} {s : PopStream} {t : Transcript} (h : Brings texts s t)
    (ht : t = ⟨none, []⟩) {exchanges : List Exchange} {reads : List ReadEvent}
    {writes : List WriteEvent} (hreliable : Reliable reads writes)
    (hreads : incoming reads <+: exchanges.flatMap Exchange.reply) :
    Brings (texts ++ exchanges.map Exchange.line) (s.supply reads writes) (t.supply exchanges) := by
  obtain ⟨hqueue, ⟨bytes, hready, hincoming⟩, hlines⟩ := h
  subst ht
  obtain ⟨rfl, -⟩ := List.append_eq_nil_iff.mp (List.prefix_nil.mp hincoming)
  refine ⟨hqueue, ⟨[], ⟨⟨hready.smooth.broken, hreliable.received, hreliable.sent, hreliable.accepts⟩,
    hready.needs, hready.buffer⟩, hreads⟩, ?_⟩
  rw [← hlines, List.map_nil, List.append_nil]
  rfl

end PopStream

open PopStream

omit [Host] in
theorem Client.Twin.proceed {texts : List Bytes} {c : Client PopStream} {d : Client Transcript}
    (h : Client.Twin (Brings texts) c d) (hfinished : d.Finished) {exchanges : List Exchange}
    {reads : List ReadEvent} {writes : List WriteEvent} (hreliable : Reliable reads writes)
    (hreads : incoming reads <+: exchanges.flatMap Exchange.reply) :
    Client.Twin (Brings (texts ++ exchanges.map Exchange.line)) (c.supply reads writes)
      (d.proceed exchanges) := by
  obtain ⟨inner, capabilities, markedAsDel, greeting, greeted, state⟩ := c
  obtain ⟨inner', capabilities', markedAsDel', greeting', greeted', state'⟩ := d
  refine ⟨?_, h.capabilities, h.markedAsDel, h.greeting, h.greeted, h.state⟩
  cases h.inner with
  | none => exact .none
  | some hbrings => exact .some (hbrings.supply (hfinished _ rfl) hreliable hreads)

/-- A call over a network, beside the call over the transcript. -/
theorem call_alike {texts : List Bytes} {c : Client PopStream} {d : Client Transcript}
    (h : Client.Twin (Brings texts) c d) (hfinished : d.Finished) (op : ClientOp)
    {exchanges : List Exchange} {reads : List ReadEvent} {writes : List WriteEvent}
    (hreliable : Reliable reads writes)
    (hreads : incoming reads <+: exchanges.flatMap Exchange.reply) :
    Alike (Client.Twin (Brings (texts ++ exchanges.map Exchange.line)))
      (op.run (c.supply reads writes)) (op.run (d.proceed exchanges)) :=
  Client.op_simulates (simulates_transcript _) op _ _ (h.proceed hfinished hreliable hreads)

/-- The client that is made over a network, beside the one over the transcript. -/
theorem new_alike {stream : Transport} (hsmooth : stream.Smooth) {greeting : Bytes}
    {exchanges : List Exchange}
    (hreads : incoming stream.reads <+: (Transcript.opening greeting exchanges).replies) :
    Alike (Client.Twin (Brings (exchanges.map Exchange.line))) (newClient stream)
      (Client.createClientFromSocket (Transcript.opening greeting exchanges)) :=
  Client.createClient_simulates (simulates_transcript _) _ _
    (Client.fresh_twin (new_brings hsmooth hreads))

/-- Every call that comes to its end over the network has come to what it comes to over the
transcript, and has left the client with the same fields. While the client is connected,
it has written the lines of the transcripts, and nothing else. -/
theorem conversation_outcomes {log played : Log} {lines : List Bytes} {c : Client PopStream}
    {d : Client Transcript} (h : Conversation log played lines c d)
    (hended : ∀ entry ∈ log, Ended entry.2) :
    log = played ∧ Client.Twin (Brings lines) c d ∧ d.Finished := by
  induction h with
  | @opened stream greeting exchanges c d hsmooth hreads hclient hplayed hfinished =>
    have hcreate := new_alike hsmooth hreads
    rw [hclient, hplayed] at hcreate
    cases hcreate with
    | ok htwin => exact ⟨rfl, htwin, hfinished⟩
  | @call log played lines c d _ op exchanges reads writes hreliable hreads hplayed hfinished ih =>
    obtain ⟨rfl, htwin, hbefore⟩ := ih fun entry hentry => hended entry (List.mem_append_left _ hentry)
    have hcall := hended _ (List.mem_append_right _ (List.mem_singleton_self _))
    obtain ⟨hsame, hafter⟩ := (call_alike htwin hbefore op hreliable hreads).ended
      (ended_of_outcome hcall) (ended_of_outcome hplayed)
    exact ⟨by rw [hsame], hafter, hfinished⟩

end Pop
