-- SUMMARY: Wherever calls are dropped, a mailbox loses no message whose deletion was not asked for.
import GetEmail.Pop.Acknowledged
import GetEmail.Pop.Torn

/-!
# Losses

A call may be dropped after any byte that it has written, and the calls behind it go on
from there. Whatever the server answers, and whatever the network does, what it reads of
the client marks only messages that a call of `dele` was about.
-/

namespace Pop

open Exec Computability
open Nom (Bytes ascii lf)

/-! ## Sessions -/

/-- The order marks one of these messages, or none; it ends the session only if it may. -/
def Order.Permitted (asked : List Nat) (mayQuit : Prop) : Order → Prop
  | .dele number => number ∈ asked
  | .quit => mayQuit
  | _ => True

theorem Order.Idle.permitted {order : Order} (h : order.Idle) (asked : List Nat) (mayQuit : Prop) :
    order.Permitted asked mayQuit := by
  cases order <;> trivial

/-- The texts of lines with such orders -/
def permittedTexts (asked : List Nat) (mayQuit : Prop) : Set Bytes :=
  {text | lf ∉ text ∧ Order.Worded text ∧ (Order.ofLine text).Permitted asked mayQuit}

namespace Session

/-- The session serves the maildrop, and none but these messages are marked or lost. -/
inductive Spares (drop : Maildrop) (asked : List Nat) (mayQuit : Prop) : Session → Prop where
  | authorization (name : Option Bytes) : Spares drop asked mayQuit ⟨drop, .authorization name⟩
  | transaction {marked : List Nat} (h : marked ⊆ asked) :
      Spares drop asked mayQuit ⟨drop, .transaction marked⟩
  | update {marked : List Nat} (h : marked ⊆ asked) (hquit : mayQuit) :
      Spares drop asked mayQuit ⟨drop.remove marked, .update⟩

variable {drop : Maildrop} {asked : List Nat} {mayQuit : Prop} {s : Session} {order : Order}

theorem concerning_spares {order : Order} {marked : List Nat} {number : Nat} {reply : Stored → Reply × Session}
    (hs : s.Spares drop asked mayQuit) (hreply : ∀ m, (reply m).2.Spares drop asked mayQuit) :
    (s.concerning order marked number reply).2.Spares drop asked mayQuit := by
  unfold concerning
  split
  · exact hreply _
  · exact hs

theorem transact_spares {marked : List Nat} (hmarked : marked ⊆ asked)
    (horder : order.Permitted asked mayQuit) :
    ((⟨drop, .transaction marked⟩ : Session).transact marked order).2.Spares drop asked mayQuit := by
  have hs : (⟨drop, .transaction marked⟩ : Session).Spares drop asked mayQuit := .transaction hmarked
  cases order with
  | rset => exact .transaction (List.nil_subset _)
  | dele number =>
    exact concerning_spares hs fun _ => .transaction (List.cons_subset.mpr ⟨horder, hmarked⟩)
  | quit => exact .update hmarked horder
  | list number =>
    cases number with
    | none => exact hs
    | some number => exact concerning_spares hs fun _ => hs
  | uidl number =>
    cases number with
    | none => exact hs
    | some number => exact concerning_spares hs fun _ => hs
  | retr number => exact concerning_spares hs fun _ => hs
  | top number lines => exact concerning_spares hs fun _ => hs
  | _ => exact hs

variable [Host]

theorem authorize_spares {name : Option Bytes} (horder : order.Permitted asked mayQuit) :
    ((⟨drop, .authorization name⟩ : Session).authorize name order).2.Spares drop asked mayQuit := by
  have hopened : (⟨drop, .transaction []⟩ : Session).Spares drop asked mayQuit :=
    .transaction (List.nil_subset _)
  cases order with
  | user name => exact .authorization _
  | pass password =>
    simp only [authorize]
    split
    · exact hopened
    · exact .authorization _
  | authPlain response =>
    simp only [authorize]
    split
    · exact hopened
    · exact .authorization _
  | quit =>
    have hupdate : (⟨drop.remove [], .update⟩ : Session).Spares drop asked mayQuit :=
      .update (List.nil_subset _) horder
    rwa [Maildrop.remove_nil] at hupdate
  | _ => exact .authorization _

/-- What one order preserves -/
theorem answer_spares (hs : s.Spares drop asked mayQuit) (horder : order.Permitted asked mayQuit) :
    (s.answer order).2.Spares drop asked mayQuit := by
  unfold answer
  cases hs with
  | authorization name =>
    dsimp only
    split
    · exact .authorization _
    · exact authorize_spares horder
  | transaction hmarked =>
    dsimp only
    split
    · exact .transaction hmarked
    · exact transact_spares hmarked horder
  | update hmarked hquit => exact .update hmarked hquit

theorem after_spares {lines : List Bytes} (hs : s.Spares drop asked mayQuit)
    (hlines : ∀ line ∈ lines, (Order.ofLine line).Permitted asked mayQuit) :
    (s.after lines).Spares drop asked mayQuit := by
  induction lines generalizing s with
  | nil => exact hs
  | cons line lines ih =>
    obtain ⟨hline, hrest⟩ := List.forall_mem_cons.mp hlines
    exact ih (answer_spares hs hline) hrest

/-- The lines may be torn anywhere. -/
theorem after_torn (hs : s.Spares drop asked mayQuit) {bytes : Bytes}
    (hbytes : bytes ∈ (torn (permittedTexts asked mayQuit))∗) :
    (s.after (completeLines [] bytes)).Spares drop asked mayQuit := by
  obtain ⟨pieces, rfl, hpieces⟩ := Language.mem_kstar.mp hbytes
  refine after_spares hs fun line hline => ?_
  obtain ⟨front, text, ⟨-, hworded, hpermitted⟩, rfl⟩ :=
    completeLines_torn (fun text htext => htext.1) hpieces [] line hline
  by_cases hfront : front = []
  · rwa [hfront, List.nil_append]
  · exact (Order.idle_joined hfront hworded).permitted asked mayQuit

end Session

/-! ## What a stream has written -/

variable [Host] {texts : Set Bytes}

namespace PopStream

/-- What was written are lines with these texts, each of them to its end or not. -/
def Wrote (texts : Set Bytes) (s : PopStream) : Prop := sent s.history ∈ (torn texts)∗

omit [Host] in
theorem Wrote.piece {s s' : PopStream} {piece : Bytes} (h : Wrote texts s) (hpiece : piece ∈ torn texts)
    (hsent : sent s'.history = sent s.history ++ piece) : Wrote texts s' := by
  obtain ⟨pieces, hpieces, hall⟩ := Language.mem_kstar.mp h
  refine Language.mem_kstar.mpr ⟨pieces ++ [piece], ?_, ?_⟩
  · simp [hsent, hpieces]
  · intro piece' hmem
    rcases List.mem_append.mp hmem with hmem | hmem
    · exact hall piece' hmem
    · rwa [List.mem_singleton.mp hmem]

omit [Host] in
theorem Wrote.silent {s s' : PopStream} (h : Wrote texts s) (hsent : sent s'.history = sent s.history) :
    Wrote texts s' := by rwa [Wrote, hsent]

omit [Host] in
theorem Sent.sent_eq {s s' : PopStream} {bytes : Bytes} (h : Sent s s' bytes) :
    Pop.sent s'.history = Pop.sent s.history ++ bytes := by
  obtain ⟨pieces, hhistory, hbytes⟩ := h.history
  rw [hhistory, sent_append, sent_sent, hbytes]

omit [Host] in
theorem new_wrote (stream : Transport) : Wrote texts (.new stream) := Language.nil_mem_kstar _

theorem encode_wrote {request : Request} (hrequest : request.display ∈ texts) :
    Keeps (fun _ => True) (Wrote texts) (Connection.encode request) := by
  have hencode : Keeps (fun _ => True) (Wrote texts) (PopStream.encode request) := by
    refine .of_pre fun s hs => (encode_sends request s).consequence (fun _ h => h) ?_ ?_
    · rintro _ s' ⟨hsent, -⟩
      exact hs.piece ⟨_, hrequest, List.prefix_rfl⟩ hsent.sent_eq
    · rintro x s' ⟨⟨sent, hpre, hsent⟩, -⟩ -
      exact hs.piece ⟨_, hrequest, hpre⟩ hsent.sent_eq
  exact .bind hencode fun _ => .modify fun s hs => hs.silent (by simp [Pop.sent])

theorem readResponse_wrote (command : Command) :
    Keeps (fun _ => True) (Wrote texts) (Connection.readResponse command) := by
  refine (Triple.of_stateOf fun s hs => ?_ :
    Triple (Wrote texts) (PopStream.readResponse command) (fun _ => Wrote texts)
      fun _ => Wrote texts).consequence (fun _ h => h) (fun _ _ h => h) fun _ _ h _ => h
  rcases readResponse_history command s with ⟨response, ⟨pieces, c, h⟩, -⟩ | ⟨pieces, h⟩
  · exact hs.silent (by rw [h, sent_append, sent_append, sent_received]; simp [Pop.sent])
  · exact hs.silent (by rw [h, sent_append, sent_received, List.append_nil])

theorem wrote_upholds : Client.Upholds instConnectionPopStreamOfHost instConnectionPopStreamOfHost
    (fun _ => True) (fun request => request.display ∈ texts)
    (fun authenticator => authenticator.handle = .finish (.ok ())) (Wrote texts) where
  exchange request hrequest :=
    .refl (.bind (encode_wrote hrequest) fun _ => readResponse_wrote request.command)
  dialog authenticator hhandle hrequest := by
    rw [Client.dialog_finish hhandle]
    exact .refl (.bind (encode_wrote hrequest) fun _ => readResponse_wrote _)

end PopStream

/-! ## Texts of the calls -/

theorem Request.worded_display (request : Request) (h : request.command.display ∈ Order.words) :
    Order.Worded request.display := by
  obtain ⟨command, args⟩ := request
  refine ⟨command.display, h, ?_⟩
  cases args with
  | nil => exact .inl (by simp [Request.display])
  | cons arg args => exact .inr ⟨arg ++ args.flatMap (0x20 :: ·), by simp [Request.display]⟩

theorem Order.mem_words {command : Command} (h : command ∈ keywords.map Prod.snd) :
    command.display ∈ words := by
  obtain ⟨entry, hentry, rfl⟩ := List.mem_map.mp h
  rw [keywords_display entry hentry]
  exact List.mem_append_left _ (List.mem_map_of_mem hentry)

/-- The message that a call marks, if it succeeds -/
def ClientOp.marks? : ClientOp → Option Nat
  | .dele msgNumber => some msgNumber
  | _ => none

/-- The messages that were asked to be marked -/
def deletionsAsked (log : Log) : List Nat := log.filterMap fun call => call.1.marks?

/-- A call was to quit. -/
def quitAsked (log : Log) : Prop := ∃ call ∈ log, call.1 = .quit

variable {asked : List Nat} {mayQuit : Prop}

/-- A line is read as an order of its command, or as none. -/
theorem Order.ofLine_command {command : Command} (h : command ∈ keywords.map Prod.snd)
    (args : List Bytes) :
    ∀ command' ∈ (ofLine (Request.display ⟨command, args⟩)).command?, command' = command := by
  cases args with
  | nil => exact (ofLine_request command h [] []).1 ▸ ofKeyword_command command none
  | cons arg args => exact (ofLine_request command h arg args).2 ▸ ofKeyword_command command _

omit [Host] in
theorem Order.permitted_of_command {order : Order}
    (h : ∀ command ∈ order.command?, command ≠ .dele ∧ command ≠ .quit) :
    order.Permitted asked mayQuit := by
  cases order with
  | dele number => exact absurd rfl (h _ rfl).1
  | quit => exact absurd rfl (h _ rfl).2
  | _ => trivial

/-- `APOP` is no keyword of this server. -/
theorem Order.ofLine_apop (args : List Bytes) :
    ofLine (Request.display ⟨.apop, args⟩) = .unknown := by
  have hword : (cut (Request.display ⟨.apop, args⟩)).1 = ascii "APOP" := by
    have hspace : 0x20 ∉ ascii "APOP" := by decide
    cases args with
    | nil => exact congrArg Prod.fst (cut_word hspace)
    | cons arg args => exact congrArg Prod.fst (cut_space hspace _)
  rw [ofLine, hword]
  rfl

/-- Only a call of `dele` sends DELE, and only one of `quit` sends QUIT. -/
theorem ClientOp.requests_command (op : ClientOp) (hplain : Session.Plain op) :
    ∀ request ∈ op.requests, request.command = .apop ∨
      request.command ∈ Order.keywords.map Prod.snd ∧
        (request.command = .dele → op.marks?.isSome) ∧ (request.command = .quit → op = .quit) := by
  cases op with
  | uidl msgNumber =>
    cases msgNumber <;> simp [requests, Request.ofCommand, Request.addArg, Order.keywords]
  | list msgNumber =>
    cases msgNumber <;> simp [requests, Request.ofCommand, Request.addArg, Order.keywords]
  | sendRequest request => exact absurd hplain id
  | auth authenticator => exact absurd hplain id
  | login user password =>
    simp [requests, Request.ofCommand, Request.addArg, Order.keywords, Client.authRequest_command]
  | _ => simp [requests, Request.ofCommand, Request.addArg, Order.keywords, marks?]

/-- A request with another command marks nothing, and does not quit. -/
theorem Request.permitted {request : Request} (hlf : lf ∉ request.display)
    (hcommand : request.command ∈ Order.keywords.map Prod.snd) (hdele : request.command ≠ .dele)
    (hquit : request.command ≠ .quit) : request.display ∈ permittedTexts asked mayQuit := by
  refine ⟨hlf, request.worded_display (Order.mem_words hcommand),
    Order.permitted_of_command fun command h => ?_⟩
  obtain rfl := Order.ofLine_command hcommand request.args command h
  exact ⟨hdele, hquit⟩

theorem firstLine_permitted (hhost : Host.SingleLine) : firstLine ∈ permittedTexts asked mayQuit :=
  Request.permitted (Request.noBreak_ofCommand hhost .capa).2 (by decide) (by decide) (by decide)

/-- The calls ask for nothing else. -/
theorem ClientOp.requests_permitted (hhost : Host.SingleLine) (op : ClientOp)
    (hplain : Session.Plain op) (harguments : ∀ argument ∈ op.arguments, NoBreak argument)
    (hmarks : ∀ number ∈ op.marks?, number ∈ asked) (hquit : op = .quit → mayQuit) :
    ∀ request ∈ op.requests, request.display ∈ permittedTexts asked mayQuit := by
  intro request hrequest
  have hlf := (op.noBreak_requests hhost harguments request hrequest).2
  rcases op.requests_command hplain request hrequest with hapop | ⟨hcommand, hdele, hquits⟩
  · have hworded := request.worded_display
      (hapop ▸ List.mem_append_right _ (List.mem_singleton_self _))
    refine ⟨hlf, hworded, ?_⟩
    rw [show request.display = Request.display ⟨.apop, request.args⟩ by rw [← hapop],
      Order.ofLine_apop]
    trivial
  have hworded := request.worded_display (Order.mem_words hcommand)
  cases op with
  | dele msgNumber =>
    refine ⟨hlf, hworded, ?_⟩
    rw [List.mem_singleton.mp hrequest, @Session.order_read _ (.dele msgNumber) _ rfl trivial]
    exact hmarks msgNumber rfl
  | quit =>
    refine ⟨hlf, hworded, ?_⟩
    rw [List.mem_singleton.mp hrequest, @Session.order_read _ .quit _ rfl trivial]
    exact hquit rfl
  | _ =>
    exact Request.permitted hlf hcommand (fun h => absurd (hdele h) (by simp [marks?])) fun h => by
      cases hquits h

/-! ## Runs -/

omit [Host] in
theorem authenticator_finish {op : ClientOp} (hplain : Session.Plain op) :
    ∀ authenticator ∈ op.authenticator?, authenticator.handle = .finish (.ok ()) := by
  cases op with
  | auth authenticator => exact absurd hplain id
  | login user password =>
    rintro _ ⟨⟩
    rfl
  | _ => simp [ClientOp.authenticator?]

/-- What is written in a run -/
theorem run_wrote (hhost : Host.SingleLine) {stream : Transport} {log : Log}
    {client : Client PopStream} (hrun : Run stream log client)
    (hplain : ∀ call ∈ log, Session.Plain call.1)
    (harguments : ∀ call ∈ log, ∀ argument ∈ call.1.arguments, NoBreak argument) :
    client.Keeping (PopStream.Wrote (permittedTexts (deletionsAsked log) (quitAsked log))) := by
  obtain ⟨c, hnew, hcalls⟩ := hrun
  have hfresh : (Client.fresh (PopStream.new stream)).Keeping
      (PopStream.Wrote (permittedTexts (deletionsAsked log) (quitAsked log))) :=
    ⟨by simpa [Client.fresh] using PopStream.new_wrote stream, rfl⟩
  have hfirst : firstLine ∈ permittedTexts (deletionsAsked log) (quitAsked log) :=
    firstLine_permitted hhost
  have hcapa := (PopStream.wrote_upholds.exchange (.ofCommand .capa) hfirst).keeps
  have hc := (Client.createClient_triple (fun _ => trivial) (PopStream.readResponse_wrote .greet).value
    hcapa).ok hfresh hnew
  refine hcalls.invariant hc (fun _ _ _ _ => trivial) ?_ ?_
  · rintro client reads writes ⟨hinner, hmarks⟩
    refine ⟨fun socket hsocket => ?_, hmarks⟩
    obtain ⟨s, hs, rfl⟩ := Option.map_eq_some_iff.mp hsocket
    exact hinner s hs
  · rintro call hcall
    refine (call.1.run_agrees (fun _ => trivial) PopStream.wrote_upholds
      (call.1.requests_permitted hhost (hplain call hcall) (harguments call hcall) ?_ ?_)
      (authenticator_finish (hplain call hcall))).keeps
    · intro number hnumber
      exact List.mem_filterMap.mpr ⟨call, hcall, hnumber⟩
    · exact fun hquit => ⟨call, hcall, hquit⟩

/-- However the calls of a run are cut off, and whatever they are answered: what the server
of a maildrop has read marks no message that no call of `dele` was about, and nothing is
lost without a call of `quit`. -/
theorem losses_asked (hhost : Host.SingleLine) {stream : Transport} {log : Log}
    {client : Client PopStream} (hrun : Run stream log client)
    (hplain : ∀ call ∈ log, Session.Plain call.1)
    (harguments : ∀ call ∈ log, ∀ argument ∈ call.1.arguments, NoBreak argument) (drop : Maildrop) :
    ∀ socket ∈ client.inner, (drop.open.after (completeLines [] (sent socket.history))).Spares drop
      (deletionsAsked log) (quitAsked log) := fun socket hsocket =>
  Session.after_torn (.authorization none) ((run_wrote hhost hrun hplain harguments).1 socket hsocket)

omit [Host] in
/-- A call of `dele` that is dropped behind three bytes, and the next call -/
theorem losses_asked_dropped : ∃ (log : Log) (socket : PopStream),
    deletionsAsked log = [1] ∧ sent socket.history = ascii "CAPA\r\nDELSTAT\r\n" ∧
      (@Session.after (.bare false) oneMessage.open (completeLines [] (sent socket.history))).Spares
        oneMessage (deletionsAsked log) (quitAsked log) := by
  let _ : Host := .bare false
  let stream := answering [ascii "+OK\r\n", ascii "-ERR\r\n"]
  let c := stateOf (newClient stream)
  have hnew : newClient stream = .ok () c := eq_ok_of_value? (by decide +kernel)
  have hdele := (Calls.nil (c := c)).call (.dele 1) [] [.ready 3]
  have hcalls := hdele.call .stat [] (answering []).writes
  obtain ⟨client, hclient⟩ : ∃ client, stateOf ((ClientOp.stat.run : Exec _ (Client PopStream) _)
      ((stateOf ((ClientOp.dele 1).run (c.supply [] [.ready 3]))).supply [] (answering []).writes)) =
        client := ⟨_, rfl⟩
  rw [hclient] at hcalls
  obtain ⟨socket, hsocket, hsent⟩ : ∃ socket, client.inner = some socket ∧
      sent socket.history = ascii "CAPA\r\nDELSTAT\r\n" := by
    have hinner : (client.inner.map fun socket => sent socket.history) =
        some (ascii "CAPA\r\nDELSTAT\r\n") := by
      rw [← hclient]
      decide +kernel
    exact Option.map_eq_some_iff.mp hinner
  have hspares := losses_asked (fun _ => noBreak_nil) ⟨c, hnew, hcalls⟩ (by simp [Session.Plain])
    (by simp [ClientOp.arguments]) oneMessage socket (by rw [hsocket]; rfl)
  exact ⟨_, socket, rfl, hsent, hspares⟩

end Pop
