-- SUMMARY: When the commands of the transaction state are sent, and when they are refused.
import GetEmail.Pop.Authentication
import GetEmail.Pop.Deletion
import GetEmail.Pop.Phases

/-!
# Commands of the transaction state

The documentation restricts eight operations to the transaction state. None of them
checks the state: `inner_mut` lets them through while the client authenticates.
-/

namespace Pop

open Exec
open Nom (Bytes ascii)

namespace PopStream

/-- A poll was taken, or is waited for. -/
def Advanced (n : Nat) (x : Exit Error) (s : PopStream) : Prop :=
  x = .pending ∨ s.stream.writes.length < n

theorem writeTurn_advances {buf : Bytes} (hbuf : buf ≠ []) (n : Nat) :
    Triple (fun s => s.stream.broken = none ∧ s.stream.writes.length = n) (writeTurn buf)
      (fun _ s => s.stream.writes.length < n) (Advanced n) := by
  rintro s ⟨hbroken, rfl⟩
  have hpoll := Transport.pollWrite_cases s.stream buf
  simp only [writeTurn, if_neg hbuf, bind_apply, onStream, zoom]
  generalize Transport.pollWrite buf s.stream = polled at hpoll
  cases hpoll with
  | blocked => exact .inl rfl
  | failed hwhy =>
    rcases hwhy with hwhy | hwrites
    · rw [hbroken] at hwhy
      cases hwhy
    · exact .inr (by simp [hwrites])
  | woken _ hwrites => simp [hwrites]
  | @ready n _ _ hwrites =>
    cases min n buf.length with
    | zero => exact .inr (by simp [hwrites])
    | succ k => simp [record, hwrites]

theorem writeAll_advances {buf : Bytes} (hbuf : buf ≠ []) (n : Nat) :
    Triple (fun s => s.stream.broken = none ∧ s.stream.writes.length = n) (writeAll buf)
      (fun _ s => s.stream.writes.length < n) (Advanced n) := by
  have hturn (b : Bytes) : Keeps (fun _ => True) (fun s : PopStream => s.stream.writes.length < n)
      (writeTurn b) := writeTurn_keeps (framed_writes n) b
  have hrest (fuel : Nat) (buf' : Bytes) : Triple (fun s => s.stream.writes.length < n)
      (loop writeTurn fuel buf') (fun _ s => s.stream.writes.length < n) (Advanced n) :=
    (Keeps.loop hturn fuel buf').consequence (fun _ h => h) (fun _ _ h => h)
      fun _ _ h => .inr (h trivial)
  intro s hs
  refine Triple.bind (writeTurn_advances hbuf n) (fun r => ?_) s hs
  cases r with
  | inl buf' => exact hrest _ buf'
  | inr u => exact .pure fun _ h => h

variable [Host]

/-- On a transport that is not broken, an exchange takes a poll or waits for one. -/
theorem exchange_advances {request : Request} (hrequest : request.display ≠ []) (n : Nat) :
    Triple (fun s => s.stream.broken = none ∧ s.stream.writes.length = n)
      (Connection.exchange request) (fun _ s => s.stream.writes.length < n) (Advanced n) := by
  have hkeeps {α : Type} {m : Exec Error PopStream α}
      (hm : Keeps (fun _ => True) (fun s => s.stream.writes.length < n) m) :
      Triple (fun s => s.stream.writes.length < n) m (fun _ s => s.stream.writes.length < n)
        (Advanced n) := hm.consequence (fun _ h => h) (fun _ _ h => h) fun _ _ h => .inr (h trivial)
  have hsend : Triple (fun s => s.stream.broken = none ∧ s.stream.writes.length = n)
      (sendBytes request.display) (fun _ s => s.stream.writes.length < n) (Advanced n) :=
    .bind (writeAll_advances hrequest n) fun _ => hkeeps
      (.bind (writeAll_keeps (framed_writes n) _) fun _ => flush_keeps (framed_writes n))
  have hencode : Triple (fun s => s.stream.broken = none ∧ s.stream.writes.length = n)
      (Connection.encode request) (fun _ s => s.stream.writes.length < n) (Advanced n) :=
    .bind hsend fun _ => .modify fun _ h => h
  exact .bind hencode fun _ => hkeeps (readResponse_keeps (framed_writes n) trivial)

end PopStream

/-! ## The operations -/

namespace ClientOp

/-- The operations that the documentation restricts to the transaction state. -/
def isTransactionCommand : ClientOp → Bool
  | .noop | .uidl _ | .top _ _ | .dele _ | .rset | .retr _ | .list _ | .stat => true
  | _ => false

/-- The capabilities that are checked first. -/
def needs : ClientOp → List Capability
  | .uidl _ => [.uidl]
  | .top _ _ => [.top]
  | _ => []

end ClientOp

variable [Host]

open Client

/-- Without the capability nothing is sent. -/
theorem ClientOp.run_unsupported {c : Client PopStream} (hmarks : c.markedAsDel = []) {op : ClientOp}
    (hneeds : c.hasCapability op.needs = false) :
    op.run c = .error (.error featureUnsupported) c := by
  obtain ⟨inner, capabilities, markedAsDel, greeting, greeted, state⟩ := c
  obtain rfl : markedAsDel = [] := hmarks
  cases op with
  | uidl msgNumber => simp_all [ClientOp.run, Client.uidl, checkCapability, needs]
  | top msgNumber lines =>
    simp_all [ClientOp.run, Client.top, checkCapability, checkDeleted, isDeleted_eq, needs]
  | _ => simp [Client.hasCapability, needs] at hneeds

/-- `r` is what a call on `c` comes to that sends the request, and then leaves the
connection alone. -/
def SendsOne (request : Request) (c : Client PopStream) {α : Type}
    (r : EStateM.Result (Exit Error) (Client PopStream) α) : Prop :=
  (∀ x c', Client.sendRequest request c = .error x c' → r = .error x c') ∧
    ∀ response c', Client.sendRequest request c = .ok response c' → (stateOf r).inner = c'.inner

theorem sendsOne_bind {α : Type} {f : Response → Exec Error (Client PopStream) α}
    (hf : ∀ response c, (stateOf (f response c)).inner = c.inner) (request : Request)
    (c : Client PopStream) : SendsOne request c ((Client.sendRequest request >>= f) c) := by
  refine ⟨fun x c' h => ?_, fun response c' h => ?_⟩
  · simp only [bind_apply, h]
  · simp only [bind_apply, h, hf]

theorem SendsOne.map {α β : Type} {request : Request} {c : Client PopStream}
    {m : Exec Error (Client PopStream) α} (h : SendsOne request c (m c)) (f : α → β) :
    SendsOne request c ((f <$> m) c) := by
  refine ⟨fun x c' hx => ?_, fun response c' hr => ?_⟩
  · rw [map_apply, h.1 x c' hx]
  · rw [stateOf_map, h.2 response c' hr]

/-- With the capability the call sends one request. -/
theorem ClientOp.run_sends {c : Client PopStream} (hmarks : c.markedAsDel = []) {op : ClientOp}
    (hop : op.isTransactionCommand = true) (hneeds : c.hasCapability op.needs = true) :
    ∃ request : Request, request.command.display ≠ [] ∧ SendsOne request c (op.run c) := by
  have hexpect {α : Type} (kind : Response → Option α) (expected : String) (response : Response)
      (c' : Client PopStream) : (stateOf (expect kind expected response c')).inner = c'.inner := by
    rw [(expect_exits kind expected response c').1]
  have hone {α : Type} (kind : Response → Option α) (expected : String) (request : Request)
      (f : α → Value) : SendsOne request c ((f <$> (do
        expect kind expected (← Client.sendRequest request)) : Exec Error (Client PopStream) Value) c) :=
    (sendsOne_bind (hexpect kind expected) request c).map f
  have hdeleted (n : Nat) : checkDeleted n c = .ok () c := by
    obtain ⟨inner, capabilities, markedAsDel, greeting, greeted, state⟩ := c
    obtain rfl : markedAsDel = [] := hmarks
    rfl
  cases op with
  | noop =>
    exact ⟨.ofCommand .noop, List.cons_ne_nil _ _,
      (sendsOne_bind (fun _ _ => rfl) _ c).map fun _ => Value.unit⟩
  | rset =>
    refine ⟨.ofCommand .rset, List.cons_ne_nil _ _,
      (sendsOne_bind (fun response c' => ?_) _ c).map Value.text⟩
    simp only [bind_apply, modify_apply, hexpect]
  | stat => exact ⟨.ofCommand .stat, List.cons_ne_nil _ _, hone Response.stat? "stat response" _ _⟩
  | dele n =>
    refine ⟨(Request.ofCommand .dele).addArg n, List.cons_ne_nil _ _, ?_⟩
    have h := hone Response.message? "dele response" ((Request.ofCommand .dele).addArg n) Value.text
    simpa [ClientOp.run, Client.dele, hdeleted] using h
  | retr n =>
    refine ⟨(Request.ofCommand .retr).addArg n, List.cons_ne_nil _ _, ?_⟩
    have h := hone Response.bytes? "retr response" ((Request.ofCommand .retr).addArg n) Value.bytes
    simpa [ClientOp.run, Client.retr, hdeleted] using h
  | list msgNumber =>
    cases msgNumber with
    | none => exact ⟨.ofCommand .list, List.cons_ne_nil _ _, hone Response.list? "list response" _ _⟩
    | some n =>
      refine ⟨(Request.ofCommand .list).addArg n, List.cons_ne_nil _ _, ?_⟩
      have h := hone Response.list? "list response" ((Request.ofCommand .list).addArg n) Value.list
      simpa [ClientOp.run, Client.list, hdeleted] using h
  | uidl msgNumber =>
    have hcapability : checkCapability [.uidl] c = .ok () c := by
      simpa [checkCapability, needs] using hneeds
    cases msgNumber with
    | none =>
      refine ⟨.ofCommand .uidl, List.cons_ne_nil _ _, ?_⟩
      have h := hone Response.uidl? "uidl response" (.ofCommand .uidl) Value.uidl
      simpa [ClientOp.run, Client.uidl, hcapability] using h
    | some n =>
      refine ⟨(Request.ofCommand .uidl).addArg n, List.cons_ne_nil _ _, ?_⟩
      have h := hone Response.uidl? "uidl response" ((Request.ofCommand .uidl).addArg n) Value.uidl
      simpa [ClientOp.run, Client.uidl, hcapability, hdeleted] using h
  | top n lines =>
    have hcapability : checkCapability [.top] c = .ok () c := by
      simpa [checkCapability, needs] using hneeds
    refine ⟨((Request.ofCommand .top).addArg n).addArg lines, List.cons_ne_nil _ _, ?_⟩
    have h := hone Response.bytes? "top response" (((Request.ofCommand .top).addArg n).addArg lines)
      Value.bytes
    simpa [ClientOp.run, Client.top, hcapability, hdeleted] using h
  | _ => cases hop

/-- What the documentation asks of a call on `c` that ended with `r`. -/
structure Restricted (c : Client PopStream)
    (r : EStateM.Result (Exit Error) (Client PopStream) Value) : Prop where
  writes : sent (stateOf r).history ≠ sent c.history → c.state = .transaction
  refused : c.state ≠ .transaction → ∃ e, r = .error (.error e) c

omit [Host] in
/-- A call that is refused has not written. -/
theorem Restricted.of_refused {c : Client PopStream}
    {r : EStateM.Result (Exit Error) (Client PopStream) Value}
    (h : c.state ≠ .transaction → ∃ e, r = .error (.error e) c) : Restricted c r := by
  refine ⟨fun hsent => ?_, h⟩
  by_contra hstate
  obtain ⟨e, rfl⟩ := h hstate
  exact hsent rfl

/-- A request on a connection that is broken for good is an error, and that is all. -/
theorem Client.sendRequest_broken {c : Client PopStream} {s : PopStream} (hinner : c.inner = some s)
    (hstate : c.state.Connected) (hbroken : s.stream.broken ≠ none) (request : Request) :
    ∃ e, Client.sendRequest request c = .error (.error e) c := by
  obtain ⟨inner, capabilities, markedAsDel, greeting, greeted, state⟩ := c
  obtain rfl : inner = some s := hinner
  obtain ⟨e, he⟩ := Option.ne_none_iff_exists'.mp hbroken
  have hencode : Connection.encode request s = .error (.error (.ofIo e)) s := by
    simp only [Connection.encode, PopStream.encode, bind_apply, PopStream.sendBytes_broken he]
  refine ⟨.ofIo e, ?_⟩
  simp only [Client.sendRequest, innerMut_apply, if_pos hstate.symm, zoom, Connection.exchange,
    bind_apply, hencode]

/-- A request on a connection that works is not an error that leaves the client as it was. -/
theorem Client.sendRequest_advances {c : Client PopStream} {s : PopStream}
    (hinner : c.inner = some s) (hstate : c.state.Connected) (hbroken : s.stream.broken = none)
    {request : Request} (hrequest : request.command.display ≠ []) :
    match Client.sendRequest request c with
    | .ok _ c' => c'.inner ≠ c.inner
    | .error x c' => x = .pending ∨ c'.inner ≠ c.inner := by
  have hdisplay : request.display ≠ [] := by simp [Request.display, hrequest]
  have h := PopStream.exchange_advances hdisplay s.stream.writes.length s ⟨hbroken, rfl⟩
  have hne {s' : PopStream} (hlt : s'.stream.writes.length < s.stream.writes.length) :
      some s' ≠ c.inner := by
    rw [hinner]
    rintro ⟨⟩
    exact Nat.lt_irrefl _ hlt
  simp only [Client.sendRequest, innerMut_apply, hinner, if_pos hstate.symm, zoom]
  cases hexchange : Connection.exchange request s with
  | ok response s' =>
    rw [hexchange] at h
    simpa [hinner] using hne h
  | error x s' =>
    rw [hexchange] at h
    exact h.imp_right fun hlt => by simpa [hinner] using hne hlt

/-- In every state of a run, an operation of the transaction state is restricted to it
exactly if the client does not authenticate, or the operation ends before it sends
anything: at the check of the capabilities, or on a connection that is broken for good. -/
theorem restricted_iff {stream : Transport} {log : Log} {client : Client PopStream}
    (h : Run stream log client) {op : ClientOp} (hop : op.isTransactionCommand = true)
    (reads : List ReadEvent) (writes : List WriteEvent) :
    let c := client.supply reads writes
    Restricted c (op.run c) ↔ c.state ≠ .authentication ∨ c.hasCapability op.needs = false ∨
      ∃ s ∈ c.inner, s.stream.broken ≠ none := by
  intro c
  have hphased : c.Phased := h.phased.supply reads writes
  have hmarks : c.markedAsDel = [] := h.unmarked
  by_cases hauth : c.state = .authentication
  swap
  · -- The session has ended, or the client is in the transaction state.
    refine iff_of_true (.of_refused fun htransaction => ?_) (.inl hauth)
    have hended : c.Ended :=
      hphased.cases.resolve_left fun ⟨hstate, _⟩ => hstate.elim hauth htransaction
    rcases op.run_ended hended with ⟨n, rfl, -⟩ | ⟨e, -, hrun⟩
    · cases hop
    · exact ⟨e, hrun⟩
  have hne : c.state ≠ .transaction := hauth ▸ nofun
  have hconnected : c.state.Connected := .inl hauth
  obtain ⟨s, hinner⟩ := Option.isSome_iff_exists.mp (hphased.inner.mpr hconnected)
  cases hneeds : c.hasCapability op.needs with
  | false =>
    exact iff_of_true (.of_refused fun _ => ⟨_, op.run_unsupported hmarks hneeds⟩) (.inr (.inl rfl))
  | true =>
    obtain ⟨request, hrequest, herror, hok⟩ := op.run_sends hmarks hop hneeds
    by_cases hbroken : s.stream.broken = none
    swap
    · refine iff_of_true (.of_refused fun _ => ?_) (.inr (.inr ⟨s, hinner, hbroken⟩))
      obtain ⟨e, hsend⟩ := Client.sendRequest_broken hinner hconnected hbroken request
      exact ⟨e, herror _ _ hsend⟩
    · refine iff_of_false (fun hrestricted => ?_) ?_
      · obtain ⟨e, hrun⟩ := hrestricted.refused hne
        have hadvances := Client.sendRequest_advances hinner hconnected hbroken hrequest
        cases hsend : Client.sendRequest request c with
        | ok response c' =>
          rw [hsend] at hadvances
          have hafter := hok response c' hsend
          rw [hrun] at hafter
          exact hadvances hafter.symm
        | error x c' =>
          rw [hsend] at hadvances
          have hafter := herror x c' hsend
          rw [hrun] at hafter
          cases hafter
          rcases hadvances with hpending | hadvances
          · cases hpending
          · exact hadvances rfl
      · rintro (hstate | hcapability | ⟨s', hs', hbroken'⟩)
        · exact hstate hauth
        · cases hcapability
        · cases hinner.symm.trans hs'
          exact hbroken' hbroken

omit [Host] in
theorem restricted_iff_quit :
    ∃ (stream : Transport) (log : Log) (client : Client PopStream),
      @Run (.bare false) stream log client ∧ client.state = .none ∧
        Restricted client (@ClientOp.run (.bare false) _ (@instConnectionPopStreamOfHost (.bare false))
          .stat client) := by
  let host : Host := .bare false
  obtain ⟨c₀, hnew, hstate⟩ : ∃ c, newClient (answering [ascii "+OK\r\n", ascii "-ERR\r\n"]) =
      .ok () c ∧ (stateOf (ClientOp.quit.run (c.supply (answering [ascii "+OK\r\n"]).reads
        (answering [ascii "+OK\r\n"]).writes))).state = .none :=
    ⟨_, eq_ok_of_value? (by decide +kernel), by decide +kernel⟩
  have hrun : Run _ _ _ := ⟨c₀, hnew, .answered .nil .quit [ascii "+OK\r\n"]⟩
  have hended := hrun.phased.of_none hstate
  have h : Restricted _ (ClientOp.stat.run (Client.supply _ [] [])) :=
    (restricted_iff hrun rfl [] []).mpr (.inl (by rw [hended.supply]; exact hstate ▸ nofun))
  rw [hended.supply] at h
  exact ⟨_, _, _, hrun, hstate, h⟩

omit [Host] in
/-- A client that has not logged in sends `NOOP`. -/
theorem noop_unrestricted : ∃ client : Client PopStream,
    @newClient (.bare false) (answering [ascii "+OK\r\n", ascii "-ERR\r\n"]) = .ok () client ∧
      client.state = .authentication ∧
      let c := client.supply (answering [ascii "+OK\r\n"]).reads (answering []).writes
      let r := @ClientOp.run (.bare false) _ (@instConnectionPopStreamOfHost (.bare false)) .noop c
      value? r = some .unit ∧ sent (stateOf r).history = sent c.history ++ ascii "NOOP\r\n" ∧
        ¬ Restricted c r := by
  let host : Host := .bare false
  refine ⟨_, eq_ok_of_value? (by decide +kernel), by decide +kernel, by decide +kernel,
    by decide +kernel, fun h => ?_⟩
  obtain ⟨e, he⟩ := h.refused (by decide +kernel)
  cases (congrArg value? he).symm.trans (show value? _ = some Value.unit by decide +kernel)

end Pop
