-- SUMMARY: The operations of a client as data, and the runs of a session.
import GetEmail.Pop.ClientRules
import GetEmail.Pop.Sequential

/-!
# Runs of a client

A run calls operations on a client one after the other, whatever came of the
ones before: they may have failed, or may have been dropped while they waited.
For each call the transport goes on with a script of its own.
-/

namespace Pop

open Exec
open Nom (Bytes)

inductive ClientOp where
  | noop
  | uidl (msgNumber : Option Nat)
  | top (msgNumber lines : Nat)
  | isDeleted (msgNumber : Nat)
  | dele (msgNumber : Nat)
  | rset
  | retr (msgNumber : Nat)
  | list (msgNumber : Option Nat)
  | stat
  | apop (name digest : Bytes)
  | auth (authenticator : Authenticator)
  | login (user password : Bytes)
  | quit
  | capa
  | sendRequest (request : Request)

/-- What the operations return. -/
inductive Value where
  | unit
  | flag (b : Bool)
  | text (text : Text)
  | texts (user password : Text)
  | bytes (body : Bytes)
  | uidl (listing : UidlResponse)
  | list (listing : ListResponse)
  | stat (counts : Stat)
  | capabilities (capabilities : List Capability)
  | response (response : Response)
  deriving DecidableEq

variable [Host]

namespace ClientOp

def run {κ : Type} [Connection κ] : ClientOp → Exec Error (Client κ) Value
  | noop => (fun _ => .unit) <$> Client.noop
  | uidl msgNumber => Value.uidl <$> Client.uidl msgNumber
  | top msgNumber lines => Value.bytes <$> Client.top msgNumber lines
  | isDeleted msgNumber => Value.flag <$> Client.isDeleted msgNumber
  | dele msgNumber => Value.text <$> Client.dele msgNumber
  | rset => Value.text <$> Client.rset
  | retr msgNumber => Value.bytes <$> Client.retr msgNumber
  | list msgNumber => Value.list <$> Client.list msgNumber
  | stat => Value.stat <$> Client.stat
  | apop name digest => Value.text <$> Client.apop name digest
  | auth authenticator => Value.text <$> Client.auth authenticator
  | login user password => (fun (u, p) => .texts u p) <$> Client.login user password
  | quit => Value.text <$> Client.quit
  | capa => Value.capabilities <$> Client.capa
  | sendRequest request => Value.response <$> Client.sendRequest request

end ClientOp

/-- The transport of the client goes on with other events. -/
def Client.supply (client : Client PopStream) (reads : List ReadEvent) (writes : List WriteEvent) :
    Client PopStream :=
  { client with inner := client.inner.map (·.supply reads writes) }

abbrev Log := List (ClientOp × Except (Exit Error) Value)

/-- Operations called on the client `c`, with what came of them. -/
inductive Calls (c : Client PopStream) : Log → Client PopStream → Prop where
  | nil : Calls c [] c
  | call {log : Log} {client : Client PopStream} (h : Calls c log client) (op : ClientOp)
      (reads : List ReadEvent) (writes : List WriteEvent) :
      Calls c (log ++ [(op, outcome (op.run (client.supply reads writes)))])
        (stateOf (op.run (client.supply reads writes)))

/-- The runs of a client that was made from `stream`. -/
def Run (stream : Transport) (log : Log) (client : Client PopStream) : Prop :=
  ∃ c, newClient stream = .ok () c ∧ Calls c log client

/-- A transport on which these answers come in, and that takes all writes. -/
def answering (answers : List Bytes) : Transport :=
  ⟨answers.map .data, List.replicate 9 (.ready 99), false, none⟩

/-- A call with these answers. -/
theorem Calls.answered {c client : Client PopStream} {log : Log} (h : Calls c log client)
    (op : ClientOp) (answers : List Bytes) :
    Calls c
      (log ++ [(op, outcome (op.run (client.supply (answering answers).reads
        (answering answers).writes)))])
      (stateOf (op.run (client.supply (answering answers).reads (answering answers).writes))) :=
  .call h op _ _

/-- A call that exits. -/
theorem Calls.exited {c client : Client PopStream} {log : Log} (h : Calls c log client)
    (op : ClientOp) (reads : List ReadEvent) (writes : List WriteEvent) {x : Exit Error}
    (hx : exit? (op.run (client.supply reads writes)) = some x) :
    Calls c (log ++ [(op, .error x)]) (stateOf (op.run (client.supply reads writes))) := by
  have hcall := h.call op reads writes
  rwa [show outcome (op.run (client.supply reads writes)) = .error x by
    rw [eq_error_of_exit? hx]; rfl] at hcall

/-- A run can be cut anywhere. -/
theorem Calls.cut {c client : Client PopStream} {log log' : Log}
    (h : Calls c (log ++ log') client) : ∃ c', Calls c log c' ∧ Calls c' log' client := by
  generalize hlog : log ++ log' = whole at h
  induction h generalizing log' with
  | nil =>
    obtain ⟨rfl, rfl⟩ := List.append_eq_nil_iff.mp hlog
    exact ⟨c, .nil, .nil⟩
  | @call prior client h op reads writes ih =>
    obtain rfl | ⟨log'', entry, rfl⟩ := List.eq_nil_or_concat log'
    · rw [List.append_nil] at hlog
      subst hlog
      exact ⟨_, .call h op reads writes, .nil⟩
    · rw [List.concat_eq_append, ← List.append_assoc] at hlog
      obtain ⟨rfl, hentry⟩ := List.append_inj' hlog rfl
      obtain ⟨c', hfirst, hrest⟩ := ih rfl
      refine ⟨c', hfirst, ?_⟩
      rw [List.concat_eq_append, hentry]
      exact .call hrest op reads writes

/-- What every operation of the run keeps holds at its end, if the exits that occur
count. -/
theorem Calls.invariant {counts : Exit Error → Prop} {P : Client PopStream → Prop}
    {c client : Client PopStream} {log : Log} (h : Calls c log client) (hc : P c)
    (hcounts : ∀ entry ∈ log, ∀ x, entry.2 = .error x → counts x)
    (hsupply : ∀ client reads writes, P client → P (client.supply reads writes))
    (hop : ∀ entry ∈ log, Keeps counts P entry.1.run) : P client := by
  induction h with
  | nil => exact hc
  | @call log client _ op reads writes ih =>
    have ih := ih (fun entry hentry => hcounts entry (List.mem_append_left _ hentry))
      fun entry hentry => hop entry (List.mem_append_left _ hentry)
    have h := hop _ (List.mem_append_right _ (List.mem_singleton_self _)) _
      (hsupply client reads writes ih)
    cases hrun : op.run (client.supply reads writes) with
    | ok v client' => simpa [hrun, stateOf] using h
    | error x client' =>
      have hx : counts x := by
        apply hcounts _ (List.mem_append_right _ (List.mem_singleton_self _))
        simp [hrun, outcome]
      simp only [hrun] at h
      exact h hx

/-- The authenticator of a call, if it makes use of one. -/
def ClientOp.authenticator? : ClientOp → Option Authenticator
  | .auth authenticator => some authenticator
  | .login user password => some (.plain user password)
  | _ => none

/-- The requests that a call may send. A handshake sends its own lines after the first. -/
def ClientOp.requests : ClientOp → List Request
  | .noop => [.ofCommand .noop]
  | .uidl none => [.ofCommand .uidl]
  | .uidl (some msgNumber) => [(Request.ofCommand .uidl).addArg msgNumber]
  | .top msgNumber lines => [((Request.ofCommand .top).addArg msgNumber).addArg lines]
  | .isDeleted _ => []
  | .dele msgNumber => [(Request.ofCommand .dele).addArg msgNumber]
  | .rset => [.ofCommand .rset]
  | .retr msgNumber => [(Request.ofCommand .retr).addArg msgNumber]
  | .list none => [.ofCommand .list]
  | .list (some msgNumber) => [(Request.ofCommand .list).addArg msgNumber]
  | .stat => [.ofCommand .stat]
  | .apop name digest => [((Request.ofCommand .apop).addArg name).addArg digest, .ofCommand .capa]
  | .auth authenticator => [Client.authRequest authenticator, .ofCommand .capa]
  | .login user password => [Client.authRequest (.plain user password),
      (Request.ofCommand .user).addArg user, (Request.ofCommand .pass).addArg password,
      .ofCommand .capa]
  | .quit => [.ofCommand .quit]
  | .capa => [.ofCommand .capa]
  | .sendRequest request => [request]

/-- An operation with one request leaves what its exchange leaves, and agrees on two
connections that exchange it in the same way. -/
theorem ClientOp.run_once {κ : Type} {C C' : Connection κ} {counts : Exit Error → Prop}
    {R R' : κ → Prop} (hkept : ∀ socket, R socket → R' socket) {op : ClientOp} {request : Request}
    (hop : op.requests = [request])
    (hexchange : Agree R (C.exchange request) (C'.exchange request) (fun _ => R')
      fun x socket => counts x → R' socket) :
    Agree (Client.Keeping R) (@run _ κ C op) (@run _ κ C' op) (fun _ => Client.Keeping R')
      fun x client => counts x → Client.Keeping R' client := by
  have hsend : Agree (Client.Keeping R) (@Client.sendRequest κ C request)
      (@Client.sendRequest κ C' request) (fun _ => Client.Keeping R')
      fun x client => counts x → Client.Keeping R' client :=
    (Client.innerMut_agree hexchange fun _ _ socket h _ => hkept socket h).consequence (fun _ h => h)
      (fun _ _ h => h) fun _ _ h hx => ⟨fun socket hsocket => h.1 socket hsocket hx, h.2⟩
  have hcheck {α : Type} {m : Exec Error (Client κ) α} (h : Keeps counts (Client.Keeping R) m) :
      Agree (Client.Keeping R) m m (fun _ => Client.Keeping R)
        fun x client => counts x → Client.Keeping R' client :=
    .refl (h.consequence (fun _ h => h) (fun _ _ h => h) fun _ _ h hx =>
      ⟨fun socket hsocket => hkept socket ((h hx).1 socket hsocket), (h hx).2⟩)
  have hdeleted (number : Nat) := hcheck (Client.checkDeleted_keeps number)
  cases op with
  | noop =>
    cases hop
    exact .map (.bind hsend fun _ => .refl (Keeps.pure _))
  | uidl msgNumber =>
    refine .map (.bind (hcheck (Client.checkCapability_keeps _)) fun _ => ?_)
    cases msgNumber with
    | none =>
      cases hop
      exact .bind hsend fun _ => .refl Client.expect_keeps
    | some number =>
      cases hop
      exact .bind (hdeleted number) fun _ => .bind hsend fun _ => .refl Client.expect_keeps
  | top msgNumber lines =>
    cases hop
    exact .map (.bind (hdeleted _) fun _ => .bind (hcheck (Client.checkCapability_keeps _)) fun _ =>
      .bind hsend fun _ => .refl Client.expect_keeps)
  | dele msgNumber =>
    cases hop
    exact .map (.bind (hdeleted _) fun _ => .bind hsend fun _ => .refl Client.expect_keeps)
  | rset =>
    cases hop
    exact .map (.bind hsend fun _ => .refl (Keeps.bind (.modify fun _ h => ⟨h.1, rfl⟩) fun _ =>
      Client.expect_keeps))
  | retr msgNumber =>
    cases hop
    exact .map (.bind (hdeleted _) fun _ => .bind hsend fun _ => .refl Client.expect_keeps)
  | list msgNumber =>
    refine .map ?_
    cases msgNumber with
    | none =>
      cases hop
      exact .bind hsend fun _ => .refl Client.expect_keeps
    | some number =>
      cases hop
      exact .bind (hdeleted number) fun _ => .bind hsend fun _ => .refl Client.expect_keeps
  | stat =>
    cases hop
    exact .map (.bind hsend fun _ => .refl Client.expect_keeps)
  | quit =>
    cases hop
    refine .map (.bind hsend fun _ => .refl (Keeps.bind Client.setState_keeps fun _ => ?_))
    refine .bind (.modify fun _ h => ⟨nofun, h.2⟩) fun _ => .bind Client.setState_keeps fun _ => ?_
    exact .bind (.modify fun _ h => h) fun _ => .bind (.modify fun _ h => ⟨h.1, rfl⟩) fun _ =>
      .bind (.modify fun _ h => h) fun _ => Client.expect_keeps
  | capa =>
    cases hop
    exact .map (.bind hsend fun _ => .refl Client.expect_keeps)
  | sendRequest request =>
    cases hop
    exact .map hsend
  | _ => cases hop

/-- Operations keep what their exchanges keep, and agree on two connections that do. -/
theorem ClientOp.run_agrees {κ : Type} {C C' : Connection κ} {counts : Exit Error → Prop}
    {sendable : Request → Prop} {allowed : Authenticator → Prop} {R : κ → Prop}
    (hcounts : ∀ e, counts (.error e)) (hR : Client.Upholds C C' counts sendable allowed R)
    (op : ClientOp) (hrequests : ∀ request ∈ op.requests, sendable request)
    (hop : ∀ authenticator ∈ op.authenticator?, allowed authenticator) :
    Agrees counts (Client.Keeping R) (@run _ κ C op) (@run _ κ C' op) := by
  have hfirst {request : Request} {requests : List Request}
      (h : ∀ r ∈ request :: requests, sendable r) : sendable request := h _ List.mem_cons_self
  have hrest {request : Request} {requests : List Request}
      (h : ∀ r ∈ request :: requests, sendable r) : ∀ r ∈ requests, sendable r :=
    fun r hr => h r (List.mem_cons_of_mem _ hr)
  have honce {request : Request} (h : op.requests = [request]) :
      Agrees counts (Client.Keeping R) (@run _ κ C op) (@run _ κ C' op) :=
    run_once (fun _ h => h) h (hR.exchange request (hrequests request (h ▸ List.mem_cons_self)))
  cases op with
  | isDeleted msgNumber => exact .map (.refl (Client.isDeleted_keeps _))
  | apop name digest =>
    have hcapabilities := Client.updateCapabilities_keeping hcounts hR (hfirst (hrest hrequests))
    exact .map (.bind (.refl (Client.checkClientState_keeps _)) fun _ =>
      .bind (.refl Client.hasReadGreeting_keeps) fun _ =>
        .bind (Client.sendRequest_keeping hR (hfirst hrequests)) fun _ =>
          .bind hcapabilities fun _ => .refl (.bind Client.setState_keeps fun _ =>
            Client.expect_keeps))
  | auth authenticator =>
    exact .map (Client.auth_agrees hcounts hR (hop _ rfl) (hfirst hrequests)
      (hfirst (hrest hrequests)))
  | login user password =>
    have huserPass := hrest hrequests
    exact .map (Client.login_agrees hcounts hR (hop _ rfl) (hfirst hrequests) (hfirst huserPass)
      (hfirst (hrest huserPass)) (hfirst (hrest (hrest huserPass))))
  | uidl msgNumber => cases msgNumber <;> exact honce rfl
  | list msgNumber => cases msgNumber <;> exact honce rfl
  | _ => exact honce rfl

/-- In every state of a run the connection satisfies what the client's use of it keeps.
The greeting is read in `R₀`. -/
theorem Run.keeping {counts : Exit Error → Prop} {allowed : Authenticator → Prop}
    {R₀ R : PopStream → Prop} (hcounts : ∀ e, counts (.error e))
    (hgreet : Triple R₀ (Connection.readResponse .greet) (fun _ => R) fun _ _ => True)
    (hR : Client.Upholds instConnectionPopStreamOfHost instConnectionPopStreamOfHost counts
      (fun _ => True) allowed R)
    (hsupply : ∀ s reads writes, R s → R (s.supply reads writes)) {stream : Transport} {log : Log}
    {client : Client PopStream} (h : Run stream log client) (hstream : R₀ (.new stream))
    (hlog : ∀ entry ∈ log, ∀ x, entry.2 = .error x → counts x)
    (hallowed : ∀ entry ∈ log, ∀ authenticator ∈ entry.1.authenticator?, allowed authenticator) :
    client.Keeping R := by
  obtain ⟨c, hnew, hcalls⟩ := h
  have hfresh : (Client.fresh (PopStream.new stream)).Keeping R₀ :=
    ⟨by simpa [Client.fresh] using hstream, rfl⟩
  have hc := (Client.createClient_triple hcounts hgreet (hR.exchange _ trivial).keeps).ok hfresh hnew
  refine hcalls.invariant hc hlog (fun client reads writes hclient => ⟨?_, hclient.2⟩) ?_
  · intro socket hsocket
    obtain ⟨s, hs, rfl⟩ := Option.map_eq_some_iff.mp hsocket
    exact hsupply s reads writes (hclient.1 s hs)
  · exact fun entry hentry => (ClientOp.run_agrees hcounts hR entry.1 (fun _ _ => trivial)
      (hallowed entry hentry)).keeps

/-- In every state of a run the connection satisfies what its operations keep. -/
theorem Run.keeping_of_keep {counts : Exit Error → Prop} {R : PopStream → Prop}
    (hcounts : ∀ e, counts (.error e)) (hR : Connection.Keep counts R)
    (hsupply : ∀ s reads writes, R s → R (s.supply reads writes)) {stream : Transport} {log : Log}
    {client : Client PopStream} (h : Run stream log client) (hstream : R (.new stream))
    (hlog : ∀ entry ∈ log, ∀ x, entry.2 = .error x → counts x) : client.Keeping R :=
  h.keeping hcounts (hR.readResponse .greet).value (.of_keep hcounts hR) hsupply hstream hlog
    fun _ _ _ _ => trivial

end Pop
