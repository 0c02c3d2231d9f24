-- SUMMARY: A client over a connection simulates the client over the one that it simulates.
import GetEmail.Pop.ClientRules
import GetEmail.Pop.Operations
import GetEmail.Pop.Transcript

/-!
# Simulation of clients

Two clients over different connections are twins when they differ in the connection
only. The operations of the client keep twins together, as far as those of the
connections do.
-/

namespace Pop

open Exec
open Nom (Bytes ascii)

variable {κ κ' : Type} {C : Connection κ} {C' : Connection κ'} {R : κ → κ' → Prop}

theorem Connection.Simulates.exchange (hR : C.Simulates C' R) (request : Request) :
    Exec.Simulates R (C.exchange request) (C'.exchange request) :=
  .bind (hR.encode request) fun _ => hR.readResponse request.command

/-! ## Handshakes -/

/-- The communicators differ in the connection only. -/
def Communicator.Twin (R : κ → κ' → Prop) (c : Communicator κ) (d : Communicator κ') : Prop :=
  R c.stream d.stream ∧ c.requests = d.requests

theorem Communicator.onStream_simulates {α : Type} {m : Exec Error κ α} {m' : Exec Error κ' α}
    (hm : Simulates R m m') : Simulates (Twin R) (onStream m) (onStream m') :=
  .zoom hm (fun _ _ h => h.1) fun _ _ _ _ h hu => ⟨hu, h.2⟩

theorem Communicator.popFront_simulates :
    Simulates (Twin R) (popFront : Exec Error (Communicator κ) Command) popFront := by
  refine .get_bind fun c d h => ?_
  rw [h.2]
  cases hrequests : d.requests with
  | nil => exact .pure _
  | cons request requests => exact .bind (.modify fun _ _ h => ⟨h.1, rfl⟩) fun _ => .pure _

theorem Handshake.run_simulates (hR : C.Simulates C' R) (handshake : Handshake) :
    Simulates (Communicator.Twin R) (@Handshake.run κ C handshake) (@Handshake.run κ' C' handshake) := by
  induction handshake with
  | finish result =>
    cases result with
    | ok u => exact .pure ()
    | error e => exact .fail e
  | send secret next ih =>
    refine .bind (.attempt (.bind (Communicator.onStream_simulates (hR.encode _)) fun _ => ?_)) ih
    exact .modify fun _ _ h => ⟨h.1, by rw [h.2]⟩
  | nextChallenge next ih =>
    refine .bind (.attempt (.bind Communicator.popFront_simulates fun command =>
      .bind (Communicator.onStream_simulates (hR.readResponse command)) fun response => ?_)) ih
    cases response with
    | challenge challenge => exact .pure challenge
    | _ => exact .fail _
  | stop next ih => exact .bind (.attempt (Communicator.onStream_simulates (hR.sendBytes _))) ih

namespace Client

/-- The clients differ in the connection only. -/
structure Twin (R : κ → κ' → Prop) (c : Client κ) (d : Client κ') : Prop where
  inner : Option.Rel R c.inner d.inner
  capabilities : c.capabilities = d.capabilities
  markedAsDel : c.markedAsDel = d.markedAsDel
  greeting : c.greeting = d.greeting
  greeted : c.greeted = d.greeted
  state : c.state = d.state

theorem fresh_twin {socket : κ} {socket' : κ'} (h : R socket socket') :
    Twin R (fresh socket) (fresh socket') :=
  ⟨.some h, rfl, rfl, rfl, rfl, rfl⟩

theorem Twin.setInner {c : Client κ} {d : Client κ'} (h : Twin R c d) {socket : κ} {socket' : κ'}
    (hsocket : R socket socket') :
    Twin R { c with inner := some socket } { d with inner := some socket' } :=
  ⟨.some hsocket, h.capabilities, h.markedAsDel, h.greeting, h.greeted, h.state⟩

/-! ## Checks -/

theorem innerMut_simulates {α : Type} {op : Exec Error κ α} {op' : Exec Error κ' α}
    (hop : Simulates R op op') : Simulates (Twin R) (innerMut op) (innerMut op') := by
  refine .get_bind fun c d h => ?_
  obtain ⟨inner, capabilities, markedAsDel, greeting, greeted, state⟩ := c
  obtain ⟨inner', capabilities', markedAsDel', greeting', greeted', state'⟩ := d
  obtain rfl : state = state' := h.state
  cases h.inner with
  | none => exact .fail _
  | some hsocket =>
    refine .ite (fun c' d' h' => ?_) (.fail _)
    have hsame := hop _ _ hsocket
    unfold Exec.zoom
    dsimp only
    generalize op _ = r at hsame
    generalize op' _ = r' at hsame
    cases hsame with
    | ok h => exact .ok (h'.setInner h)
    | error h => exact .error (h'.setInner h)
    | left h => exact .left h
    | right h => exact .right h

theorem expect_simulates {α : Type} (kind : Response → Option α) (expected : String)
    (response : Response) :
    Simulates (Twin R) (expect kind expected response) (expect kind expected response) := by
  unfold expect
  cases kind response with
  | some a => exact .pure a
  | none => exact .fail _

theorem checkClientState_simulates (state : ClientState) :
    Simulates (Twin R) (checkClientState state) (checkClientState state) :=
  .get_bind fun c d h => by
    rw [h.state]
    exact .ite (.fail _) (.pure _)

theorem hasReadGreeting_simulates : Simulates (Twin R) hasReadGreeting hasReadGreeting :=
  .get_bind fun c d h => by
    rw [h.greeted]
    exact .ite (.fail _) (.pure _)

theorem isDeleted_simulates (msgNumber : Nat) :
    Simulates (Twin R) (isDeleted msgNumber) (isDeleted msgNumber) := by
  refine .bind (.modify fun c d h => ?_) fun _ => .get_bind fun c d h => ?_
  · exact ⟨h.inner, h.capabilities, by rw [h.markedAsDel], h.greeting, h.greeted, h.state⟩
  · rw [h.markedAsDel]
    exact .pure _

theorem checkDeleted_simulates (msgNumber : Nat) :
    Simulates (Twin R) (checkDeleted msgNumber) (checkDeleted msgNumber) :=
  .bind (isDeleted_simulates msgNumber) fun _ => .ite (.fail _) (.pure _)

theorem hasCapability_eq {c : Client κ} {d : Client κ'} (h : Twin R c d)
    (capabilities : List Capability) : c.hasCapability capabilities = d.hasCapability capabilities := by
  rw [hasCapability, hasCapability, h.capabilities]

theorem checkCapability_simulates (capabilities : List Capability) :
    Simulates (Twin R) (checkCapability capabilities) (checkCapability capabilities) :=
  .get_bind fun c d h => by
    rw [hasCapability_eq h]
    exact .ite (.fail _) (.pure _)

theorem setState_simulates (state : ClientState) :
    Simulates (Twin R) (setState state) (setState state) :=
  .modify fun _ _ h => ⟨h.inner, h.capabilities, h.markedAsDel, h.greeting, h.greeted, rfl⟩

/-! ## Operations -/

section

variable (hR : C.Simulates C' R)

include hR

theorem sendRequest_simulates (request : Request) :
    Simulates (Twin R) (@sendRequest κ C request) (@sendRequest κ' C' request) :=
  innerMut_simulates (hR.exchange request)

/-- A request, and a response of the expected kind. -/
theorem request_simulates {α : Type} (request : Request) (kind : Response → Option α)
    (expected : String) :
    Simulates (Twin R) (do expect kind expected (← @sendRequest κ C request))
      (do expect kind expected (← @sendRequest κ' C' request)) :=
  .bind (sendRequest_simulates hR request) fun response => expect_simulates kind expected response

theorem retr_simulates (msgNumber : Nat) :
    Simulates (Twin R) (@retr κ C msgNumber) (@retr κ' C' msgNumber) :=
  .bind (checkDeleted_simulates _) fun _ => request_simulates hR _ _ _

theorem stat_simulates : Simulates (Twin R) (@stat κ C) (@stat κ' C') := request_simulates hR _ _ _

theorem capa_simulates : Simulates (Twin R) (@capa κ C) (@capa κ' C') := request_simulates hR _ _ _

theorem updateCapabilities_simulates :
    Simulates (Twin R) (@updateCapabilities κ C) (@updateCapabilities κ' C') := by
  refine .bind (.attempt (capa_simulates hR)) fun result => ?_
  cases result with
  | ok capabilities =>
    exact .modify fun _ _ h => ⟨h.inner, rfl, h.markedAsDel, h.greeting, h.greeted, h.state⟩
  | error e => exact .pure _

theorem quit_simulates : Simulates (Twin R) (@quit κ C) (@quit κ' C') := by
  refine .bind (sendRequest_simulates hR _) fun response => .bind (setState_simulates _) fun _ =>
    .bind (.modify fun _ _ h => ?_) fun _ => .bind (setState_simulates _) fun _ =>
      .bind (.modify fun _ _ h => ?_) fun _ => .bind (.modify fun _ _ h => ?_) fun _ =>
        .bind (.modify fun _ _ h => ?_) fun _ => expect_simulates _ _ _
  · exact ⟨.none, h.capabilities, h.markedAsDel, h.greeting, h.greeted, h.state⟩
  · exact ⟨h.inner, h.capabilities, h.markedAsDel, h.greeting, rfl, h.state⟩
  · exact ⟨h.inner, h.capabilities, rfl, h.greeting, h.greeted, h.state⟩
  · exact ⟨h.inner, rfl, h.markedAsDel, h.greeting, h.greeted, h.state⟩

theorem readGreeting_simulates : Simulates (Twin R) (@readGreeting κ C) (@readGreeting κ' C') := by
  refine .get_bind fun c d h => ?_
  rw [h.greeted]
  refine .ite .crash (.bind (innerMut_simulates (hR.readResponse _)) fun _ =>
    .bind (expect_simulates _ _ _) fun resp => .bind (.modify fun _ _ h => ?_) fun _ => .pure _)
  exact ⟨h.inner, h.capabilities, h.markedAsDel, rfl, rfl, h.state⟩

theorem createClient_simulates : Simulates (Twin R) (@createClient κ C) (@createClient κ' C') :=
  .bind (readGreeting_simulates hR) fun _ => .bind (.modify fun _ _ h =>
    ⟨h.inner, h.capabilities, h.markedAsDel, rfl, h.greeted, h.state⟩) fun _ =>
      updateCapabilities_simulates hR

variable [Host]

theorem dialog_simulates (authenticator : Authenticator) :
    Simulates R (@dialog κ C _ authenticator) (@dialog κ' C' _ authenticator) :=
  .bind (hR.encode _) fun _ => .bind
    (.zoom (Handshake.run_simulates hR authenticator.handle) (fun _ _ h => ⟨h, rfl⟩)
      fun _ _ _ _ _ h => h.1) fun _ => hR.readResponse _

theorem auth_simulates (authenticator : Authenticator) :
    Simulates (Twin R) (@auth κ C _ authenticator) (@auth κ' C' _ authenticator) :=
  .bind (checkClientState_simulates _) fun _ => .bind hasReadGreeting_simulates fun _ =>
    .bind (innerMut_simulates (dialog_simulates hR authenticator)) fun _ =>
      .bind (expect_simulates _ _ _) fun _ => .bind (updateCapabilities_simulates hR) fun _ =>
        .bind (setState_simulates _) fun _ => .pure _

theorem login_simulates (user password : Bytes) :
    Simulates (Twin R) (@login κ C _ user password) (@login κ' C' _ user password) := by
  have huserPass : Simulates (Twin R) (@loginUserPass κ C user password)
      (@loginUserPass κ' C' user password) :=
    .bind hasReadGreeting_simulates fun _ => .bind (sendRequest_simulates hR _) fun _ =>
      .bind (sendRequest_simulates hR _) fun _ => .bind (updateCapabilities_simulates hR) fun _ =>
        .bind (setState_simulates _) fun _ => .bind (expect_simulates _ _ _) fun _ =>
          .bind (expect_simulates _ _ _) fun _ => .pure _
  refine .bind (checkClientState_simulates _) fun _ => .get_bind fun c d h => ?_
  have hmechanism : c.hasAuthMechanism (ascii "PLAIN") = d.hasAuthMechanism (ascii "PLAIN") := by
    rw [hasAuthMechanism, hasAuthMechanism, h.capabilities]
  rw [hmechanism]
  refine .ite (.bind (.attempt (auth_simulates hR _)) fun text => ?_) huserPass
  cases text with
  | ok text => exact .pure _
  | error e => exact huserPass

/-- The operations over the one connection simulate those over the other one. -/
theorem op_simulates (op : ClientOp) :
    Simulates (Twin R) (@ClientOp.run _ κ C op) (@ClientOp.run _ κ' C' op) := by
  cases op with
  | noop => exact .map _ (.bind (sendRequest_simulates hR _) fun _ => .pure _)
  | uidl msgNumber =>
    refine .map _ (.bind (checkCapability_simulates _) fun _ => ?_)
    cases msgNumber with
    | none => exact request_simulates hR _ _ _
    | some number => exact .bind (checkDeleted_simulates _) fun _ => request_simulates hR _ _ _
  | top msgNumber lines =>
    exact .map _ (.bind (checkDeleted_simulates _) fun _ =>
      .bind (checkCapability_simulates _) fun _ => request_simulates hR _ _ _)
  | isDeleted msgNumber => exact .map _ (isDeleted_simulates _)
  | dele msgNumber =>
    exact .map _ (.bind (checkDeleted_simulates _) fun _ => request_simulates hR _ _ _)
  | rset =>
    refine .map _ (.bind (sendRequest_simulates hR _) fun _ => .bind (.modify fun _ _ h => ?_)
      fun _ => expect_simulates _ _ _)
    exact ⟨h.inner, h.capabilities, rfl, h.greeting, h.greeted, h.state⟩
  | retr msgNumber => exact .map _ (retr_simulates hR _)
  | list msgNumber =>
    refine .map _ ?_
    cases msgNumber with
    | none => exact request_simulates hR _ _ _
    | some number => exact .bind (checkDeleted_simulates _) fun _ => request_simulates hR _ _ _
  | stat => exact .map _ (stat_simulates hR)
  | apop name digest =>
    exact .map _ (.bind (checkClientState_simulates _) fun _ =>
      .bind hasReadGreeting_simulates fun _ => .bind (sendRequest_simulates hR _) fun _ =>
        .bind (updateCapabilities_simulates hR) fun _ => .bind (setState_simulates _) fun _ =>
          expect_simulates _ _ _)
  | auth authenticator => exact .map _ (auth_simulates hR _)
  | login user password => exact .map _ (login_simulates hR _ _)
  | quit => exact .map _ (quit_simulates hR)
  | capa => exact .map _ (capa_simulates hR)
  | sendRequest request => exact .map _ (sendRequest_simulates hR _)

end

end Client

end Pop
