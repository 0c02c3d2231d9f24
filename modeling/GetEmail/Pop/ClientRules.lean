-- SUMMARY: Pre- and postconditions of the client's operations, over any connection.
import GetEmail.Exec.Agree
import GetEmail.Pop.Client

/-!
# Rules for the client

What the operations of a connection keep, the operations of the client keep.
-/

namespace Pop

open Exec
open Nom (Bytes ascii)

namespace Client

variable {κ : Type}

theorem innerMut_apply {α : Type} (op : Exec Error κ α) (client : Client κ) :
    innerMut op client = match client.inner with
      | some socket =>
        if client.state = .transaction ∨ client.state = .authentication then
          zoom (fun _ => socket) (fun socket client => { client with inner := some socket }) op
            client
        else .error (.error shouldNotBeConnected) client
      | none => .error (.error notConnected) client := by
  simp only [innerMut, bind_apply, get_apply]
  cases client.inner with
  | none => rfl
  | some socket => exact if_apply ..

theorem innerMut_triple {α : Type} {op : Exec Error κ α} {P : Client κ → Prop}
    {Q : α → Client κ → Prop} {E : Exit Error → Client κ → Prop}
    (hop : ∀ client socket, P client → client.inner = some socket →
      Triple (· = socket) op (fun a socket' => Q a { client with inner := some socket' })
        fun x socket' => E x { client with inner := some socket' })
    (hfail : ∀ client, ∀ e ∈ [notConnected, shouldNotBeConnected],
      P client → E (.error e) client) : Triple P (innerMut op) Q E := by
  intro client hclient
  rw [innerMut_apply]
  cases hinner : client.inner with
  | none => exact hfail client _ List.mem_cons_self hclient
  | some socket =>
    by_cases hstate : client.state = .transaction ∨ client.state = .authentication
    · have hop := hop client socket hclient hinner socket rfl
      simp only [if_pos hstate, zoom]
      cases hsocket : op socket <;> simpa [hsocket] using hop
    · simp only [if_neg hstate]
      exact hfail client _ (List.mem_cons_of_mem _ List.mem_cons_self) hclient

/-- Of the connection, `P` says `R`. -/
structure Carries (P : Client κ → Prop) (R : κ → Prop) : Prop where
  get (client : Client κ) (socket : κ) : P client → client.inner = some socket → R socket
  set (client : Client κ) (socket : κ) :
    P client → R socket → P { client with inner := some socket }

/-- The invariant of a connection, carried over to clients. No operation ever adds to
`marked_as_del`. -/
def Keeping (R : κ → Prop) (client : Client κ) : Prop :=
  (∀ socket ∈ client.inner, R socket) ∧ client.markedAsDel = []

/-- There is a connection, and it satisfies `R`. -/
def Connected (R : κ → Prop) (client : Client κ) : Prop :=
  ∃ socket, client.inner = some socket ∧ R socket

variable {counts : Exit Error → Prop} {P : Client κ → Prop} {R : κ → Prop}

theorem keeping_set {client : Client κ} {socket : κ} (hmarks : client.markedAsDel = [])
    (hsocket : R socket) : Keeping R { client with inner := some socket } :=
  ⟨by simpa using hsocket, hmarks⟩

theorem keeping_carries : Carries (Keeping R) R where
  get _ socket h hinner := h.1 socket hinner
  set _ _ h hsocket := keeping_set h.2 hsocket

theorem connected_carries : Carries (Connected R) R where
  get _ _ h hinner := by
    obtain ⟨socket', hinner', hsocket⟩ := h
    rw [hinner] at hinner'
    cases hinner'
    exact hsocket
  set _ socket _ hsocket := ⟨socket, rfl, hsocket⟩

/-- Only what the two do with the client's connection matters. -/
theorem innerMut_congr {α : Type} {op op' : Exec Error κ α} {client : Client κ}
    (h : ∀ socket ∈ client.inner, op' socket = op socket) :
    innerMut op' client = innerMut op client := by
  rw [innerMut_apply, innerMut_apply]
  cases hinner : client.inner with
  | none => rfl
  | some socket => simp only [zoom, h socket hinner]

theorem innerMut_agree {α : Type} {op op' : Exec Error κ α} {Q : α → κ → Prop}
    {E : Exit Error → κ → Prop} (hop : Agree R op op' Q E)
    (hfail : ∀ e ∈ [notConnected, shouldNotBeConnected], ∀ socket, R socket → E (.error e) socket) :
    Agree (Keeping R) (innerMut op) (innerMut op') (fun a => Keeping (Q a)) fun x => Keeping (E x) := by
  refine ⟨innerMut_triple (fun client socket hclient hinner => ?_) fun client e he hclient => ?_,
    fun client hclient => innerMut_congr fun socket hsocket => hop.eq socket (hclient.1 socket hsocket)⟩
  · refine hop.triple.consequence ?_ ?_ ?_
    · intro _ hsocket
      exact hsocket ▸ hclient.1 socket hinner
    · exact fun _ _ hsocket' => keeping_set hclient.2 hsocket'
    · exact fun _ _ hsocket' => keeping_set hclient.2 hsocket'
  · exact ⟨fun socket hsocket => hfail e he socket (hclient.1 socket hsocket), hclient.2⟩

theorem innerMut_agrees {α : Type} {op op' : Exec Error κ α} (hP : Carries P R)
    (hop : Agrees counts R op op') : Agrees counts P (innerMut op) (innerMut op') := by
  refine ⟨innerMut_triple (fun client socket hclient hinner => ?_) fun _ _ _ h _ => h,
    fun client hclient => innerMut_congr fun socket hsocket =>
      hop.eq socket (hP.get client socket hclient hsocket)⟩
  refine hop.keeps.consequence ?_ ?_ ?_
  · intro _ hsocket
    exact hsocket ▸ hP.get client socket hclient hinner
  · intro a socket' hsocket'
    exact hP.set client socket' hclient hsocket'
  · intro x socket' hsocket' hx
    exact hP.set client socket' hclient (hsocket' hx)

theorem expect_keeps {α : Type} {kind : Response → Option α}
    {expected : String} {response : Response} : Keeps counts P (expect kind expected response) := by
  unfold expect
  split
  · exact .pure _
  · exact .fail _

theorem isDeleted_keeps (msgNumber : Nat) : Keeps counts (Keeping R) (isDeleted msgNumber) := by
  refine .bind (.modify ?_) fun _ => .bind .get fun _ => .pure _
  rintro client ⟨hR, hmarks⟩
  exact ⟨hR, by simp [hmarks]⟩

theorem checkDeleted_keeps (msgNumber : Nat) : Keeps counts (Keeping R) (checkDeleted msgNumber) :=
  .bind (isDeleted_keeps msgNumber) fun _ => .ite (.fail _) (.pure _)

theorem checkCapability_keeps (capabilities : List Capability) :
    Keeps counts P (checkCapability capabilities) :=
  .bind .get fun _ => .ite (.fail _) (.pure _)

theorem checkClientState_keeps (state : ClientState) :
    Keeps counts P (checkClientState state) :=
  .bind .get fun _ => .ite (.fail _) (.pure _)

theorem hasReadGreeting_keeps : Keeps counts P hasReadGreeting :=
  .bind .get fun _ => .ite (.fail _) (.pure _)

theorem setState_keeps {state : ClientState} : Keeps counts (Keeping R) (setState state) :=
  .modify fun _ h => h

/-! ## Two connections -/

section

variable {C C' : Connection κ}

theorem sendRequest_agrees (hP : Carries P R) {request : Request}
    (hop : Agrees counts R (C.exchange request) (C'.exchange request)) :
    Agrees counts P (@sendRequest κ C request) (@sendRequest κ C' request) :=
  innerMut_agrees hP hop

theorem updateCapabilities_agrees (hcounts : ∀ e, counts (.error e)) (hP : Carries P R)
    (hcapabilities : ∀ client capabilities, P client → P { client with capabilities := capabilities })
    (hop : Agrees counts R (C.exchange (.ofCommand .capa)) (C'.exchange (.ofCommand .capa))) :
    Agrees counts P (@updateCapabilities κ C) (@updateCapabilities κ C') := by
  refine .bind (.attempt hcounts (.bind (sendRequest_agrees hP hop) fun _ => .refl expect_keeps))
    fun capabilities => .refl ?_
  cases capabilities with
  | ok capabilities => exact .modify fun client h => hcapabilities client capabilities h
  | error e => exact .pure _

variable [Host]

/-- What the client asks of its connection keeps `R`, and the other connection does the
same. -/
structure Upholds (C C' : Connection κ) (counts : Exit Error → Prop) (sendable : Request → Prop)
    (allowed : Authenticator → Prop) (R : κ → Prop) : Prop where
  exchange (request : Request) : sendable request →
    Agrees counts R (C.exchange request) (C'.exchange request)
  dialog (authenticator : Authenticator) : allowed authenticator →
    sendable (authRequest authenticator) →
      Agrees counts R (@dialog κ C _ authenticator) (@dialog κ C' _ authenticator)

theorem Upholds.of_keep (hcounts : ∀ e, counts (.error e)) (hR : C.Keep counts R) :
    Upholds C C counts (fun _ => True) (fun _ => True) R where
  exchange request _ := .refl (hR.exchange request)
  dialog _ _ _ := .refl (.bind (hR.encode _) fun _ => .bind
    (.zoom (Handshake.run_keeps hcounts (fun _ => hR.encode _) (hR.sendBytes _) hR.readResponse _)
      (fun _ h => h) fun _ _ _ h => h) fun _ => hR.readResponse _)

variable {sendable : Request → Prop} {allowed : Authenticator → Prop}
  (hcounts : ∀ e, counts (.error e)) (hR : Upholds C C' counts sendable allowed R)

include hR

theorem sendRequest_keeping {request : Request} (hrequest : sendable request) :
    Agrees counts (Keeping R) (@sendRequest κ C request) (@sendRequest κ C' request) :=
  sendRequest_agrees keeping_carries (hR.exchange request hrequest)

include hcounts

theorem updateCapabilities_keeping (hcapa : sendable (.ofCommand .capa)) :
    Agrees counts (Keeping R) (@updateCapabilities κ C) (@updateCapabilities κ C') :=
  updateCapabilities_agrees hcounts keeping_carries (fun _ _ h => h) (hR.exchange _ hcapa)

theorem auth_agrees {authenticator : Authenticator} (hallowed : allowed authenticator)
    (hauth : sendable (authRequest authenticator)) (hcapa : sendable (.ofCommand .capa)) :
    Agrees counts (Keeping R) (@auth κ C _ authenticator) (@auth κ C' _ authenticator) :=
  .bind (.refl (checkClientState_keeps _)) fun _ => .bind (.refl hasReadGreeting_keeps) fun _ =>
    .bind (innerMut_agrees keeping_carries (hR.dialog authenticator hallowed hauth)) fun _ =>
      .bind (.refl expect_keeps) fun _ => .bind (updateCapabilities_keeping hcounts hR hcapa) fun _ =>
        .refl (.bind setState_keeps fun _ => .pure _)

theorem loginUserPass_agrees {user password : Bytes}
    (huser : sendable ((Request.ofCommand .user).addArg user))
    (hpass : sendable ((Request.ofCommand .pass).addArg password))
    (hcapa : sendable (.ofCommand .capa)) :
    Agrees counts (Keeping R) (@loginUserPass κ C user password)
      (@loginUserPass κ C' user password) :=
  .bind (.refl hasReadGreeting_keeps) fun _ => .bind (sendRequest_keeping hR huser) fun _ =>
    .bind (sendRequest_keeping hR hpass) fun _ =>
      .bind (updateCapabilities_keeping hcounts hR hcapa) fun _ => .refl (.bind setState_keeps
        fun _ => .bind expect_keeps fun _ => .bind expect_keeps fun _ => .pure _)

theorem login_agrees {user password : Bytes} (hallowed : allowed (.plain user password))
    (hauth : sendable (authRequest (.plain user password)))
    (huser : sendable ((Request.ofCommand .user).addArg user))
    (hpass : sendable ((Request.ofCommand .pass).addArg password))
    (hcapa : sendable (.ofCommand .capa)) :
    Agrees counts (Keeping R) (@login κ C _ user password) (@login κ C' _ user password) := by
  have huserPass := loginUserPass_agrees hcounts hR huser hpass hcapa
  refine .bind (.refl (checkClientState_keeps _)) fun _ => .bind (.refl .get) fun client =>
    .ite (fun _ => ?_) fun _ => huserPass
  have hauth := auth_agrees hcounts hR hallowed hauth hcapa
  refine Agrees.bind (Agrees.attempt hcounts hauth) fun text => ?_
  cases text with
  | ok text => exact .refl (.pure _)
  | error e => exact huserPass

end

/-! ## Connecting -/

variable [Connection κ]

/-- The greeting is read first, from another condition. -/
theorem readGreeting_triple {R₀ : κ → Prop}
    (hop : Triple R₀ (Connection.readResponse .greet) (fun _ => R) fun _ _ => True) :
    Triple (Keeping R₀) readGreeting (fun _ => Keeping R) fun _ _ => True := by
  refine .bind (.get fun _ h => h) fun client => .ite (fun _ => .crash fun _ _ => trivial) fun _ => ?_
  refine .bind (R := fun _ => Keeping R) ?_ fun response =>
    .bind (R := fun _ => Keeping R) ?_ fun _ => .bind (.modify fun _ h => h) fun _ => .pure fun _ h => h
  · refine innerMut_triple (fun client socket hclient hinner => ?_) fun _ _ _ _ => trivial
    refine hop.consequence ?_ ?_ fun _ _ h => h
    · intro _ hsocket
      exact hsocket ▸ hclient.1 socket hinner
    · exact fun _ socket' hsocket' => keeping_set hclient.2 hsocket'
  · have hexpect : Keeps (fun _ => True) (Keeping R)
        (expect Response.message? "greeting" response) := expect_keeps
    exact hexpect.value

theorem createClient_triple {R₀ : κ → Prop} (hcounts : ∀ e, counts (.error e))
    (hgreet : Triple R₀ (Connection.readResponse .greet) (fun _ => R) fun _ _ => True)
    (hexchange : Keeps counts R (Connection.exchange (.ofCommand .capa))) :
    Triple (Keeping R₀) createClient (fun _ => Keeping R) fun _ _ => True := by
  have hcapabilities :=
    (updateCapabilities_agrees hcounts keeping_carries (fun _ _ h => h) (.refl hexchange)).keeps
  exact .bind (readGreeting_triple hgreet) fun _ => .bind (.modify fun _ h => h) fun _ =>
    hcapabilities.value

theorem authRequest_command [Host] (authenticator : Authenticator) :
    (authRequest authenticator).command = .auth := by
  unfold authRequest
  cases authenticator.auth <;> rfl

/-- An authenticator that leaves the handshake to the server makes one exchange. -/
theorem dialog_finish [Host] {authenticator : Authenticator}
    (hhandle : authenticator.handle = .finish (.ok ())) :
    (dialog authenticator : Exec Error κ Response) =
      Connection.exchange (authRequest authenticator) := by
  funext s
  simp only [dialog, hhandle, Connection.exchange, bind_apply, Handshake.run, zoom, pure_apply]

end Client

end Pop
