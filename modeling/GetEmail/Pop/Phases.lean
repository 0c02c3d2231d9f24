-- SUMMARY: A session goes through its phases forward, and holds a connection exactly until it has ended.
import GetEmail.Pop.Exits
import GetEmail.Pop.Operations

/-!
# Phases of a session

A client authenticates, is in a transaction, and has ended. The field `state` is set
by the three operations that log in and by `quit`; all others leave it alone.
-/

namespace Pop

open Exec
open Nom (Bytes ascii)
open PopStream (exchange_exits encode_exits readResponse_exits sendBytes_sends)

/-- The states of a client that is connected. -/
def ClientState.Connected (state : ClientState) : Prop :=
  state = .authentication ∨ state = .transaction

/-- The handshake ends with no error of this kind, unless one of its calls did. -/
def Handshake.NeverRaises (kind : ErrorKind) : Handshake → Prop
  | .finish (.ok ()) => True
  | .finish (.error e) => e.kind ≠ kind
  | .send _ next => ∀ result, (∀ e, result = .error e → e.kind ≠ kind) →
    (next result).NeverRaises kind
  | .nextChallenge next => ∀ result, (∀ e, result = .error e → e.kind ≠ kind) →
    (next result).NeverRaises kind
  | .stop next => ∀ result, (∀ e, result = .error e → e.kind ≠ kind) →
    (next result).NeverRaises kind

namespace Client

variable {κ : Type}

/-- The session is in one phase, and the connection and the lists agree with it. -/
structure Phased (c : Client κ) : Prop where
  state : c.state ≠ .update
  inner : c.inner.isSome ↔ c.state.Connected
  ended : c.state = .none → c.capabilities = [] ∧ c.markedAsDel = []

/-- Still connected, in the state `state`. -/
def At (state : ClientState) (c : Client κ) : Prop := c.state = state ∧ c.inner.isSome

/-- The exit is not the one that tells of a connection that should not be there. -/
abbrev Fine (x : Exit Error) : Prop := OfKind (· ≠ .shouldNotBeConnected) x

theorem fine_of_stream {x : Exit Error} (h : OfKind ErrorKind.OfStream x) : Fine x := by
  refine h.mono fun kind hkind => ?_
  cases hkind with
  | reading h => cases h <;> nofun
  | _ => nofun

variable {honest : Prop} {state : ClientState}

/-! ## Steps that stay -/

/-- `m` leaves the phase alone. Its errors are fine if `honest` holds, which is about the
authenticators. -/
def Stays {α : Type} (honest : Prop) (state : ClientState) (m : Exec Error (Client κ) α) : Prop :=
  Triple (At state) m (fun _ => At state) fun x c => At state c ∧ (honest → Fine x)

section

variable {α β : Type}

theorem Stays.bind {m : Exec Error (Client κ) α} {f : α → Exec Error (Client κ) β}
    (hm : Stays honest state m) (hf : ∀ a, Stays honest state (f a)) :
    Stays honest state (m >>= f) := Triple.bind hm hf

theorem Stays.map {f : α → β} {m : Exec Error (Client κ) α} (hm : Stays honest state m) :
    Stays honest state (f <$> m) := Triple.map hm

theorem Stays.pure (a : α) : Stays honest state (pure a : Exec Error (Client κ) α) :=
  Triple.pure fun _ h => h

theorem Stays.fail {e : Error} (he : e.kind ≠ .shouldNotBeConnected) :
    Stays honest state (fail e : Exec Error (Client κ) α) :=
  Triple.fail fun _ h => ⟨h, fun _ => ofKind_error he⟩

theorem Stays.get : Stays honest state (get : Exec Error (Client κ) (Client κ)) :=
  Triple.get fun _ h => h

theorem Stays.modify {f : Client κ → Client κ} (h : ∀ c, At state c → At state (f c)) :
    Stays honest state (modify f : Exec Error (Client κ) PUnit) := Triple.modify h

theorem Stays.ite {c : Prop} [Decidable c] {m m' : Exec Error (Client κ) α} (hm : Stays honest state m)
    (hm' : Stays honest state m') : Stays honest state (if c then m else m') :=
  Triple.ite (fun _ => hm) fun _ => hm'

theorem Stays.attempt {m : Exec Error (Client κ) α} (hm : Stays honest state m) :
    Stays honest state (attempt m) :=
  Triple.attempt (hm.consequence (fun _ h => h) (fun _ _ h => h) fun x _ h => by
    cases x with
    | error e => exact h.1
    | pending => exact h
    | panicked => exact h)

/-- A connected client in its phase uses its connection. -/
theorem innerMut_stays (hstate : state.Connected) {op : Exec Error κ α}
    (hop : Exits op fun x _ => honest → Fine x) : Stays honest state (innerMut op) := by
  rintro c ⟨hc, hinner⟩
  obtain ⟨socket, hsocket⟩ := Option.isSome_iff_exists.mp hinner
  rw [innerMut_apply, hsocket]
  simp only [hc, if_pos hstate.symm, zoom]
  cases h : op socket with
  | ok a socket' => exact ⟨rfl, rfl⟩
  | error x socket' => exact ⟨⟨rfl, rfl⟩, hop.exit trivial h⟩

end

theorem expect_stays {α : Type} {kind : Response → Option α} {expected : String}
    {response : Response} :
    Stays honest state (expect kind expected response : Exec Error (Client κ) α) := by
  unfold expect
  split
  · exact .pure _
  · exact .fail nofun

theorem isDeleted_stays (msgNumber : Nat) :
    Stays honest state (isDeleted msgNumber : Exec Error (Client κ) _) :=
  .bind (.modify fun _ h => h) fun _ => .bind .get fun _ => .pure _

theorem checkDeleted_stays (msgNumber : Nat) :
    Stays honest state (checkDeleted msgNumber : Exec Error (Client κ) _) :=
  .bind (isDeleted_stays msgNumber) fun _ => .ite (.fail nofun) (.pure _)

theorem checkCapability_stays (capabilities : List Capability) :
    Stays honest state (checkCapability capabilities : Exec Error (Client κ) _) :=
  .bind .get fun _ => .ite (.fail nofun) (.pure _)

theorem hasReadGreeting_stays : Stays honest state (hasReadGreeting : Exec Error (Client κ) _) :=
  .bind .get fun _ => .ite (.fail nofun) (.pure _)

/-! ## Operations that stay -/

variable [Host]

theorem sendRequest_stays (hstate : state.Connected) (request : Request) :
    Stays honest state (sendRequest request : Exec Error (Client PopStream) _) :=
  innerMut_stays hstate ((exchange_exits request).mono fun _ _ h _ => fine_of_stream h)

theorem updateCapabilities_stays (hstate : state.Connected) :
    Stays honest state (updateCapabilities : Exec Error (Client PopStream) _) := by
  refine .bind (.attempt (.bind (sendRequest_stays hstate _) fun _ => expect_stays)) fun result => ?_
  cases result with
  | ok capabilities => exact .modify fun _ h => h
  | error e => exact .pure _

end Client

/-- The operations that log in. -/
def ClientOp.logsIn : ClientOp → Bool
  | .apop _ _ | .auth _ | .login _ _ => true
  | _ => false

variable [Host]

open Client

theorem ClientOp.run_stays {honest : Prop} {state : ClientState} (hstate : state.Connected)
    {op : ClientOp} (hlogin : op.logsIn = false) (hquit : op ≠ .quit) :
    Stays honest state (op.run : Exec Error (Client PopStream) _) := by
  have hsend (request : Request) :
      Stays honest state (Client.sendRequest request : Exec Error (Client PopStream) _) :=
    sendRequest_stays hstate request
  cases op with
  | noop => exact .map (.bind (hsend _) fun _ => .pure _)
  | uidl msgNumber =>
    refine .map (.bind (checkCapability_stays _) fun _ => ?_)
    cases msgNumber with
    | none => exact .bind (hsend _) fun _ => expect_stays
    | some number =>
      exact .bind (checkDeleted_stays number) fun _ => .bind (hsend _) fun _ => expect_stays
  | top msgNumber lines =>
    exact .map (.bind (checkDeleted_stays _) fun _ => .bind (checkCapability_stays _) fun _ =>
      .bind (hsend _) fun _ => expect_stays)
  | isDeleted msgNumber => exact .map (isDeleted_stays _)
  | dele msgNumber =>
    exact .map (.bind (checkDeleted_stays _) fun _ => .bind (hsend _) fun _ => expect_stays)
  | rset => exact .map (.bind (hsend _) fun _ => .bind (.modify fun _ h => h) fun _ => expect_stays)
  | retr msgNumber =>
    exact .map (.bind (checkDeleted_stays _) fun _ => .bind (hsend _) fun _ => expect_stays)
  | list msgNumber =>
    refine .map ?_
    cases msgNumber with
    | none => exact .bind (hsend _) fun _ => expect_stays
    | some number =>
      exact .bind (checkDeleted_stays number) fun _ => .bind (hsend _) fun _ => expect_stays
  | stat => exact .map (.bind (hsend _) fun _ => expect_stays)
  | capa => exact .map (.bind (hsend _) fun _ => expect_stays)
  | sendRequest request => exact .map (hsend request)
  | apop name digest => cases hlogin
  | auth authenticator => cases hlogin
  | login user password => cases hlogin
  | quit => exact absurd rfl hquit

/-! ## Operations that log in -/

/-- A handshake raises what it is given, or an error of its own. -/
theorem Handshake.run_exits (handshake : Handshake)
    (hraises : handshake.NeverRaises .shouldNotBeConnected) :
    Exits (handshake.run : Exec Error (Communicator PopStream) Unit) fun x _ => Fine x := by
  have hstream {α : Type} {m : Exec Error PopStream α}
      (hm : Exits m fun x _ => OfKind ErrorKind.OfStream x) :
      Exits (Communicator.onStream m) fun x _ => Fine x :=
    .zoom fun _ => hm.mono fun _ _ => fine_of_stream
  have hcaught {α : Type} {m : Exec Error (Communicator PopStream) α}
      {next : Except Error α → Handshake} (hm : Exits m fun x _ => Fine x)
      (hnext : ∀ result, (∀ e, result = .error e → e.kind ≠ .shouldNotBeConnected) →
        Exits ((next result).run : Exec Error (Communicator PopStream) Unit) fun x _ => Fine x) :
      Exits (do (next (← attempt m)).run : Exec Error (Communicator PopStream) Unit)
        fun x _ => Fine x :=
    Triple.bind hm.attempt fun result => .of_pre fun c hresult =>
      (hnext result fun e he => hresult e he e rfl).consequence (fun _ _ => trivial)
        (fun _ _ h => h) fun _ _ h => h
  induction handshake with
  | finish result =>
    cases result with
    | ok u => exact .pure ()
    | error e => exact .fail fun _ => ofKind_error hraises
  | send secret next ih =>
    refine hcaught (.bind (hstream (encode_exits _)) fun _ => .modify) fun result hresult =>
      ih result (hraises result hresult)
  | nextChallenge next ih =>
    refine hcaught (.bind ?_ fun command => .bind (hstream (readResponse_exits command))
      fun response => ?_) fun result hresult => ih result (hraises result hresult)
    · refine .bind .get fun c => ?_
      cases c.requests with
      | nil => exact .pure _
      | cons request requests => exact .bind .modify fun _ => .pure _
    · cases response with
      | challenge challenge => exact .pure _
      | _ => exact .fail fun _ => ofKind_error nofun
  | stop next ih =>
    have hline : Exits (Connection.sendBytes (ascii "*") : Exec Error PopStream Unit)
        fun x _ => OfKind ErrorKind.OfStream x :=
      .bind (sendBytes_sends _).exits fun _ => .modify
    exact hcaught (hstream hline) fun result hresult => ih result (hraises result hresult)

theorem Client.dialog_exits (authenticator : Authenticator)
    (hraises : authenticator.handle.NeverRaises .shouldNotBeConnected) :
    Exits (dialog authenticator : Exec Error PopStream Response) fun x _ => Fine x :=
  .bind ((encode_exits _).mono fun _ _ => fine_of_stream) fun _ =>
    .bind (.zoom fun _ => Handshake.run_exits _ hraises) fun _ =>
      (readResponse_exits _).mono fun _ _ => fine_of_stream

namespace Client

/-- After a call that logs in. -/
def Enters {α : Type} (honest : Prop) (state : ClientState)
    (m : Exec Error (Client PopStream) α) : Prop :=
  Triple (At state) m (fun _ c => state = .authentication ∧ At .transaction c)
    fun x c => (At state c ∨ state = .authentication ∧ At .transaction c) ∧ (honest → Fine x)

variable {honest : Prop} {state : ClientState}

omit [Host] in
theorem checkClientState_at (expected : ClientState) :
    Triple (At state) (checkClientState expected : Exec Error (Client PopStream) Unit)
      (fun _ c => At state c ∧ state = expected) fun x c => At state c ∧ (honest → Fine x) := by
  intro c hc
  simp only [checkClientState, bind_apply, get_apply, if_apply, fail_apply, pure_apply]
  by_cases hstate : c.state = expected
  · rw [if_neg (not_not_intro hstate)]
    exact ⟨hc, hc.1.symm.trans hstate⟩
  · rw [if_pos hstate]
    exact ⟨hc, fun _ => ofKind_error nofun⟩

omit [Host] in
theorem Stays.enters {α β : Type} {m : Exec Error (Client PopStream) α}
    {f : α → Exec Error (Client PopStream) β} (hm : Stays honest state m)
    (hf : ∀ a, Enters honest state (f a)) : Enters honest state (m >>= f) :=
  Triple.bind (hm.consequence (fun _ h => h) (fun _ _ h => h) fun _ _ h => ⟨.inl h.1, h.2⟩) hf

omit [Host] in
/-- The end of a call that logs in. -/
theorem setState_enters {α : Type} {m : Exec Error (Client PopStream) α}
    (hstate : state = .authentication) (hm : Stays honest .transaction m) :
    Enters honest state (do setState .transaction; m) :=
  .bind (R := fun _ => At .transaction) (.modify fun _ h => ⟨rfl, h.2⟩) fun _ =>
    hm.consequence (fun _ h => h) (fun _ _ h => ⟨hstate, h⟩) fun _ _ h => ⟨.inr ⟨hstate, h.1⟩, h.2⟩

omit [Host] in
theorem checkClientState_enters {α : Type} {f : Unit → Exec Error (Client PopStream) α}
    (hf : state = .authentication → Enters honest state (f ())) :
    Enters honest state (checkClientState .authentication >>= f) :=
  Triple.bind ((checkClientState_at _).consequence (fun _ h => h) (fun _ _ h => h)
    fun _ _ h => ⟨.inl h.1, h.2⟩) fun _ => .assume hf

theorem apop_enters (name digest : Bytes) : Enters honest state (apop name digest) :=
  checkClientState_enters fun hstate => hasReadGreeting_stays.enters fun _ =>
    (sendRequest_stays (.inl hstate) _).enters fun _ =>
      (updateCapabilities_stays (.inl hstate)).enters fun _ => setState_enters hstate expect_stays

/-- An attempt to authenticate that fails has not set the state. -/
theorem auth_at {authenticator : Authenticator}
    (hraises : honest → authenticator.handle.NeverRaises .shouldNotBeConnected) :
    Triple (At state) (auth authenticator : Exec Error (Client PopStream) _)
      (fun _ c => state = .authentication ∧ At .transaction c)
      fun x c => At state c ∧ (honest → Fine x) := by
  have hdialog : Exits (dialog authenticator : Exec Error PopStream Response)
      fun x _ => honest → Fine x := by
    by_cases h : honest
    · exact (dialog_exits authenticator (hraises h)).mono fun _ _ hx _ => hx
    · intro s _
      split
      · trivial
      · exact fun h' => absurd h' h
  refine .bind (checkClientState_at _) fun _ => .assume fun hstate => ?_
  refine .bind hasReadGreeting_stays fun _ => .bind (innerMut_stays (.inl hstate) hdialog) fun _ =>
    .bind expect_stays fun _ => .bind (updateCapabilities_stays (.inl hstate)) fun _ => ?_
  exact .bind (R := fun _ => At .transaction) (.modify fun _ h => ⟨rfl, h.2⟩) fun _ =>
    .pure fun _ h => ⟨hstate, h⟩

theorem loginUserPass_enters (user password : Bytes) (hstate : state = .authentication) :
    Enters honest state (loginUserPass user password) :=
  hasReadGreeting_stays.enters fun _ => (sendRequest_stays (.inl hstate) _).enters fun _ =>
    (sendRequest_stays (.inl hstate) _).enters fun _ =>
      (updateCapabilities_stays (.inl hstate)).enters fun _ => setState_enters hstate
        (.bind expect_stays fun _ => .bind expect_stays fun _ => .pure _)

theorem login_enters (user password : Bytes) : Enters honest state (login user password) := by
  refine checkClientState_enters fun hstate => Stays.get.enters fun client => .ite (fun _ => ?_)
    fun _ => loginUserPass_enters user password hstate
  have hauth : Triple (At state)
      (attempt (auth (.plain user password) : Exec Error (Client PopStream) _))
      (Attempted (fun _ => At .transaction) (At state))
      fun x c => (At state c ∨ state = .authentication ∧ At .transaction c) ∧ (honest → Fine x) := by
    have hraises : honest → (Authenticator.plain user password).handle.NeverRaises
        .shouldNotBeConnected := fun _ => trivial
    refine .attempt ((auth_at hraises).consequence (fun _ h => h) (fun _ _ h => h.2) ?_)
    intro x c h
    cases x with
    | error e => exact h.1
    | pending => exact ⟨.inl h.1, h.2⟩
    | panicked => exact ⟨.inl h.1, h.2⟩
  refine .bind hauth fun result => ?_
  cases result with
  | ok text => exact .pure fun _ h => ⟨hstate, h⟩
  | error e => exact loginUserPass_enters user password hstate

/-! ## The end of a session -/

/-- What `quit` leaves when it got a response. -/
def afterQuit (c : Client PopStream) : Client PopStream :=
  { c with inner := none, capabilities := [], markedAsDel := [], greeted := false, state := .none }

theorem quit_of_ok {c c' : Client PopStream} {response : Response}
    (h : sendRequest (.ofCommand .quit) c = .ok response c') :
    quit c = expect Response.message? "quit response" response (afterQuit c') := by
  simp only [quit, bind_apply, h, setState, modify_apply]
  rfl

theorem quit_of_error {c c' : Client PopStream} {x : Exit Error}
    (h : sendRequest (.ofCommand .quit) c = .error x c') : quit c = .error x c' := by
  simp only [quit, bind_apply, h]

omit [Host] in
theorem expect_exits {α : Type} (kind : Response → Option α) (expected : String)
    (response : Response) (c : Client PopStream) :
    stateOf (expect kind expected response c) = c ∧
      ∀ x, exit? (expect kind expected response c) = some x → Fine x := by
  unfold expect
  cases kind response with
  | some a => exact ⟨rfl, nofun⟩
  | none =>
    refine ⟨rfl, ?_⟩
    rintro _ ⟨⟩
    exact ofKind_error nofun

end Client

/-- The session has ended. -/
structure Client.Ended (c : Client PopStream) : Prop where
  state : c.state = .none
  inner : c.inner = none
  capabilities : c.capabilities = []
  markedAsDel : c.markedAsDel = []

omit [Host] in
theorem Client.Phased.of_none {c : Client PopStream} (hc : c.Phased) (hstate : c.state = .none) :
    c.Ended := by
  refine ⟨hstate, ?_, (hc.ended hstate).1, (hc.ended hstate).2⟩
  have hinner := hc.inner
  rw [hstate] at hinner
  simpa [ClientState.Connected] using hinner

omit [Host] in
theorem Client.Ended.supply {c : Client PopStream} (hc : c.Ended) (reads : List ReadEvent)
    (writes : List WriteEvent) : c.supply reads writes = c := by
  obtain ⟨inner, capabilities, markedAsDel, greeting, greeted, state⟩ := c
  obtain rfl := hc.inner
  rfl

/-- On a client whose session has ended nothing happens. -/
theorem ClientOp.run_ended {c : Client PopStream} (hc : c.Ended) (op : ClientOp) :
    (∃ n, op = .isDeleted n ∧ op.run c = .ok (.flag false) c) ∨
      ∃ e : Error, e.kind ≠ .shouldNotBeConnected ∧ op.run c = .error (.error e) c := by
  obtain ⟨inner, capabilities, markedAsDel, greeting, greeted, state⟩ := c
  obtain ⟨rfl, rfl, rfl, rfl⟩ := hc
  generalize hc : (⟨none, [], [], greeting, greeted, .none⟩ : Client PopStream) = c
  have hsend (request : Request) :
      Client.sendRequest request c = .error (.error notConnected) c := by
    subst hc
    exact innerMut_apply _ _
  have hcapability (capability : Capability) :
      checkCapability [capability] c = .error (.error featureUnsupported) c := by
    subst hc
    rfl
  have hdeleted (n : Nat) : checkDeleted n c = .ok () c := by
    subst hc
    rfl
  have hstate : ∃ e : Error, e.kind ≠ .shouldNotBeConnected ∧
      checkClientState .authentication c = .error (.error e) c := by
    subst hc
    exact ⟨_, (by decide), rfl⟩
  cases op with
  | isDeleted n =>
    subst hc
    exact .inl ⟨n, rfl, rfl⟩
  | uidl msgNumber =>
    exact .inr ⟨featureUnsupported, by decide, by simp [ClientOp.run, Client.uidl, hcapability]⟩
  | top msgNumber lines =>
    exact .inr ⟨featureUnsupported, by decide,
      by simp [ClientOp.run, Client.top, hdeleted, hcapability]⟩
  | apop name digest =>
    obtain ⟨e, he, hcheck⟩ := hstate
    exact .inr ⟨e, he, by simp [ClientOp.run, Client.apop, hcheck]⟩
  | auth authenticator =>
    obtain ⟨e, he, hcheck⟩ := hstate
    exact .inr ⟨e, he, by simp [ClientOp.run, Client.auth, hcheck]⟩
  | login user password =>
    obtain ⟨e, he, hcheck⟩ := hstate
    exact .inr ⟨e, he, by simp [ClientOp.run, Client.login, hcheck]⟩
  | noop => exact .inr ⟨notConnected, by decide, by simp [ClientOp.run, Client.noop, hsend]⟩
  | dele msgNumber =>
    exact .inr ⟨notConnected, by decide, by simp [ClientOp.run, Client.dele, hdeleted, hsend]⟩
  | rset => exact .inr ⟨notConnected, by decide, by simp [ClientOp.run, Client.rset, hsend]⟩
  | retr msgNumber =>
    exact .inr ⟨notConnected, by decide, by simp [ClientOp.run, Client.retr, hdeleted, hsend]⟩
  | list msgNumber =>
    cases msgNumber with
    | none => exact .inr ⟨notConnected, by decide, by simp [ClientOp.run, Client.list, hsend]⟩
    | some number =>
      exact .inr ⟨notConnected, by decide, by simp [ClientOp.run, Client.list, hdeleted, hsend]⟩
  | stat => exact .inr ⟨notConnected, by decide, by simp [ClientOp.run, Client.stat, hsend]⟩
  | quit => exact .inr ⟨notConnected, by decide, by simp [ClientOp.run, Client.quit, hsend]⟩
  | capa => exact .inr ⟨notConnected, by decide, by simp [ClientOp.run, Client.capa, hsend]⟩
  | sendRequest request => exact .inr ⟨notConnected, by decide, by simp [ClientOp.run, hsend]⟩

/-! ## Runs -/

/-- A call moves the session. -/
inductive Moves (op : ClientOp) (c c' : Client PopStream) : Prop where
  | stay (hstate : c'.state = c.state)
  | logIn (hop : op.logsIn = true) (hstate : c.state = .authentication)
      (hstate' : c'.state = .transaction)
  | quit (hop : op = .quit) (hstate : c.state.Connected) (hstate' : c'.state = .none)
      (hresponse : value? (Client.sendRequest (.ofCommand .quit) c) ≠ none)

theorem ClientOp.run_enters {honest : Prop} {state : ClientState} {op : ClientOp}
    (hlogin : op.logsIn = true) (hraises : honest → ∀ authenticator ∈ op.authenticator?,
      authenticator.handle.NeverRaises .shouldNotBeConnected) :
    Enters honest state (op.run : Exec Error (Client PopStream) _) := by
  cases op with
  | apop name digest => exact .map (apop_enters name digest)
  | auth authenticator =>
    have hauth : Enters honest state (Client.auth authenticator) :=
      (auth_at fun h => hraises h authenticator rfl).consequence (fun _ h => h) (fun _ _ h => h)
        fun _ _ h => ⟨.inl h.1, h.2⟩
    exact .map hauth
  | login user password => exact .map (login_enters user password)
  | _ => cases hlogin

omit [Host] in
theorem Client.At.phased {state : ClientState} {c : Client PopStream} (h : At state c)
    (hstate : state.Connected) : c.Phased := by
  obtain ⟨rfl, hinner⟩ := h
  refine ⟨fun hupdate => ?_, ⟨fun _ => hstate, fun _ => hinner⟩, fun hnone => ?_⟩
  · rw [hupdate] at hstate
    rcases hstate with hstate | hstate <;> cases hstate
  · rw [hnone] at hstate
    rcases hstate with hstate | hstate <;> cases hstate

omit [Host] in
theorem Client.Phased.cases {c : Client PopStream} (hc : c.Phased) :
    c.state.Connected ∧ At c.state c ∨ c.Ended := by
  by_cases hstate : c.state.Connected
  · exact .inl ⟨hstate, rfl, hc.inner.mpr hstate⟩
  · refine .inr (hc.of_none ?_)
    cases h : c.state with
    | authentication => exact absurd (.inl h) hstate
    | transaction => exact absurd (.inr h) hstate
    | update => exact absurd h hc.state
    | none => rfl

/-- What there is to say of a call that was made on `c` and ended with `r`. -/
structure Moved (op : ClientOp) (c : Client PopStream)
    (r : EStateM.Result (Exit Error) (Client PopStream) Value) : Prop where
  phased : (stateOf r).Phased
  moves : Moves op c (stateOf r)
  fine : (∀ authenticator ∈ op.authenticator?,
    authenticator.handle.NeverRaises .shouldNotBeConnected) → ∀ x, exit? r = some x → Fine x

theorem ClientOp.run_moved_of_stays {state : ClientState} (hstate : state.Connected) {op : ClientOp}
    (hlogin : op.logsIn = false) (hquit : op ≠ .quit) :
    Triple (At state) op.run (fun v c => ∀ c₀, c₀.state = state → Moved op c₀ (.ok v c))
      fun x c => ∀ c₀, c₀.state = state → Moved op c₀ (.error x c) := by
  have hstays : Stays True state (op.run : Exec Error (Client PopStream) _) :=
    op.run_stays hstate hlogin hquit
  refine hstays.consequence (fun _ h => h) ?_ ?_
  · rintro v c h c₀ rfl
    exact ⟨h.phased hstate, .stay h.1, fun _ => nofun⟩
  · rintro x c ⟨h, hx⟩ c₀ rfl
    refine ⟨h.phased hstate, .stay h.1, fun _ => ?_⟩
    rintro _ ⟨⟩
    exact hx trivial

theorem ClientOp.run_moved_of_logsIn {state : ClientState} (hstate : state.Connected)
    {op : ClientOp} (hlogin : op.logsIn = true) :
    Triple (At state) op.run (fun v c => ∀ c₀, c₀.state = state → Moved op c₀ (.ok v c))
      fun x c => ∀ c₀, c₀.state = state → Moved op c₀ (.error x c) := by
  refine (op.run_enters hlogin id).consequence (fun _ h => h) ?_ ?_
  · rintro v c ⟨hauth, h⟩ c₀ rfl
    exact ⟨h.phased (.inr rfl), .logIn hlogin hauth h.1, fun _ => nofun⟩
  · rintro x c ⟨h, hx⟩ c₀ rfl
    have hfine : ∀ y, exit? (.error x c : EStateM.Result (Exit Error) (Client PopStream) Value) =
        some y → y = x := by
      rintro _ ⟨⟩
      rfl
    rcases h with h | ⟨hauth, h⟩
    · exact ⟨h.phased hstate, .stay h.1, fun hop y hy => hfine y hy ▸ hx hop⟩
    · exact ⟨h.phased (.inr rfl), .logIn hlogin hauth h.1, fun hop y hy => hfine y hy ▸ hx hop⟩

theorem ClientOp.run_moved_quit {c : Client PopStream} (hstate : c.state.Connected)
    (hc : At c.state c) : Moved .quit c (ClientOp.run .quit c) := by
  have hsend : Triple (At c.state) (Client.sendRequest (.ofCommand .quit))
      (fun _ => At c.state) fun x c' => At c.state c' ∧ (True → Fine x) :=
    sendRequest_stays hstate _
  have h := hsend c hc
  have hrun : ClientOp.run .quit = Value.text <$> (Client.quit : Exec Error (Client PopStream) _) := rfl
  cases hresponse : Client.sendRequest (.ofCommand .quit) c with
  | ok response c' =>
    obtain ⟨hafter, hexits⟩ :=
      expect_exits Response.message? "quit response" response (afterQuit c')
    have hstateOf : stateOf (ClientOp.run .quit c) = afterQuit c' := by
      rw [hrun, stateOf_map, quit_of_ok hresponse, hafter]
    refine ⟨?_, .quit rfl hstate ?_ (by simp [hresponse, value?]), fun _ x hx => ?_⟩
    · rw [hstateOf]
      exact ⟨nofun, ⟨nofun, nofun⟩, fun _ => ⟨rfl, rfl⟩⟩
    · rw [hstateOf]
      rfl
    · rw [hrun, exit?_map, quit_of_ok hresponse] at hx
      exact hexits x hx
  | error x c' =>
    rw [hresponse] at h
    have hstateOf : stateOf (ClientOp.run .quit c) = c' := by
      rw [hrun, stateOf_map, quit_of_error hresponse]
      rfl
    refine ⟨hstateOf ▸ h.1.phased hstate, .stay (hstateOf ▸ h.1.1), fun _ y hy => ?_⟩
    rw [hrun, exit?_map, quit_of_error hresponse] at hy
    cases hy
    exact h.2 trivial

/-- One call, in whatever phase. -/
theorem ClientOp.run_moved {c : Client PopStream} (hc : c.Phased) (op : ClientOp) :
    Moved op c (op.run c) := by
  rcases hc.cases with ⟨hstate, hat⟩ | hended
  · by_cases hquit : op = .quit
    · exact hquit ▸ run_moved_quit hstate hat
    · have h : Triple (At c.state) op.run (fun v c' => ∀ c₀, c₀.state = c.state →
          Moved op c₀ (.ok v c')) fun x c' => ∀ c₀, c₀.state = c.state → Moved op c₀ (.error x c') := by
        cases hlogin : op.logsIn with
        | true => exact run_moved_of_logsIn hstate hlogin
        | false => exact run_moved_of_stays hstate hlogin hquit
      have h := h c hat
      cases hrun : op.run c <;> rw [hrun] at h <;> exact h c rfl
  · rcases op.run_ended hended with ⟨n, rfl, hrun⟩ | ⟨e, he, hrun⟩
    · rw [hrun]
      exact ⟨hc, .stay rfl, fun _ => nofun⟩
    · rw [hrun]
      refine ⟨hc, .stay rfl, fun _ => ?_⟩
      rintro _ ⟨⟩
      exact ofKind_error he

omit [Host] in
theorem Client.Phased.supply {c : Client PopStream} (hc : c.Phased) (reads : List ReadEvent)
    (writes : List WriteEvent) : (c.supply reads writes).Phased :=
  ⟨hc.state, by simpa [Client.supply] using hc.inner, hc.ended⟩

theorem createClient_stays :
    Stays True .authentication (createClient : Exec Error (Client PopStream) Unit) := by
  have hcrash {α : Type} :
      Stays True .authentication (crash : Exec Error (Client PopStream) α) :=
    Triple.crash fun _ h => ⟨h, fun _ => nofun⟩
  have hread : Exits (Connection.readResponse .greet : Exec Error PopStream Response)
      fun x _ => True → Fine x := (readResponse_exits _).mono fun _ _ h _ => fine_of_stream h
  refine .bind (.bind .get fun _ => .ite hcrash ?_) fun _ => .bind (.modify fun _ h => h) fun _ =>
    updateCapabilities_stays (.inl rfl)
  exact .bind (innerMut_stays (.inl rfl) hread) fun _ => .bind expect_stays fun _ =>
    .bind (.modify fun _ h => h) fun _ => .pure _

theorem Calls.phased {c c' : Client PopStream} {log : Log} (h : Calls c log c') (hc : c.Phased) :
    c'.Phased := by
  induction h with
  | nil => exact hc
  | call _ op reads writes ih => exact (ClientOp.run_moved (ih.supply reads writes) op).phased

/-- No call is made on a session that has ended. -/
theorem Calls.ended {c c' : Client PopStream} {log : Log} (h : Calls c log c') (hc : c.Ended) :
    c' = c ∧ ∀ entry ∈ log, (∀ n, entry.1 ≠ .isDeleted n) → ∃ e, entry.2 = .error (.error e) := by
  induction h with
  | nil => exact ⟨rfl, nofun⟩
  | @call log client _ op reads writes ih =>
    obtain ⟨rfl, hlog⟩ := ih
    rw [hc.supply]
    have hentry (hne : ∀ n, op ≠ .isDeleted n) : ∃ e, outcome (op.run client) = .error (.error e) := by
      rcases op.run_ended hc with ⟨n, hop, -⟩ | ⟨e, -, hrun⟩
      · exact absurd hop (hne n)
      · exact ⟨e, by rw [hrun]; rfl⟩
    refine ⟨?_, fun entry hmem hne => ?_⟩
    · rcases op.run_ended hc with ⟨n, -, hrun⟩ | ⟨e, -, hrun⟩ <;> rw [hrun] <;> rfl
    · rcases List.mem_append.mp hmem with hmem | hmem
      · exact hlog entry hmem hne
      · obtain rfl := List.mem_singleton.mp hmem
        exact hentry hne

theorem Run.phased {stream : Transport} {log : Log} {c : Client PopStream}
    (h : Run stream log c) : c.Phased := by
  obtain ⟨c₀, hnew, hcalls⟩ := h
  have hat : At .authentication c₀ := createClient_stays.ok ⟨rfl, rfl⟩ hnew
  exact hcalls.phased (hat.phased (.inl rfl))

/-- In every state of a run the session is in one phase, each call moves it forward or
not at all, and when it has ended nothing happens to it any more. -/
theorem phases_forward {stream : Transport} {log : Log} {c : Client PopStream}
    (h : Run stream log c) :
    c.Phased ∧
      (∀ op reads writes, Moved op (c.supply reads writes) (op.run (c.supply reads writes))) ∧
      (c.state = .none → ∀ log' c', Calls c log' c' → c' = c ∧
        ∀ entry ∈ log', (∀ n, entry.1 ≠ .isDeleted n) → ∃ e, entry.2 = .error (.error e)) :=
  ⟨h.phased, fun op reads writes => op.run_moved (h.phased.supply reads writes),
    fun hstate _ _ hcalls => hcalls.ended (h.phased.of_none hstate)⟩

omit [Host] in
theorem phases_forward_quit :
    ∃ (stream : Transport) (log : Log) (c : Client PopStream), @Run (.bare false) stream log c ∧
      c.state = .none ∧ c.Phased ∧ ∀ log' c', @Calls (.bare false) c log' c' → c' = c ∧
        ∀ entry ∈ log', (∀ n, entry.1 ≠ .isDeleted n) → ∃ e, entry.2 = .error (.error e) := by
  let host : Host := .bare false
  obtain ⟨c₀, hnew, hstate⟩ : ∃ c, newClient (answering [ascii "+OK\r\n", ascii "-ERR\r\n"]) =
      .ok () c ∧ (stateOf (ClientOp.quit.run (c.supply (answering [ascii "+OK\r\n"]).reads
        (answering [ascii "+OK\r\n"]).writes))).state = .none :=
    ⟨_, eq_ok_of_value? (by decide +kernel), by decide +kernel⟩
  have hrun : Run _ _ _ := ⟨c₀, hnew, .answered .nil .quit [ascii "+OK\r\n"]⟩
  obtain ⟨hphased, -, hended⟩ := phases_forward hrun
  exact ⟨_, _, _, hrun, hstate, hphased, hended hstate⟩

end Pop
