-- SUMMARY: When a SASL exchange is finished before anything else is sent.
import GetEmail.Pop.Pairing
import GetEmail.Pop.Phases
import GetEmail.Pop.Restrictions
import GetEmail.Pop.Upcoming

/-!
# Open exchanges

After a challenge the server takes the next line as the client's answer. A connection
that panics at any other line tells the calls that respect this: they do the same over
it. `login` does not, since it goes on with `USER` after any error of `auth`.
-/

namespace Pop

open Exec
open Nom (Bytes ascii)

/-! ## The law -/

/-- The last answer was a challenge. -/
def exchangeOpen (history : List Event) : Bool :=
  match (answersOf history).getLast? with
  | some (_, .challenge _) => true
  | _ => false

theorem exchangeOpen_append (history : List Event) {rest : List Event} (h : answersOf rest = []) :
    exchangeOpen (history ++ rest) = exchangeOpen history := by
  simp [exchangeOpen, h]

theorem exchangeOpen_answered (history : List Event) (command : Command) (response : Response) :
    exchangeOpen (history ++ [.answered command response]) = false ↔
      ∀ text, response ≠ .challenge text := by
  have hanswers : answersOf [.answered command response] = [(command, response)] := rfl
  simp only [exchangeOpen, answersOf_append, hanswers, List.getLast?_concat]
  cases response <;> simp

variable [Host]

/-- The line is a client answer, or cancels the exchange. -/
def continues (command : Command) (line : Bytes) : Bool :=
  line = ascii "*" || match command with
    | .base64 secret => line = Host.base64Encode secret
    | _ => false

/-- While an exchange was open, only lines that continue it were written. -/
def Uninterrupted (history : List Event) : Prop :=
  ∀ before command line, before ++ [.line command line] <+: history →
    exchangeOpen before = true → continues command line = true

theorem uninterrupted_nil : Uninterrupted [] := by
  intro before command line h
  simp at h

theorem Uninterrupted.concat {history : List Event} (h : Uninterrupted history) {event : Event}
    (hevent : ∀ command line, event = .line command line → exchangeOpen history = true →
      continues command line = true) : Uninterrupted (history ++ [event]) := by
  intro before command line hpre hopen
  rcases List.prefix_concat_iff.mp hpre with heq | hpre
  · obtain ⟨rfl, hsame⟩ := List.append_inj' heq rfl
    exact hevent command line (List.singleton_inj.mp hsame).symm hopen
  · exact h before command line hpre hopen

theorem Uninterrupted.append {history rest : List Event} (h : Uninterrupted history)
    (hrest : linesOf rest = []) : Uninterrupted (history ++ rest) := by
  induction rest generalizing history with
  | nil => rwa [List.append_nil]
  | cons event rest ih =>
    rw [← List.singleton_append, linesOf_append, List.append_eq_nil_iff] at hrest
    rw [← List.singleton_append, ← List.append_assoc]
    apply ih ?_ hrest.2
    apply h.concat
    rintro command line rfl
    cases hrest.1

namespace PopStream

variable {s s' : PopStream}

omit [Host] in
/-- No exchange is open. -/
def Closed (s : PopStream) : Prop := exchangeOpen s.history = false

/-! ## The guarded connection -/

/-- While an exchange is open, panics at a line that does not continue it. -/
def unlessInterrupting (command : Command) (line : Bytes) (m : Exec Error PopStream Unit) :
    Exec Error PopStream Unit := do
  if exchangeOpen (← get).history = true ∧ continues command line = false then crash else m

/-- Takes only lines that interrupt no exchange. -/
@[reducible] def continuing : Connection PopStream where
  encode request := unlessInterrupting request.command request.display (Connection.encode request)
  sendBytes buf := unlessInterrupting .auth buf (Connection.sendBytes buf)
  readResponse := Connection.readResponse

theorem unlessInterrupting_eq {command : Command} {line : Bytes}
    (h : exchangeOpen s.history = true → continues command line = true)
    (m : Exec Error PopStream Unit) : unlessInterrupting command line m s = m s := by
  have hgoes : ¬ (exchangeOpen s.history = true ∧ continues command line = false) := by
    rintro ⟨hopen, hother⟩
    simp [h hopen] at hother
  simp only [unlessInterrupting, bind_apply, get_apply, if_apply, if_neg hgoes]

theorem continuing_exchange {request : Request}
    (h : exchangeOpen s.history = true → continues request.command request.display = true) :
    @Connection.exchange _ continuing request s = Connection.exchange request s := by
  have hencode : continuing.encode request s = Connection.encode request s :=
    unlessInterrupting_eq h _
  simp only [Connection.exchange, bind_apply, hencode]
  rfl

/-- An open exchange is handled by the handshake. -/
theorem continuing_dialog (hclosed : Closed s) (authenticator : Authenticator) :
    @Client.dialog _ continuing _ authenticator s = Client.dialog authenticator s := by
  have hencode (request : Request) : continuing.encode request s = Connection.encode request s :=
    unlessInterrupting_eq (fun hopen => absurd (hclosed.symm.trans hopen) Bool.false_ne_true) _
  have hhandshake : @Handshake.run _ continuing authenticator.handle = authenticator.handle.run := by
    apply Handshake.run_congr
    · intro secret
      funext t
      refine unlessInterrupting_eq (fun _ => ?_) _
      simp [continues, Request.ofCommand, Request.display, Command.display]
    · funext t
      refine unlessInterrupting_eq (fun _ => ?_) _
      simp [continues]
    · rfl
  simp only [Client.dialog, bind_apply, hencode, hhandshake]
  rfl

/-! ## What is kept -/

theorem uninterrupted_sent (h : Uninterrupted s.history) {bytes : Bytes} (hsent : Sent s s' bytes) :
    Uninterrupted s'.history := by
  obtain ⟨pieces, hhistory, -⟩ := hsent.history
  rw [hhistory]
  exact h.append (linesOf_sent pieces)

omit [Host] in
theorem Sent.exchangeOpen_eq {bytes : Bytes} (h : Sent s s' bytes) :
    exchangeOpen s'.history = exchangeOpen s.history := by
  obtain ⟨pieces, hhistory, -⟩ := h.history
  rw [hhistory]
  exact exchangeOpen_append _ (answersOf_sent pieces)

/-- Over the guarded connection no exchange is ever interrupted. -/
theorem continuing_keep :
    @Connection.Keep _ continuing (fun _ => True) (fun s => Uninterrupted s.history) := by
  have hline {m : Exec Error PopStream Unit} {bytes : Bytes} (hm : Sends m bytes) (command : Command)
      (line : Bytes) : Keeps (fun _ => True) (fun s : PopStream => Uninterrupted s.history)
        (unlessInterrupting command line (do m; record (.line command line))) := by
    intro s hs
    by_cases hgoes : exchangeOpen s.history = true → continues command line = true
    · have hwrite : Triple (fun s : PopStream => Uninterrupted s.history ∧
            (exchangeOpen s.history = true → continues command line = true))
          (do m; record (.line command line)) (fun _ s => Uninterrupted s.history)
          fun _ s => Uninterrupted s.history := by
        refine .bind (R := fun _ s => Uninterrupted s.history ∧
          (exchangeOpen s.history = true → continues command line = true)) ?_ fun _ =>
            .modify fun t ht => ht.1.concat ?_
        · refine (hm.keeps_sent fun hsent ht => ?_).consequence (fun _ h => h) (fun _ _ h => h)
            fun _ _ h => h.1
          exact ⟨uninterrupted_sent ht.1 hsent, hsent.exchangeOpen_eq ▸ ht.2⟩
        · rintro _ _ ⟨⟩
          exact ht.2
      rw [unlessInterrupting_eq hgoes]
      have h := hwrite s ⟨hs, hgoes⟩
      split at h
      · exact h
      · exact fun _ => h
    · rw [Classical.not_imp, Bool.not_eq_true] at hgoes
      simp only [unlessInterrupting, bind_apply, get_apply, if_apply, if_pos hgoes]
      exact fun _ => hs
  refine @Connection.Keep.mk _ continuing _ _ (fun request => hline (encode_sends request) _ _)
    (fun buf => hline (sendBytes_sends buf) _ _) fun command => ?_
  refine (Triple.of_stateOf fun s hs => ?_).consequence (fun _ h => h) (fun _ _ h => h)
    fun _ _ h _ => h
  show Uninterrupted (stateOf (PopStream.readResponse command s)).history
  rcases readResponse_history command s with ⟨response, ⟨pieces, c, hhistory⟩, -⟩ | ⟨pieces, hhistory⟩
  · rw [hhistory]
    exact (hs.append (linesOf_received pieces)).append rfl
  · rw [hhistory]
    exact hs.append (linesOf_received pieces)

/-! ## Exchanges that read no challenge -/

omit [Host] in
theorem OnlyReceived.closed {history : List Event} (h : OnlyReceived history s)
    (hclosed : exchangeOpen history = false) : Closed s := by
  obtain ⟨pieces, hhistory⟩ := h
  rw [Closed, hhistory, exchangeOpen_append _ (answersOf_received pieces)]
  exact hclosed

omit [Host] in
theorem OneAnswer.closed {history : List Event} {response : Response} (h : OneAnswer history response s)
    (hresponse : ∀ text, response ≠ .challenge text) : Closed s := by
  obtain ⟨pieces, command, hhistory⟩ := h
  rw [Closed, hhistory]
  exact (exchangeOpen_answered _ command response).mpr hresponse

/-- No exchange is open, and none of the next `n` responses opens one. -/
def Calm (n : Nat) (s : PopStream) : Prop := Closed s ∧ Unchallenged n s

/-- Calm, with the command to be read with. -/
def CalmFor (command : Command) (n : Nat) (s : PopStream) : Prop :=
  Closed s ∧ Unchallenged n (s.awaiting command)

theorem CalmFor.calm {command : Command} {n m : Nat} (h : CalmFor command n s) (hm : m ≤ n) :
    Calm m s :=
  ⟨h.1, h.2.of_awaiting.mono hm⟩

theorem Calm.calmFor {n : Nat} (h : Calm n s) {command : Command}
    (hcommand : Parser.takesChallenge command = false) : CalmFor command n s :=
  ⟨h.1, h.2.awaiting hcommand⟩

theorem encode_calm (request : Request) (command : Command) (n : Nat) :
    Triple (CalmFor command n) (Connection.encode request) (fun _ => CalmFor command n)
      fun _ => CalmFor command n := by
  refine .bind ((encode_sends request).keeps_sent fun {s s' _} hsent hs => ?_) fun _ =>
    .modify fun s hs => ?_
  · refine ⟨hsent.exchangeOpen_eq.trans hs.1, hs.2.congr hsent.buffer hsent.decodeNeeds ?_ hsent.reads⟩
    rw [awaiting, awaiting, hsent.queue]
  · exact ⟨(exchangeOpen_append _ rfl).trans hs.1, hs.2.congr rfl rfl rfl rfl⟩

theorem readResponse_calm (command : Command) (n : Nat) :
    Triple (CalmFor command (n + 1)) (readResponse command) (fun _ => Calm n)
      fun x s => x.IsError → Calm n s := by
  intro s ⟨hclosed, hs⟩
  have hnext := next_unchallenged hs
  have hhistory := next_history s.history (s.awaiting command) ⟨[], by simp [awaiting]⟩
  rw [readResponse_eq]
  cases h : next (s.awaiting command) with
  | ok response s' =>
    rw [h] at hnext hhistory
    have hcalm : Calm n s' := ⟨hhistory.closed hnext.1, hnext.2⟩
    cases hdeliver : deliver response with
    | ok r => simpa only [finished, hdeliver] using hcalm
    | error e => simpa only [finished, hdeliver] using fun _ => hcalm
  | error x s' =>
    rw [h] at hnext hhistory
    exact fun hx => ⟨hhistory.closed hclosed, hnext hx⟩

theorem exchange_calm (request : Request) (n : Nat) :
    Agree (CalmFor request.command (n + 1)) (Connection.exchange request)
      (continuing.exchange request) (fun _ => Calm n) fun x s => x.IsError → Calm n s := by
  refine ⟨.bind ((encode_calm request request.command (n + 1)).consequence (fun _ h => h)
    (fun _ _ h => h) fun _ _ h _ => h.calm (Nat.le_succ n)) fun _ => readResponse_calm _ n, ?_⟩
  intro s hs
  exact continuing_exchange fun hopen => absurd (hs.1.symm.trans hopen) Bool.false_ne_true

/-- Only a challenge opens an exchange. -/
theorem readResponse_closes (command : Command) :
    Triple (fun _ => True) (readResponse command)
      (fun response s => (∀ text, response ≠ .challenge text) → Closed s) fun _ _ => True := by
  intro s _
  have hhistory := next_history s.history (s.awaiting command) ⟨[], by simp [awaiting]⟩
  rw [readResponse_eq]
  cases h : next (s.awaiting command) with
  | ok response s' =>
    rw [h] at hhistory
    cases response with
    | err text => trivial
    | _ => exact hhistory.closed
  | error x s' => trivial

theorem dialog_closes (authenticator : Authenticator) :
    Agree Closed (Client.dialog authenticator) (@Client.dialog _ continuing _ authenticator)
      (fun response s => (∀ text, response ≠ .challenge text) → Closed s) fun _ _ => True := by
  refine ⟨.bind (R := fun _ _ => True) .trivial fun _ => .bind (R := fun _ _ => True) .trivial
    fun _ => readResponse_closes _, ?_⟩
  exact fun s hs => continuing_dialog hs authenticator

end PopStream

/-! ## The operations -/

namespace Client

open PopStream

theorem sendRequest_calm {request : Request} (hrequest : Parser.takesChallenge request.command = false)
    (n : Nat) : Agree (Keeping (Calm (n + 1))) (sendRequest request)
      (@sendRequest _ continuing request) (fun _ => Keeping (Calm n)) fun _ _ => True := by
  have hexchange : Agree (Calm (n + 1)) (Connection.exchange request) (continuing.exchange request)
      (fun _ => Calm n) fun _ _ => True :=
    (exchange_calm request n).consequence (fun _ h => h.calmFor hrequest) (fun _ _ h => h)
      fun _ _ _ => trivial
  exact (innerMut_agree hexchange fun _ _ _ _ => trivial).consequence (fun _ h => h) (fun _ _ h => h)
    fun _ _ _ => trivial

/-- It catches all errors. -/
theorem updateCapabilities_continuing :
    Agree (Keeping Closed) updateCapabilities (@updateCapabilities _ continuing) (fun _ _ => True)
      fun x _ => ¬ x.IsError := by
  have hexchange : Agree Closed (Connection.exchange (.ofCommand .capa))
      (continuing.exchange (.ofCommand .capa)) (fun _ _ => True) fun _ _ => True :=
    ⟨.trivial, fun s hs => continuing_exchange fun hopen =>
      absurd (hs.symm.trans hopen) Bool.false_ne_true⟩
  have hcapa : Agree (Keeping Closed) capa (@capa _ continuing) (fun _ _ => True) fun _ _ => True :=
    .bind (R := fun _ _ => True) ((innerMut_agree hexchange fun _ _ _ _ => trivial).consequence
      (fun _ h => h) (fun _ _ _ => trivial) fun _ _ _ => trivial) fun _ => .refl .trivial
  refine .bind (R := fun _ _ => True) (.attempt (hcapa.consequence (fun _ h => h) (fun _ _ h => h) ?_))
    fun capabilities => .refl ?_
  · intro x _ _
    cases x with
    | error e => trivial
    | pending => exact id
    | panicked => exact id
  · cases capabilities with
    | ok capabilities => exact .modify fun _ h => h
    | error e => exact .pure fun _ h => h

theorem apop_continuing (name digest : Bytes) :
    Agree (Keeping (Calm 1)) (apop name digest) (@apop _ continuing name digest) (fun _ _ => True)
      fun _ _ => True := by
  refine .bind (.of_keeps (checkClientState_keeps _)) fun _ =>
    .bind (.of_keeps hasReadGreeting_keeps) fun _ =>
      .bind (sendRequest_calm rfl 0) fun _ => .bind (R := fun _ _ => True)
        (updateCapabilities_continuing.consequence ?_ (fun _ _ h => h) fun _ _ _ => trivial) fun _ =>
          .refl .trivial
  exact fun c hc => ⟨fun s hs => (hc.1 s hs).1, hc.2⟩

/-- The capabilities are asked for after a message, which ends the exchange. -/
theorem auth_continuing (authenticator : Authenticator) :
    Agree (Keeping Closed) (auth authenticator) (@auth _ continuing _ authenticator) (fun _ _ => True)
      fun _ _ => True := by
  refine .bind (.of_keeps (checkClientState_keeps _)) fun _ =>
    .bind (.of_keeps hasReadGreeting_keeps) fun _ =>
      .bind ((innerMut_agree (dialog_closes authenticator) fun _ _ _ _ => trivial).consequence
        (fun _ h => h) (fun _ _ h => h) fun _ _ _ => trivial) fun response =>
          .bind (R := fun _ => Keeping Closed) (.refl fun c hc => ?_) fun _ =>
            .bind (R := fun _ _ => True)
              (updateCapabilities_continuing.consequence (fun _ h => h) (fun _ _ h => h)
                fun _ _ _ => trivial) fun _ => .refl .trivial
  cases response with
  | message text => exact ⟨fun s hs => hc.1 s hs nofun, hc.2⟩
  | _ => trivial

/-- After an attempt with `PLAIN` that failed, two responses are read before the last line. -/
theorem plain_continuing (user password : Bytes) :
    Agree (Keeping (CalmFor .auth 3)) (auth (.plain user password))
      (@auth _ continuing _ (.plain user password)) (fun _ _ => True)
      fun x c => x.IsError → Keeping (Calm 2) c := by
  have hcheck {α : Type} {m : Exec Error (Client PopStream) α}
      (h : Keeps Exit.IsError (Keeping (CalmFor .auth 3)) m) :
      Agree (Keeping (CalmFor .auth 3)) m m (fun _ => Keeping (CalmFor .auth 3))
        fun x c => x.IsError → Keeping (Calm 2) c :=
    .refl (h.consequence (fun _ h => h) (fun _ _ h => h) fun _ _ h hx =>
      ⟨fun s hs => ((h hx).1 s hs).calm (by decide), (h hx).2⟩)
  have hdialog : Agree (CalmFor .auth 3) (dialog (.plain user password))
      (@dialog _ continuing _ (.plain user password)) (fun _ => Calm 2)
      fun x s => x.IsError → Calm 2 s := by
    have hexchange := exchange_calm (authRequest (.plain user password)) 2
    rw [authRequest_command] at hexchange
    rwa [dialog_finish rfl, @dialog_finish _ continuing _ _ rfl]
  refine .bind (hcheck (checkClientState_keeps _)) fun _ => .bind (hcheck hasReadGreeting_keeps) fun _ =>
    .bind ((innerMut_agree hdialog ?_).consequence (fun _ h => h) (fun _ _ h => h) ?_) fun response =>
      .bind (.refl (Q := fun _ => Keeping (Calm 2)) expect_keeps) fun _ => .bind (R := fun _ _ => True)
        (updateCapabilities_continuing.consequence ?_ (fun _ _ h => h) ?_) fun _ => .refl ?_
  · exact fun _ _ s hs _ => hs.calm (by decide)
  · exact fun x c hc hx => ⟨fun s hs => hc.1 s hs hx, hc.2⟩
  · exact fun c hc => ⟨fun s hs => (hc.1 s hs).1, hc.2⟩
  · exact fun x c hx herror => absurd herror hx
  · exact .bind (R := fun _ _ => True) (.modify fun _ h => h) fun _ => .pure fun _ h => h

theorem loginUserPass_continuing (user password : Bytes) :
    Agree (Keeping (Calm 2)) (loginUserPass user password)
      (@loginUserPass _ continuing user password) (fun _ _ => True) fun _ _ => True := by
  refine .bind (.of_keeps hasReadGreeting_keeps) fun _ =>
    .bind (sendRequest_calm rfl 1) fun _ => .bind (sendRequest_calm rfl 0) fun _ =>
      .bind (R := fun _ _ => True) (updateCapabilities_continuing.consequence ?_ (fun _ _ h => h)
        fun _ _ _ => trivial) fun _ => .refl .trivial
  exact fun c hc => ⟨fun s hs => (hc.1 s hs).1, hc.2⟩

theorem login_continuing (user password : Bytes) (announced : Bool) :
    Agree (fun c => c.hasAuthMechanism (ascii "PLAIN") = announced ∧
        Keeping (if announced then CalmFor .auth 3 else Calm 2) c)
      (login user password) (@login _ continuing _ user password) (fun _ _ => True) fun _ _ => True := by
  refine .bind (.of_keeps (checkClientState_keeps _)) fun _ =>
    .bind (R := fun client c => client.hasAuthMechanism (ascii "PLAIN") = announced ∧
      Keeping (if announced then CalmFor .auth 3 else Calm 2) c) (.refl (.get fun _ h => h))
        fun client => ?_
  cases announced with
  | false =>
    refine .ite (fun hhas => .of_pre fun c hc => ?_) fun _ => ?_
    · exact absurd (hc.1.symm.trans hhas) Bool.false_ne_true
    · exact (loginUserPass_continuing user password).consequence (fun _ h => h.2) (fun _ _ h => h)
        fun _ _ h => h
  | true =>
    refine .ite (fun _ => ?_) fun hhas => .of_pre fun c hc => absurd hc.1 hhas
    refine .bind (R := Attempted (fun _ _ => True) (Keeping (Calm 2)))
      (.attempt ((plain_continuing user password).consequence (fun _ h => h.2) (fun _ _ h => h) ?_))
        fun result => ?_
    · intro x c hx
      cases x with
      | error e => exact hx trivial
      | pending => trivial
      | panicked => trivial
    · cases result with
      | ok text => exact .refl .trivial
      | error e => exact loginUserPass_continuing user password

end Client

open PopStream

namespace ClientOp

omit [Host] in
/-- The call gets past its own checks. -/
def sends {κ : Type} (op : ClientOp) (c : Client κ) : Bool :=
  c.hasCapability op.needs && (!op.logsIn || decide (c.state = .authentication))

/-- One of the responses that are read before the last line of the call is a challenge.
Where `login` tries PLAIN, three are counted, as if it were refused: when it is accepted,
the second of them answers the last line already. -/
def challenged (op : ClientOp) (c : Client PopStream) (s : PopStream) : Bool :=
  match op with
  | .apop _ _ => challengeWithin 1 s.queue s.upcoming
  | .login _ _ =>
    if c.hasAuthMechanism (ascii "PLAIN") then challengeWithin 3 (s.queue ++ [.auth]) s.upcoming
    else challengeWithin 2 s.queue s.upcoming
  | _ => false

/-- The call is made while no exchange is open, or continues the exchange, and reads no
challenge before its last line. -/
structure Orderly (op : ClientOp) (c : Client PopStream) : Prop where
  closed : ∀ s ∈ c.inner, op.sends c = true → exchangeOpen s.history = true →
    ∀ request ∈ op.requests, continues request.command request.display = true
  unchallenged : ∀ s ∈ c.inner, op.sends c = true → op.challenged c s = false

/-- A call that does not get past its checks does not use the connection. -/
theorem run_unsent {κ : Type} {C C' : Connection κ} {c : Client κ} (hmarks : c.markedAsDel = [])
    {op : ClientOp} (h : op.sends c = false) : @run _ κ C' op c = @run _ κ C op c := by
  obtain ⟨inner, capabilities, markedAsDel, greeting, greeted, state⟩ := c
  obtain rfl : markedAsDel = [] := hmarks
  cases op with
  | uidl msgNumber =>
    simp_all [sends, needs, logsIn, run, Client.uidl, Client.checkCapability]
  | top msgNumber lines =>
    simp_all [sends, needs, logsIn, run, Client.top, Client.checkCapability, Client.checkDeleted,
      Client.isDeleted_eq]
  | apop name digest =>
    simp_all [sends, needs, logsIn, run, Client.apop, Client.checkClientState, Client.hasCapability]
  | auth authenticator =>
    simp_all [sends, needs, logsIn, run, Client.auth, Client.checkClientState, Client.hasCapability]
  | login user password =>
    simp_all [sends, needs, logsIn, run, Client.login, Client.checkClientState, Client.hasCapability]
  | _ => simp [sends, needs, logsIn, Client.hasCapability] at h

theorem not_continues_capa :
    continues (Request.ofCommand .capa).command (Request.ofCommand .capa).display = false := rfl

/-- A call in order does the same over the guarded connection. -/
theorem run_continuing {c : Client PopStream} (hmarks : c.markedAsDel = [])
    (hintact : ∀ s ∈ c.inner, Intact s) {op : ClientOp} (h : op.Orderly c) :
    @run _ _ continuing op c = op.run c := by
  by_cases hsends : op.sends c = true
  · have honce {request : Request} (hop : op.requests = [request]) :
        @run _ _ continuing op c = op.run c := by
      have hexchange : Agree (fun s => exchangeOpen s.history = true →
            continues request.command request.display = true) (Connection.exchange request)
          (continuing.exchange request) (fun _ _ => True) fun _ _ => True → True :=
        ⟨Triple.trivial.consequence (fun _ h => h) (fun _ _ h => h) fun _ _ h _ => h,
          fun s hs => continuing_exchange hs⟩
      apply (run_once (fun _ _ => trivial) hop hexchange).eq c
      exact ⟨fun s hs hopen => h.closed s hs hsends hopen request (hop ▸ List.mem_cons_self), hmarks⟩
    have hclosed (hcapa : Request.ofCommand .capa ∈ op.requests) : ∀ s ∈ c.inner, Closed s := by
      intro s hs
      by_contra hopen
      have hcontinues := h.closed s hs hsends (by simpa [Closed] using hopen) _ hcapa
      exact absurd (not_continues_capa.symm.trans hcontinues) Bool.false_ne_true
    cases op with
    | isDeleted msgNumber => rfl
    | apop name digest =>
      apply (Agree.map (Q := fun _ _ => True) (Client.apop_continuing name digest)).eq c
      exact ⟨fun s hs => ⟨hclosed (by simp [requests]) s hs,
        .inr ⟨hintact s hs, h.unchallenged s hs hsends⟩⟩, hmarks⟩
    | auth authenticator =>
      apply (Agree.map (Q := fun _ _ => True) (Client.auth_continuing authenticator)).eq c
      exact ⟨hclosed (by simp [requests]), hmarks⟩
    | login user password =>
      have hagree := Client.login_continuing user password (c.hasAuthMechanism (ascii "PLAIN"))
      apply (Agree.map (Q := fun _ _ => True) hagree).eq c
      refine ⟨rfl, fun s hs => ?_, hmarks⟩
      have hopen := hclosed (by simp [requests]) s hs
      have hnone := h.unchallenged s hs hsends
      cases hhas : c.hasAuthMechanism (ascii "PLAIN") with
      | true =>
        simp only [challenged, hhas, if_true] at hnone
        exact ⟨hopen, .inr ⟨intact_awaiting.mpr (hintact s hs), hnone⟩⟩
      | false =>
        simp only [challenged, hhas, Bool.false_eq_true, if_false] at hnone
        exact ⟨hopen, .inr ⟨hintact s hs, hnone⟩⟩
    | uidl msgNumber => cases msgNumber <;> exact honce rfl
    | list msgNumber => cases msgNumber <;> exact honce rfl
    | _ => exact honce rfl
  · exact run_unsent hmarks (Bool.not_eq_true _ ▸ hsends)

end ClientOp

/-! ## Runs -/

/-- Calls in order on the client `c`, whatever came of them. -/
inductive OrderlyCalls (c : Client PopStream) : Client PopStream → Prop where
  | nil : OrderlyCalls c c
  | call {client : Client PopStream} (h : OrderlyCalls c client) (op : ClientOp)
      (reads : List ReadEvent) (writes : List WriteEvent)
      (hop : op.Orderly (client.supply reads writes)) :
      OrderlyCalls c (stateOf (op.run (client.supply reads writes)))

theorem OrderlyCalls.calls {c client : Client PopStream} (h : OrderlyCalls c client) :
    ∃ log, Calls c log client := by
  induction h with
  | nil => exact ⟨[], .nil⟩
  | call _ op reads writes _ ih =>
    obtain ⟨log, hcalls⟩ := ih
    exact ⟨_, hcalls.call op reads writes⟩

/-- Whatever was called before, a call in order does the same over the guarded connection. -/
theorem Run.run_continuing {stream : Transport} {log : Log} {client : Client PopStream}
    (h : Run stream log client) {op : ClientOp} {reads : List ReadEvent} {writes : List WriteEvent}
    (hop : op.Orderly (client.supply reads writes)) :
    @ClientOp.run _ _ continuing op (client.supply reads writes) =
      op.run (client.supply reads writes) := by
  have hkeeping : client.Keeping Intact :=
    h.keeping_of_keep (fun _ => trivial) intact_keep
      (fun s reads writes => (SameReader.supply s reads writes).intact)
      (.inl ⟨[], new_holds stream⟩) fun _ _ _ _ => trivial
  have hmarks : (client.supply reads writes).markedAsDel = [] := hkeeping.2
  refine ClientOp.run_continuing hmarks (fun s hs => ?_) hop
  obtain ⟨t, ht, rfl⟩ := Option.map_eq_some_iff.mp hs
  exact (SameReader.supply t reads writes).intact (hkeeping.1 t ht)

/-- The greeting is no challenge, and only then `CAPA` is sent. -/
theorem newClient_uninterrupted {stream : Transport} {c : Client PopStream}
    (hnew : newClient stream = .ok () c) : c.Keeping fun s => Uninterrupted s.history := by
  have hcalm : (Client.fresh (PopStream.new stream)).Keeping (Calm 1) :=
    ⟨by rintro _ ⟨⟩; exact ⟨rfl, .inr ⟨.inl ⟨[], new_holds stream⟩, rfl⟩⟩, rfl⟩
  have hfresh : (Client.fresh (PopStream.new stream)).Keeping fun s => Uninterrupted s.history :=
    ⟨by rintro _ ⟨⟩; exact uninterrupted_nil, rfl⟩
  have hgreet : Triple (Calm 1) (readResponse .greet) (fun _ => Closed) fun _ _ => True :=
    (readResponse_calm .greet 0).consequence (fun _ h => h.calmFor rfl) (fun _ _ h => h.1)
      fun _ _ _ => trivial
  have hagree : Agree (Client.Keeping (Calm 1)) Client.createClient
      (@Client.createClient _ continuing) (fun _ _ => True) fun _ _ => True :=
    .bind (.refl (Client.readGreeting_triple hgreet)) fun greeting =>
      .bind (R := fun _ => Client.Keeping Closed) (.refl (.modify fun _ h => h)) fun _ =>
        Client.updateCapabilities_continuing.consequence (fun _ h => h) (fun _ _ h => h)
          fun _ _ _ => trivial
  have hcontinuing := @Client.createClient_triple _ (fun _ => True) _ continuing _ (fun _ => trivial)
    (@Connection.Keep.readResponse _ continuing _ _ continuing_keep .greet).value
    (@Connection.Keep.exchange _ continuing _ _ continuing_keep _)
  apply hcontinuing.ok hfresh
  rw [hagree.eq _ hcalm]
  exact hnew

theorem OrderlyCalls.uninterrupted {stream : Transport} {c client : Client PopStream}
    (hnew : newClient stream = .ok () c) (h : OrderlyCalls c client) :
    client.Keeping fun s => Uninterrupted s.history := by
  induction h with
  | nil => exact newClient_uninterrupted hnew
  | @call client h op reads writes hop ih =>
    obtain ⟨log, hcalls⟩ := h.calls
    rw [← Run.run_continuing ⟨c, hnew, hcalls⟩ hop]
    have hkeeps := (ClientOp.run_agrees (fun _ => trivial) (.of_keep (fun _ => trivial) continuing_keep)
      op (fun _ _ => trivial) fun _ _ => trivial).keeps
    apply Triple.stateOf (hkeeps.consequence (fun _ h => h) (fun _ _ h => h) fun _ _ h => h trivial)
    refine ⟨fun s hs => ?_, ih.2⟩
    obtain ⟨t, ht, rfl⟩ := Option.map_eq_some_iff.mp hs
    exact ih.1 t ht

/-- In a run of calls in order, no open exchange is ever interrupted, and neither does the
next call in order, whatever becomes of it. -/
theorem exchanges_finished {stream : Transport} {c client : Client PopStream}
    (hnew : newClient stream = .ok () c) (h : OrderlyCalls c client) :
    (∀ s ∈ client.inner, Uninterrupted s.history) ∧
      ∀ op reads writes, op.Orderly (client.supply reads writes) →
        @ClientOp.run _ _ continuing op (client.supply reads writes) =
          op.run (client.supply reads writes) := by
  obtain ⟨log, hcalls⟩ := h.calls
  exact ⟨(h.uninterrupted hnew).1, fun op reads writes => Run.run_continuing ⟨c, hnew, hcalls⟩⟩

/-! ## Sessions with `PLAIN` -/

/-- The base64 of an empty challenge, and of the answer of one user. -/
@[reducible] def Host.ofUser : Host where
  base64Encode bytes :=
    if bytes = [0] ++ ascii "user" ++ [0] ++ ascii "secret" then ascii "AHVzZXIAc2VjcmV0" else []
  base64Decode bytes := if bytes = [] then some [] else none
  traceEnabled := false

/-- A server that announces `PLAIN`. -/
def announcingPlain : Transport :=
  answering [ascii "+OK\r\n", ascii "+OK\r\nSASL PLAIN\r\n.\r\n"]

/-- Answers a challenge. -/
def answeringPlain : Authenticator where
  mechanism := ascii "PLAIN"
  auth := none
  handle := .nextChallenge fun _ =>
    .send ([0] ++ ascii "user" ++ [0] ++ ascii "secret") fun _ => .finish (.ok ())

omit [Host] in
theorem exchanges_finished_auth :
    ∃ c client : Client PopStream, @newClient .ofUser announcingPlain = .ok () c ∧
      @OrderlyCalls .ofUser c client ∧
      (client.inner.map fun s => textsOf s.history) =
        some [ascii "CAPA", ascii "AUTH PLAIN", ascii "AHVzZXIAc2VjcmV0", ascii "CAPA"] ∧
      ∀ s ∈ client.inner, @Uninterrupted .ofUser s.history := by
  let host : Host := .ofUser
  let answers := answering [ascii "+ \r\n", ascii "+OK\r\n", ascii "-ERR\r\n"]
  let c := stateOf (newClient announcingPlain)
  have hnew : newClient announcingPlain = .ok () c := eq_ok_of_value? (by decide +kernel)
  have horderly : (ClientOp.auth answeringPlain).Orderly (c.supply answers.reads answers.writes) :=
    ⟨by decide +kernel, by decide +kernel⟩
  have hcalls := OrderlyCalls.call .nil _ answers.reads answers.writes horderly
  exact ⟨c, _, hnew, hcalls, by decide +kernel, (exchanges_finished hnew hcalls).1⟩

/-- The first call, when the server answers `AUTH PLAIN` with a challenge. -/
def challengedLogin : EStateM.Result (Exit Error) (Client PopStream) Value :=
  @ClientOp.run .ofUser _ (@instConnectionPopStreamOfHost .ofUser)
    (.login (ascii "user") (ascii "secret"))
    ((stateOf (@newClient .ofUser announcingPlain)).supply
      (answering [ascii "+ \r\n", ascii "-ERR\r\n"]).reads
      (answering [ascii "+ \r\n", ascii "-ERR\r\n"]).writes)

omit [Host] in
/-- The server gets `USER` for an answer. -/
theorem login_interrupts :
    @Run .ofUser announcingPlain [(.login (ascii "user") (ascii "secret"), outcome challengedLogin)]
        (stateOf challengedLogin) ∧
      ((stateOf challengedLogin).inner.map fun s => textsOf s.history) =
        some [ascii "CAPA", ascii "AUTH PLAIN AHVzZXIAc2VjcmV0", ascii "USER user"] ∧
      ((stateOf challengedLogin).inner.map fun s => (answersOf s.history).map (·.2)) =
        some [.message ⟨[]⟩, .capability [.sasl [ascii "PLAIN"]], .challenge ⟨[]⟩, .err ⟨[]⟩] ∧
      ¬ ∀ s ∈ (stateOf challengedLogin).inner, @Uninterrupted .ofUser s.history := by
  let _ : Host := .ofUser
  have hnew : newClient announcingPlain = .ok () (stateOf (newClient announcingPlain)) :=
    eq_ok_of_value? (by decide +kernel)
  refine ⟨⟨_, hnew, .answered .nil _ _⟩, by decide +kernel, by decide +kernel, fun h => ?_⟩
  have hbefore : ∃ s ∈ (stateOf challengedLogin).inner,
      s.history.take 14 ++ [.line .user (ascii "USER user")] <+: s.history ∧
        exchangeOpen (s.history.take 14) = true := by decide +kernel
  obtain ⟨s, hs, hline, hopen⟩ := hbefore
  exact absurd (h s hs _ _ _ hline hopen) (by decide)

end Pop
