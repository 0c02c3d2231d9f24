-- SUMMARY: Logging in: the state changes with a confirmed final line, or nothing does.
import GetEmail.Pop.Operations
import GetEmail.Pop.Stuck

/-!
# Authentication

`login` and `apop` enter the transaction state before they look at the kind of
the responses. The kinds are right all the same: in a run whose calls all came to
an end, on a transport whose failures last, a call gets its own response or none.
-/

namespace Pop

open Exec
open Nom (Bytes ascii)

namespace PopStream

theorem deliver_eq_ok {response r : Response} (h : deliver response = .ok r) :
    response = r ∧ ∀ text, r ≠ .err text := by
  cases response <;> cases h <;> exact ⟨rfl, nofun⟩

variable [Host]

/-! ## One exchange -/

/-- What a call on a sound stream returns is the response to its own command. -/
theorem readResponse_answers (command : Command) (history : List Event) :
    Triple (fun s => Sound s ∧ history <+: s.history) (readResponse command)
      (fun r s => (Sound s ∧ history <+: s.history) ∧ Idle s ∧ Responds history s command r ∧
        ∀ text, r ≠ .err text)
      (fun x s => x.IsError → Sound s ∧ history <+: s.history) := by
  rintro s ⟨hs, hhistory⟩
  have hkeeps := ((readResponse_sound command).and
    (readResponse_keeps (framed_history history) trivial)) s ⟨hs, hhistory⟩
  have hstuck := readResponse_stuck command s
  cases hread : readResponse command s with
  | error x s' =>
    rw [hread] at hkeeps
    exact hkeeps
  | ok r s' =>
    rw [hread] at hkeeps hstuck
    rcases hs.2 with hidle | hs
    · have hfinished : readResponse command s = finished (.ok r) s' := hread
      obtain ⟨hidle', response, hdeliver, before, input, rest, hbefore, hresponds⟩ :=
        readResponse_idle hidle hfinished trivial
      obtain ⟨rfl, hne⟩ := deliver_eq_ok hdeliver.symm
      exact ⟨hkeeps, hidle', ⟨before, input, rest, hhistory.trans hbefore, hresponds⟩, hne⟩
    · exact (hstuck hs).elim

theorem exchange_answers (request : Request) (history : List Event) :
    Triple (fun s => Sound s ∧ history <+: s.history) (Connection.exchange request)
      (fun r s => (Sound s ∧ history <+: s.history) ∧ Idle s ∧
        Responds history s request.command r ∧ ∀ text, r ≠ .err text)
      (fun x s => x.IsError → Sound s ∧ history <+: s.history) :=
  .bind ((sound_keep.encode request).and (encode_keeps (framed_history history) request)) fun _ =>
    readResponse_answers request.command history

/-- After `history`, a `+OK` response to `command` was parsed, and nothing since but
responses to `CAPA`. -/
def Confirmed (history : List Event) (s : PopStream) (command : Command) : Prop :=
  ∃ before after text input rest,
    s.history = before ++ [.answered command (.message text)] ++ after ∧ history <+: before ∧
      (∀ c response, .answered c response ∈ after → c = .capa) ∧ input <:+ received before ∧
      okTag <+: input ∧ Parser.parse input command = .ok rest (.message text)

theorem Responds.confirmed {history : List Event} {s s' : PopStream} {command : Command}
    {text : Text} (hcommand : Parser.answeredByText command)
    (h : Responds history s command (.message text)) (h' : OnlyAnswers .capa s.history s') :
    Confirmed history s' command := by
  obtain ⟨before, input, rest, hbefore, hhistory, hinput, hparse⟩ := h
  obtain ⟨-, after, hafter, honly⟩ := h'
  refine ⟨before, after, text, input, rest, hhistory ▸ hafter, hbefore, honly, hinput, ?_, hparse⟩
  rcases Parser.parse_text hcommand hparse with ⟨-, text', h⟩ | ⟨hok, -⟩ | ⟨-, text', h⟩
  · cases h
  · exact hok
  · cases h

/-- Commands that take no challenge are confirmed by a text or not at all. -/
theorem Responds.message {history : List Event} {s : PopStream} {command : Command}
    {r : Response} (hcommand : Parser.answeredByText command)
    (hchallenge : Parser.takesChallenge command = false) (hne : ∀ text, r ≠ .err text)
    (h : Responds history s command r) : ∃ text, r = .message text := by
  obtain ⟨before, input, rest, -, -, -, hparse⟩ := h
  rcases Parser.parse_text hcommand hparse with ⟨h, -⟩ | ⟨-, hmessage⟩ | ⟨-, text, rfl⟩
  · rw [hchallenge] at h
    cases h
  · exact hmessage
  · exact absurd rfl (hne text)

end PopStream

/-! ## The operations -/

namespace Client

open PopStream

variable {c : Client PopStream}

/-- All fields but the connection are as they were. -/
structure SameFields (c c' : Client PopStream) : Prop where
  capabilities : c'.capabilities = c.capabilities
  markedAsDel : c'.markedAsDel = c.markedAsDel
  greeting : c'.greeting = c.greeting
  greeted : c'.greeted = c.greeted
  state : c'.state = c.state

/-- The history of the connection. -/
def history (c : Client PopStream) : List Event := (c.inner.map (·.history)).getD []

variable [Host]

/-- Inside a call that was made on `c`. -/
def Within (c c' : Client PopStream) : Prop :=
  SameFields c c' ∧ ∀ s ∈ c'.inner, Sound s ∧ c.history <+: s.history

theorem within_carries : Carries (Within c) fun s => Sound s ∧ c.history <+: s.history where
  get _ socket h hinner := h.2 socket hinner
  set _ socket h hsocket :=
    ⟨⟨h.1.capabilities, h.1.markedAsDel, h.1.greeting, h.1.greeted, h.1.state⟩,
      by simpa using hsocket⟩

/-- An exchange returns the response to its own command, or fails and leaves the fields
as they were. -/
theorem sendRequest_within (request : Request) :
    Triple (Within c) (sendRequest request)
      (fun r c' => Within c c' ∧ ∃ s, c'.inner = some s ∧ Idle s ∧
        Responds c.history s request.command r ∧ ∀ text, r ≠ .err text)
      (fun x c' => x.IsError → Within c c') := by
  refine innerMut_triple (fun c' s hc' hinner => ?_) fun _ _ _ h _ => h
  refine (exchange_answers request c.history).consequence ?_ ?_ ?_
  · intro _ hs
    exact hs ▸ within_carries.get c' s hc' hinner
  · rintro r s' ⟨hs', hresponds⟩
    exact ⟨within_carries.set c' s' hc' hs', s', rfl, hresponds⟩
  · intro x s' hs' hx
    exact within_carries.set c' s' hc' (hs' hx)

theorem checkClientState_within (state : ClientState) :
    Triple (Within c) (checkClientState state) (fun _ c' => Within c c' ∧ c.state = state)
      (fun x c' => x.IsError → Within c c') := by
  intro c' hc'
  simp only [checkClientState, bind_apply, get_apply, if_apply, fail_apply, pure_apply]
  by_cases hstate : c'.state = state
  · rw [if_neg (not_not_intro hstate)]
    exact ⟨hc', hc'.1.state.symm.trans hstate⟩
  · rw [if_pos hstate]
    exact fun _ => hc'

/-- Refreshing the capabilities comes to an end without an error, and no other
response is parsed. -/
theorem updateCapabilities_only (history : List Event) :
    Triple (Connected (OnlyAnswers .capa history)) updateCapabilities
      (fun _ => Connected (OnlyAnswers .capa history)) (fun x _ => ¬ x.IsError) := by
  intro c' hc'
  have hexchange : Keeps (fun _ => True) (OnlyAnswers .capa history)
      (Connection.exchange (.ofCommand .capa)) :=
    exchange_keeps (framed_onlyAnswers .capa history) rfl
  have hkeeps := (updateCapabilities_agrees (fun _ => trivial) connected_carries (fun _ _ h => h)
    (.refl hexchange)).keeps c' hc'
  cases h : updateCapabilities c' with
  | ok _ c'' =>
    rw [h] at hkeeps
    exact hkeeps
  | error x c'' =>
    rcases bind_eq_error.mp h with hattempt | ⟨result, _, _, hrest⟩
    · exact attempt_exit hattempt
    · cases result <;> cases hrest

/-- A call on `c` has entered the transaction state, with a confirmed line. -/
def Entered (c : Client PopStream) (commands : List Command) (c' : Client PopStream) : Prop :=
  c.state = .authentication ∧ c'.state = .transaction ∧
    ∃ s, c'.inner = some s ∧ ∃ command ∈ commands, Confirmed c.history s command

/-- What follows the confirmed line. -/
theorem enter_transaction {α : Type} {m : Exec Error (Client PopStream) α}
    {Q : α → Client PopStream → Prop} {commands : List Command} {command : Command} {text : Text}
    (hstate : c.state = .authentication) (hmem : command ∈ commands)
    (hcommand : Parser.answeredByText command)
    (hm : Triple (Entered c commands) m Q fun x c' => x.IsError → Within c c') :
    Triple (fun c' => ∃ s, c'.inner = some s ∧ Idle s ∧
        Responds c.history s command (.message text))
      (do updateCapabilities; setState .transaction; m) Q fun x c' => x.IsError → Within c c' := by
  refine .of_pre fun c' ⟨s, hinner, hidle, hresponds⟩ => ?_
  refine .bind ((updateCapabilities_only s.history).consequence ?_ (fun _ _ h => h)
    fun _ _ hx h => absurd h hx) fun _ =>
      .bind (.modify fun c'' ⟨s'', hinner'', honly⟩ => ?_) fun _ => hm
  · rintro _ rfl
    exact ⟨s, hinner, by simp [hidle.1], [], by simp, by simp⟩
  · exact ⟨hstate, rfl, s'', hinner'', command, hmem, hresponds.confirmed hcommand honly⟩

theorem apop_entered (name digest : Bytes) :
    Triple (Within c) (apop name digest) (fun _ => Entered c [.apop])
      (fun x c' => x.IsError → Within c c') := by
  refine .bind (checkClientState_within _) fun _ => .assume fun hstate => ?_
  refine .bind hasReadGreeting_keeps fun _ => .bind (sendRequest_within _) fun response => ?_
  rintro c' ⟨hc', s, hinner, hidle, hresponds, hne⟩
  obtain ⟨text, rfl⟩ := hresponds.message rfl rfl hne
  have hreturn : Triple (Entered c [.apop])
      (expect Response.message? "apop response" (.message text)) (fun _ => Entered c [.apop])
      (fun x c' => x.IsError → Within c c') := .pure fun _ h => h
  exact enter_transaction hstate (List.mem_singleton_self _) rfl hreturn c'
    ⟨s, hinner, hidle, hresponds⟩

/-- The authenticators that leave the handshake to the server. -/
theorem auth_entered {authenticator : Authenticator}
    (hhandle : authenticator.handle = .finish (.ok ())) :
    Triple (Within c) (auth authenticator) (fun _ => Entered c [.auth])
      (fun x c' => x.IsError → Within c c') := by
  simp only [auth, dialog_finish hhandle]
  refine .bind (checkClientState_within _) fun _ => .assume fun hstate => ?_
  refine .bind hasReadGreeting_keeps fun _ => .bind (sendRequest_within _) fun response => ?_
  rw [authRequest_command]
  rintro c' ⟨hc', s, hinner, hidle, hresponds, hne⟩
  cases hmessage : response.message? with
  | none =>
    simp only [expect, hmessage, bind_apply, fail_apply]
    exact fun _ => hc'
  | some text =>
    obtain rfl : response = .message text := by
      cases response <;> cases hmessage
      rfl
    have hreturn : Triple (Entered c [.auth])
        (pure text : Exec Error (Client PopStream) Text) (fun _ => Entered c [.auth])
        (fun x c' => x.IsError → Within c c') := .pure fun _ h => h
    exact enter_transaction hstate (List.mem_singleton_self _) rfl hreturn c'
      ⟨s, hinner, hidle, hresponds⟩

theorem loginUserPass_entered (user password : Bytes) (hstate : c.state = .authentication) :
    Triple (Within c) (loginUserPass user password) (fun _ => Entered c [.pass, .auth])
      (fun x c' => x.IsError → Within c c') := by
  refine .bind hasReadGreeting_keeps fun _ => .bind (sendRequest_within _) fun userResponse => ?_
  refine .of_pre fun c₁ ⟨hc₁, _, _, _, huser, hne₁⟩ => ?_
  obtain ⟨userText, rfl⟩ := huser.message rfl rfl hne₁
  refine .bind ((sendRequest_within _).consequence (by rintro _ rfl; exact hc₁) (fun _ _ h => h)
    fun _ _ h => h) fun passResponse => ?_
  rintro c' ⟨hc', s, hinner, hidle, hresponds, hne⟩
  obtain ⟨text, rfl⟩ := hresponds.message rfl rfl hne
  have hreturn : Triple (Entered c [.pass, .auth])
      (do
        let userText ← expect Response.message? "user response" (.message userText)
        let passText ← expect Response.message? "pass response" (.message text)
        return (userText, passText)) (fun _ => Entered c [.pass, .auth])
      (fun x c' => x.IsError → Within c c') := .pure fun _ h => h
  exact enter_transaction hstate List.mem_cons_self rfl hreturn c' ⟨s, hinner, hidle, hresponds⟩

theorem login_entered (user password : Bytes) :
    Triple (Within c) (login user password) (fun _ => Entered c [.pass, .auth])
      (fun x c' => x.IsError → Within c c') := by
  refine .bind (checkClientState_within _) fun _ => .assume fun hstate => ?_
  refine .bind (.get fun c' hc' => hc') fun client => .ite (fun _ => ?_) fun _ =>
    loginUserPass_entered user password hstate
  have hauth : Triple (Within c) (attempt (auth (.plain user password)))
      (Attempted (fun _ => Entered c [.pass, .auth]) (Within c))
      (fun x c' => x.IsError → Within c c') := by
    refine .attempt ((auth_entered rfl).consequence (fun _ h => h) ?_ ?_)
    · rintro text c' ⟨hstate, hstate', s, hinner, command, hmem, hconfirmed⟩
      exact ⟨hstate, hstate', s, hinner, command, List.mem_cons_of_mem _ hmem, hconfirmed⟩
    · intro x c' h
      cases x with
      | error e => exact h trivial
      | pending => exact h
      | panicked => exact h
  refine .bind hauth fun result => ?_
  cases result with
  | ok text => exact .pure fun _ h => h
  | error e => exact loginUserPass_entered user password hstate

end Client

/-! ## Calls of a run -/

/-- The calls that authenticate, with the commands of their final line. -/
inductive Authenticates : ClientOp → List Command → Prop where
  | login (user password : Bytes) : Authenticates (.login user password) [.pass, .auth]
  | apop (name digest : Bytes) : Authenticates (.apop name digest) [.apop]
  | plain (user password : Bytes) : Authenticates (.auth (.plain user password)) [.auth]
  | oauth2 (user token : Bytes) : Authenticates (.auth (.oauth2 user token)) [.auth]

variable [Host]

open Client PopStream

theorem Authenticates.entered {op : ClientOp} {commands : List Command}
    (h : Authenticates op commands) (c : Client PopStream) :
    Triple (Within c) op.run (fun _ => Entered c commands)
      (fun x c' => x.IsError → Within c c') := by
  cases h with
  | login user password => exact .map (login_entered user password)
  | apop name digest => exact .map (apop_entered name digest)
  | plain user password => exact .map (auth_entered rfl)
  | oauth2 user token => exact .map (auth_entered rfl)

/-- A call on `c` that returns has entered the transaction state, and its final line was
confirmed. After an error only the connection differs. -/
def AllOrNothing (c : Client PopStream) (commands : List Command) :
    EStateM.Result (Exit Error) (Client PopStream) Value → Prop
  | .ok _ c' => c.state ≠ .transaction ∧ c'.state = .transaction ∧
      ∃ s, c'.inner = some s ∧ ∃ command ∈ commands, Confirmed c.history s command
  | .error (.error _) c' => SameFields c c'
  | .error _ _ => True

/-- In a run whose calls all came to an end, on a transport whose failures last, a call
authenticates or changes nothing but the connection. -/
theorem authentication_all_or_nothing {stream : Transport} {log : Log} {c : Client PopStream}
    (hrun : Run stream log c) (hsticky : stream.sticky = true)
    (hlog : ∀ entry ∈ log, ∀ x, entry.2 = .error x → x.IsError) {op : ClientOp}
    {commands : List Command} (hop : Authenticates op commands) (reads : List ReadEvent)
    (writes : List WriteEvent) : AllOrNothing c commands (op.run (c.supply reads writes)) := by
  have hkeeping := hrun.keeping_of_keep (fun _ => trivial) sound_keep
    (fun s reads writes => (SameReader.supply s reads writes).sound) ⟨hsticky, .inl (new_idle stream)⟩
    hlog
  have hwithin : Within c (c.supply reads writes) := by
    refine ⟨⟨rfl, rfl, rfl, rfl, rfl⟩, fun s' hs' => ?_⟩
    obtain ⟨s, hs, rfl⟩ := Option.map_eq_some_iff.mp hs'
    refine ⟨(SameReader.supply s reads writes).sound (hkeeping.1 s hs), ?_⟩
    simp [Client.history, hs, PopStream.supply]
  have h := hop.entered c _ hwithin
  cases hop : op.run (c.supply reads writes) with
  | ok value c' =>
    rw [hop] at h
    obtain ⟨hstate, hstate', hconfirmed⟩ := h
    exact ⟨by simp [hstate], hstate', hconfirmed⟩
  | error x c' =>
    rw [hop] at h
    cases x with
    | error e => exact (h trivial).1
    | pending => trivial
    | panicked => trivial

omit [Host] in
theorem authentication_all_or_nothing_apop :
    ∃ (stream : Transport) (log : Log) (c : Client PopStream), @Run (.bare false) stream log c ∧
      ∀ reads writes, @AllOrNothing (.bare false) c [.apop]
        (@ClientOp.run (.bare false) _ (@instConnectionPopStreamOfHost (.bare false))
          (.apop (ascii "user") (ascii "digest")) (c.supply reads writes)) := by
  let host : Host := .bare false
  let stream := { answering [ascii "+OK\r\n", ascii "-ERR\r\n"] with sticky := true }
  obtain ⟨c, hnew⟩ : ∃ c, newClient stream = .ok () c :=
    ⟨_, eq_ok_of_value? (by decide +kernel)⟩
  have hrun : Run stream [] c := ⟨c, hnew, .nil⟩
  exact ⟨stream, [], c, hrun, authentication_all_or_nothing hrun rfl (by simp) (.apop _ _)⟩

end Pop
