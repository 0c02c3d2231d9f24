-- SUMMARY: After a rejected response no call returns one any more, and no login succeeds.
import GetEmail.Pop.Authentication
import GetEmail.Pop.Exits

/-!
# Rejected responses

`decode` puts the buffer back and takes the command off the queue when a response
was parsed, but not when the parser rejects it. What a rejection leaves is stuck.
`update_capabilities` goes on all the same.
-/

namespace Pop

open Exec
open Nom (Bytes ascii)

/-- If a response was rejected, the state satisfies `R`. -/
def OnRejection {σ : Type} (R : σ → Prop) (x : Exit Error) (s : σ) : Prop :=
  ∀ e, x = .error e → e.kind = .invalidResponse → R s

theorem onRejection_of_kind {σ : Type} {R : σ → Prop} {s : σ} {e : Error}
    (h : e.kind ≠ .invalidResponse) : OnRejection R (.error e) s := by
  rintro _ ⟨⟩ he
  exact absurd he h

namespace PopStream

/-! ## The stream -/

/-- What a rejected response should leave: received bytes below the cursor, in their
order, and the command done. -/
structure Recovered (s s' : PopStream) : Prop where
  le : s'.buffer.cursor ≤ s'.buffer.inner.length
  bytes : (s'.buffer.inner.take s'.buffer.cursor).Sublist (received s'.history)
  queue : s'.queue = s.queue.tail

variable {R : PopStream → Prop}

/-- Reading does not reject a response. -/
theorem receive_onRejection : Exits receive (OnRejection R) :=
  receive_exits.mono fun x s h e hx he => by
    have hkind := h e hx
    rw [he] at hkind
    cases hkind

variable [Host]

theorem decode_invalidResponse {s s' : PopStream} {e : Error}
    (h : decode s = .error (.error e) s') (he : e.kind = .invalidResponse) :
    s.queue ≠ [] ∧ Rejected s' ∧ s' = s.taken := by
  have hq : s.queue ≠ [] := by
    intro hq
    rcases decode_eq_error h with ⟨-, heq, -⟩ | ⟨command, queue, hqueue, -⟩
    · cases heq
      cases he
    · simp [hq] at hqueue
  exact ⟨hq, (decode_rejected hq h).1, (decode_rejected hq h).2.1⟩

theorem decode_onRejection : Exits decode (OnRejection Rejected) := by
  intro s _
  cases h : decode s with
  | ok response s' => trivial
  | error x s' =>
    rintro e rfl he
    exact (decode_invalidResponse h he).2.1

theorem next_onRejection : Exits next (OnRejection Rejected) := by
  have hturn : ∀ u, Exits (readTurn u) (OnRejection Rejected) := fun _ =>
    .bind receive_onRejection fun _ => .bind decode_onRejection fun response => by
      cases response <;> exact .pure _
  refine .bind decode_onRejection fun response => ?_
  cases response with
  | some response => exact .pure _
  | none => exact .bind .get fun s => .loop hturn (fun _ => nofun) _ _

/-- A call that ends with a rejected response leaves the stream stuck. -/
theorem readResponse_onRejection (command : Command) :
    Exits (readResponse command) (OnRejection Stuck) := by
  have hnext : Exits next (OnRejection Stuck) :=
    next_onRejection.mono fun x s h e hx he => .inl (h e hx he)
  refine .bind (.zoom fun _ => .modify) fun _ => .bind hnext fun response => ?_
  cases response with
  | err text => exact .fail fun _ => onRejection_of_kind nofun
  | _ => exact .pure _

theorem exchange_onRejection (request : Request) :
    Exits (Connection.exchange request : Exec Error PopStream Response) (OnRejection Stuck) := by
  have hencode : Exits (encode request) (OnRejection Stuck) := by
    refine .of_pre fun s _ => (encode_sends request s).consequence (fun _ h => h)
      (fun _ _ _ => trivial) ?_
    rintro _ s' ⟨-, hx⟩ e rfl he
    obtain ⟨io, rfl, -⟩ := hx
    cases he
  exact .bind (.bind hencode fun _ => .modify) fun _ => readResponse_onRejection _

/-- A stuck stream stays stuck while a request is written, and no response to it is
returned. -/
theorem exchange_stuck (request : Request) :
    Triple Stuck (Connection.exchange request) (fun _ _ => False)
      (fun x s => x.IsError → Stuck s) := by
  refine .bind ((encode_sends request).keeps_line (fun _ _ h => h.stuck) _ _) fun _ => ?_
  refine (readResponse_stuck _).consequence (fun _ h => h) (fun _ _ h => h) fun x s h hx => ?_
  cases x with
  | error e => exact h.1
  | pending => exact hx.elim
  | panicked => exact hx.elim

end PopStream

/-! ## The client -/

namespace Client

open PopStream

variable [Host]

theorem capa_onRejection :
    Exits (capa : Exec Error (Client PopStream) _) (OnRejection (Connected Stuck)) := by
  refine .bind (innerMut_triple (fun client socket _ _ => ?_) fun client e he _ => ?_)
    fun response => ?_
  · refine (exchange_onRejection _).consequence (fun _ _ => trivial) (fun _ _ h => h) ?_
    exact fun x s h e hx he => ⟨s, rfl, h e hx he⟩
  · obtain rfl | rfl := List.mem_pair.mp he <;> exact onRejection_of_kind nofun
  · unfold expect
    split
    · exact .pure _
    · exact .fail fun _ => onRejection_of_kind nofun

/-- Without a response no operation goes on. -/
theorem sendRequest_stuck (request : Request) :
    Triple (Connected Stuck) (sendRequest request) (fun _ _ => False)
      (fun x c => x.IsError → Connected Stuck c) := by
  refine innerMut_triple (fun client socket hclient hinner => ?_) fun _ _ _ h _ => h
  refine (exchange_stuck request).consequence ?_ (fun _ _ h => h) fun x s h hx => ⟨s, rfl, h hx⟩
  intro _ hs
  exact hs ▸ connected_carries.get client socket hclient hinner

theorem auth_stuck {authenticator : Authenticator}
    (hhandle : authenticator.handle = .finish (.ok ())) :
    Triple (Connected Stuck) (auth authenticator) (fun _ _ => False)
      (fun x c => x.IsError → Connected Stuck c) := by
  simp only [auth, dialog_finish hhandle]
  exact .bind (checkClientState_keeps _) fun _ => .bind hasReadGreeting_keeps fun _ =>
    .bind (sendRequest_stuck _) fun _ _ h => h.elim

theorem loginUserPass_stuck (user password : Bytes) :
    Triple (Connected Stuck) (loginUserPass user password) (fun _ _ => False)
      (fun x c => x.IsError → Connected Stuck c) :=
  .bind hasReadGreeting_keeps fun _ => .bind (sendRequest_stuck _) fun _ _ h => h.elim

theorem login_stuck (user password : Bytes) :
    Triple (Connected Stuck) (login user password) (fun _ _ => False)
      (fun x c => x.IsError → Connected Stuck c) := by
  refine .bind (checkClientState_keeps _) fun _ => .bind Keeps.get fun client => .ite (fun _ => ?_)
    fun _ => loginUserPass_stuck user password
  have hauth : Triple (Connected Stuck) (attempt (auth (.plain user password)))
      (fun result c => Connected Stuck c ∧ ∃ e, result = .error e)
      (fun x c => x.IsError → Connected Stuck c) := by
    refine .attempt ((auth_stuck rfl).consequence (fun _ h => h) (fun _ _ h => h.elim) ?_)
    intro x c h
    cases x with
    | error e => exact ⟨h trivial, e, rfl⟩
    | pending => exact h
    | panicked => exact h
  refine .bind hauth fun result => ?_
  rintro c ⟨hc, e, rfl⟩
  exact loginUserPass_stuck user password c hc

end Client

variable [Host]

open Client PopStream

/-- Whatever the state: a rejected response does not leave what it should, and no later
call on the stream returns a response. A client goes on after a rejected answer to
`CAPA`, and no `login` on it succeeds. -/
theorem rejection_poisons :
    (∀ (s s' : PopStream) (e : Error), decode s = .error (.error e) s' →
      e.kind = .invalidResponse → ¬ Recovered s s' ∧ ∀ command reads writes,
        value? (readResponse command (s'.supply reads writes)) = none) ∧
    ∀ (c c' : Client PopStream) (e : Error), capa c = .error (.error e) c' →
      e.kind = .invalidResponse → updateCapabilities c = .ok () c' ∧
        ∀ user password reads writes, value? (login user password (c'.supply reads writes)) = none := by
  refine ⟨fun s s' e h he => ?_, fun c c' e h he => ?_⟩
  · obtain ⟨hq, hrejected, rfl⟩ := decode_invalidResponse h he
    refine ⟨fun hrecovered => ?_, fun command reads writes => ?_⟩
    · -- The command is still at the head of the queue.
      obtain ⟨command, queue, hqueue⟩ := List.exists_cons_of_ne_nil hq
      simpa [taken, hqueue] using hrecovered.queue
    · have hstuck : Stuck (s.taken.supply reads writes) :=
        (SameReader.supply _ reads writes).stuck (.inl hrejected)
      cases hread : readResponse command (s.taken.supply reads writes) with
      | ok r s' => exact ((readResponse_stuck command).ok hstuck hread).elim
      | error x s' => rfl
  · refine ⟨by simp [updateCapabilities, attempt_eq_error.mpr h], fun user password reads writes => ?_⟩
    obtain ⟨s, hinner, hstuck⟩ := capa_onRejection.exit trivial h e rfl he
    have hconnected : Connected Stuck (c'.supply reads writes) :=
      ⟨s.supply reads writes, by simp [Client.supply, hinner],
        (SameReader.supply s reads writes).stuck hstuck⟩
    cases hlogin : login user password (c'.supply reads writes) with
    | ok texts c'' => exact ((login_stuck user password).ok hconnected hlogin).elim
    | error x c'' => rfl

omit [Host] in
theorem rejection_poisons_noise :
    (∃ s s', @decode (.bare false) s =
        .error (.error (invalidResponse ⟨ascii "?\r\n", .tag⟩)) s' ∧ ¬ Recovered s s' ∧
      ∀ command reads writes,
        value? (@readResponse (.bare false) command (s'.supply reads writes)) = none) ∧
    ∃ c c', @capa _ (@instConnectionPopStreamOfHost (.bare false)) c =
        .error (.error (invalidResponse ⟨ascii "?\r\n", .tag⟩)) c' ∧
      ∀ user password reads writes,
        value? (@login _ (@instConnectionPopStreamOfHost (.bare false)) (.bare false) user password
          (c'.supply reads writes)) = none := by
  let host : Host := .bare false
  let socket := stateOf (receive ((new (answering [ascii "?\r\n"])).awaiting .stat))
  obtain ⟨s', hdecode⟩ : ∃ s', decode socket =
      .error (.error (invalidResponse ⟨ascii "?\r\n", .tag⟩)) s' :=
    ⟨_, eq_error_of_exit? (by decide +kernel)⟩
  let client := (stateOf (newClient (answering [ascii "+OK\r\n", ascii "-ERR\r\n"]))).supply
    (answering [ascii "?\r\n"]).reads (answering []).writes
  obtain ⟨c', hcapa⟩ : ∃ c', capa client =
      .error (.error (invalidResponse ⟨ascii "?\r\n", .tag⟩)) c' :=
    ⟨_, eq_error_of_exit? (by decide +kernel)⟩
  exact ⟨⟨socket, s', hdecode, rejection_poisons.1 socket s' _ hdecode rfl⟩,
    client, c', hcapa, (rejection_poisons.2 client c' _ hcapa rfl).2⟩

omit [Host] in
/-- The same login, after an answer to `CAPA` that is rejected and after an error. -/
theorem login_poisoned : ∃ c c' : Client PopStream,
    @newClient (.bare false) (answering [ascii "+OK\r\n", ascii "?\r\n"]) = .ok () c ∧
    @newClient (.bare false) (answering [ascii "+OK\r\n", ascii "-ERR\r\n"]) = .ok () c' ∧
    c.state = .authentication ∧
    let reads := (answering [ascii "+OK\r\n", ascii "+OK\r\n", ascii "-ERR\r\n"]).reads
    let writes := (answering []).writes
    exit? (@login _ (@instConnectionPopStreamOfHost (.bare false)) (.bare false) (ascii "user")
      (ascii "secret") (c.supply reads writes)) =
        some (.error (invalidResponse ⟨[0, 0, 0], .tag⟩)) ∧
    value? (@login _ (@instConnectionPopStreamOfHost (.bare false)) (.bare false) (ascii "user")
      (ascii "secret") (c'.supply reads writes)) = some (⟨[]⟩, ⟨[]⟩) := by
  let host : Host := .bare false
  exact ⟨_, _, eq_ok_of_value? (by decide +kernel), eq_ok_of_value? (by decide +kernel),
    by decide +kernel⟩

end Pop
