-- SUMMARY: When each request of a call is one line on the wire.
import GetEmail.Pop.Authentication
import GetEmail.Pop.Deletion
import GetEmail.Pop.Server

/-!
# One request, one line

Nothing on the way of an argument to the wire looks for line breaks. A guarded
connection panics at anything that is not a single line, so a call that does the
same over it sends single lines only.
-/

namespace Pop

open Exec
open Nom (Bytes ascii cr lf)

/-! ## Line breaks -/

def NoBreak (text : Bytes) : Prop := cr ∉ text ∧ lf ∉ text

instance (text : Bytes) : Decidable (NoBreak text) := inferInstanceAs (Decidable (_ ∧ _))

/-- The only line break is the one at the end. -/
def OneLine (bytes : Bytes) : Prop := ∃ text, NoBreak text ∧ bytes = text ++ endOfLine

@[simp] theorem noBreak_nil : NoBreak [] := ⟨List.not_mem_nil, List.not_mem_nil⟩

@[simp] theorem noBreak_append {xs ys : Bytes} :
    NoBreak (xs ++ ys) ↔ NoBreak xs ∧ NoBreak ys := by
  simp only [NoBreak, List.mem_append, not_or]
  exact ⟨fun h => ⟨⟨h.1.1, h.2.1⟩, h.1.2, h.2.2⟩, fun h => ⟨⟨h.1.1, h.2.1⟩, h.1.2, h.2.2⟩⟩

theorem oneLine_iff {text : Bytes} : OneLine (text ++ endOfLine) ↔ NoBreak text := by
  refine ⟨?_, fun h => ⟨text, h, rfl⟩⟩
  rintro ⟨text', h, heq⟩
  rwa [List.append_cancel_right heq]

instance (text : Bytes) : Decidable (OneLine (text ++ endOfLine)) :=
  decidable_of_iff _ oneLine_iff.symm

/-- A number is written without line breaks. -/
theorem noBreak_display (n : Nat) : NoBreak (Display.display n) := by
  have hdigit (c : UInt8) (hc : c ∈ (Display.display n : Bytes)) : ∃ d : Char, d.isDigit ∧
      c = UInt8.ofNat d.toNat := by
    obtain ⟨d, hd, rfl⟩ := List.mem_map.mp hc
    exact ⟨d, Nat.isDigit_of_mem_toDigits (by decide) (by decide) hd, rfl⟩
  have hne (c : UInt8) (hc : c ∈ (Display.display n : Bytes)) : 48 ≤ c.toNat := by
    obtain ⟨d, hd, rfl⟩ := hdigit c hc
    simp only [Char.isDigit, Bool.and_eq_true, decide_eq_true_eq] at hd
    have hlow : 48 ≤ d.toNat := hd.1
    have hhigh : d.toNat ≤ 57 := hd.2
    rw [UInt8.toNat_ofNat', Nat.mod_eq_of_lt (by omega)]
    exact hlow
  exact ⟨fun h => absurd (hne _ h) (by decide), fun h => absurd (hne _ h) (by decide)⟩

/-- To the server a single line is one line. -/
theorem OneLine.completeLines {bytes : Bytes} (h : OneLine bytes) :
    ∃ text, Pop.completeLines [] bytes = [text] := by
  obtain ⟨text, ⟨-, hlf⟩, rfl⟩ := h
  have hread := completeLines_line [] hlf []
  rw [List.append_nil] at hread
  exact ⟨_, hread⟩

/-! ## Requests -/

variable [Host]

/-- The base64 engine writes no line breaks. -/
def Host.SingleLine : Prop := ∀ bytes, NoBreak (Host.base64Encode bytes)

theorem Command.noBreak_display (hhost : Host.SingleLine) (command : Command) :
    NoBreak command.display := by
  have hbare (h : ∀ secret, command ≠ .base64 secret) :
      command.display = @Command.display (.bare false) command := by
    cases command with
    | base64 secret => exact absurd rfl (h secret)
    | _ => rfl
  cases command with
  | base64 secret => exact hhost secret
  | _ =>
    rw [hbare nofun]
    decide

theorem Request.noBreak_display (hhost : Host.SingleLine) (request : Request) :
    NoBreak request.display ↔ ∀ arg ∈ request.args, NoBreak arg := by
  have hargs (args : List Bytes) :
      NoBreak (args.flatMap fun arg => 0x20 :: arg) ↔ ∀ arg ∈ args, NoBreak arg := by
    have hcons (arg : Bytes) : NoBreak (0x20 :: arg) ↔ NoBreak arg := by
      rw [← List.singleton_append, noBreak_append]
      exact and_iff_right (by decide)
    induction args with
    | nil => simp
    | cons arg args ih => simp [hcons, ih]
  rw [Request.display, noBreak_append, hargs]
  exact and_iff_right (request.command.noBreak_display hhost)

theorem Request.noBreak_ofCommand (hhost : Host.SingleLine) (command : Command) :
    NoBreak (Request.ofCommand command).display :=
  (Request.noBreak_display hhost _).mpr nofun

theorem Request.noBreak_addArg {α : Type} [Display α] (request : Request) (arg : α) :
    NoBreak (request.addArg arg).display ↔ NoBreak request.display ∧ NoBreak (Display.display arg) := by
  have hspace : NoBreak [0x20] := by decide
  have hdisplay : (request.addArg arg).display =
      request.display ++ ([0x20] ++ Display.display arg) := by
    simp [Request.display, Request.addArg]
  rw [hdisplay, noBreak_append, noBreak_append]
  exact and_congr_right fun _ => and_iff_right hspace

/-- The arguments that a call writes out as they are. The others are numbers, or are
encoded. -/
def ClientOp.arguments : ClientOp → List Bytes
  | .apop name digest => [name, digest]
  | .auth authenticator => [authenticator.mechanism]
  | .login user password => [user, password]
  | .sendRequest request => request.args
  | _ => []

theorem Client.noBreak_authRequest (hhost : Host.SingleLine) (authenticator : Authenticator) :
    NoBreak (authRequest authenticator).display ↔ NoBreak authenticator.mechanism := by
  have hmechanism : NoBreak ((Request.ofCommand .auth).addArg authenticator.mechanism).display ↔
      NoBreak authenticator.mechanism := by
    rw [Request.noBreak_addArg]
    exact and_iff_right (Request.noBreak_ofCommand hhost .auth)
  unfold authRequest
  cases authenticator.auth with
  | none => exact hmechanism
  | some arg =>
    rw [Request.noBreak_addArg, hmechanism]
    exact and_iff_left (hhost arg)

theorem ClientOp.noBreak_requests (hhost : Host.SingleLine) (op : ClientOp)
    (hop : ∀ argument ∈ op.arguments, NoBreak argument) :
    ∀ request ∈ op.requests, NoBreak request.display := by
  have hcommand := Request.noBreak_ofCommand hhost
  have hplain : NoBreak (ascii "PLAIN") := by decide
  have hbytes (bytes : Bytes) : NoBreak (Display.display bytes) ↔ NoBreak bytes := Iff.rfl
  have hauth := Client.noBreak_authRequest hhost
  cases op with
  | uidl msgNumber =>
    cases msgNumber <;> simp [requests, Request.noBreak_addArg, hcommand, Pop.noBreak_display]
  | list msgNumber =>
    cases msgNumber <;> simp [requests, Request.noBreak_addArg, hcommand, Pop.noBreak_display]
  | sendRequest request =>
    simp only [requests, List.mem_singleton, forall_eq]
    exact (Request.noBreak_display hhost request).mpr hop
  | apop name digest =>
    simpa [requests, Request.noBreak_addArg, hcommand, hbytes, arguments] using hop
  | auth authenticator => simpa [requests, hcommand, hauth, arguments] using hop
  | login user password =>
    simpa [requests, Request.noBreak_addArg, hcommand, hbytes, hauth, hplain, arguments,
      Authenticator.plain] using hop
  | _ => simp [requests, Request.noBreak_addArg, hcommand, Pop.noBreak_display]

/-! ## Guarded connection -/

namespace PopStream

/-- What is handed to it has to be a single line on the wire. -/
@[reducible] def guarded : Connection PopStream where
  encode request :=
    if OneLine (request.display ++ endOfLine) then Connection.encode request else crash
  sendBytes buf := if OneLine (buf ++ endOfLine) then Connection.sendBytes buf else crash
  readResponse := Connection.readResponse

theorem guarded_encode {request : Request} (h : NoBreak request.display) :
    guarded.encode request = Connection.encode request := if_pos (oneLine_iff.mpr h)

theorem guarded_encode_crash {request : Request} (h : ¬ NoBreak request.display) :
    guarded.encode request = crash := if_neg (oneLine_iff.not.mpr h)

theorem guarded_sendBytes {buf : Bytes} (h : NoBreak buf) :
    guarded.sendBytes buf = Connection.sendBytes buf := if_pos (oneLine_iff.mpr h)

theorem guarded_exchange {request : Request} (h : NoBreak request.display) :
    @Connection.exchange _ guarded request = Connection.exchange request := by
  unfold Connection.exchange
  rw [guarded_encode h]
  rfl

/-- The lines of a handshake are encoded, or cancel it. -/
theorem guarded_handshake (hhost : Host.SingleLine) (handshake : Handshake) :
    @Handshake.run _ guarded handshake = handshake.run :=
  handshake.run_congr (fun _ => guarded_encode (Request.noBreak_ofCommand hhost _))
    (guarded_sendBytes (by decide)) rfl

theorem guarded_dialog (hhost : Host.SingleLine) {authenticator : Authenticator}
    (h : NoBreak (Client.authRequest authenticator).display) :
    @Client.dialog _ guarded _ authenticator = Client.dialog authenticator := by
  unfold Client.dialog
  simp only [guarded_encode h, guarded_handshake hhost]
  rfl

theorem guarded_upholds (hhost : Host.SingleLine) :
    Client.Upholds instConnectionPopStreamOfHost guarded (fun _ => True)
      (fun request => NoBreak request.display) (fun _ => True) fun _ => True where
  exchange request hrequest := ⟨Keeps.true, fun s _ => by rw [guarded_exchange hrequest]⟩
  dialog authenticator _ hrequest := ⟨Keeps.true, fun s _ => by rw [guarded_dialog hhost hrequest]⟩

end PopStream

open PopStream

/-- A call does the same over a guarded connection. -/
theorem ClientOp.run_guarded (hhost : Host.SingleLine) (op : ClientOp)
    (hop : ∀ argument ∈ op.arguments, NoBreak argument) {c : Client PopStream}
    (hmarks : c.markedAsDel = []) : @ClientOp.run _ _ guarded op c = op.run c :=
  (op.run_agrees (fun _ => trivial) (guarded_upholds hhost) (op.noBreak_requests hhost hop)
    fun _ _ => trivial).eq c ⟨fun _ _ => trivial, hmarks⟩

/-! ## Calls with line breaks -/

/-- A client that may log in, and to which its server has already answered. -/
structure Ahead (c : Client PopStream) (s : PopStream) : Prop where
  inner : c.inner = some s
  state : c.state = .authentication
  greeted : c.greeted = true
  capabilities : c.capabilities = []
  broken : s.stream.broken = none
  queue : s.queue = []
  decodeNeeds : s.decodeNeeds = 0
  buffer : ∃ room, s.buffer = .holding (ascii "+OK\r\n") room

omit [Host] in
theorem exists_ahead : ∃ (stream : Transport) (c : Client PopStream) (s : PopStream),
    @newClient (.bare false) stream = .ok () c ∧ Ahead c s := by
  let stream := answering [ascii "+OK\r\n", ascii "-ERR\r\n+OK\r\n"]
  refine ⟨stream, _, (stateOf (@newClient (.bare false) stream)).inner.getD (.new stream),
    eq_ok_of_value? (by decide +kernel), ?_⟩
  exact {
    inner := by decide +kernel
    state := by decide +kernel
    greeted := by decide +kernel
    capabilities := by decide +kernel
    broken := by decide +kernel
    queue := by decide +kernel
    decodeNeeds := by decide +kernel
    buffer := ⟨2043, by decide +kernel⟩ }

omit [Host] in
theorem Ahead.supply {c : Client PopStream} {s : PopStream} (h : Ahead c s) (reads : List ReadEvent)
    (writes : List WriteEvent) : Ahead (c.supply reads writes) (s.supply reads writes) where
  inner := by rw [Client.supply, h.inner]; rfl
  state := h.state
  greeted := h.greeted
  capabilities := h.capabilities
  broken := h.broken
  queue := h.queue
  decodeNeeds := h.decodeNeeds
  buffer := h.buffer

/-- The answer is there already. -/
theorem readResponse_buffered (htrace : Host.traceEnabled = false) {s : PopStream}
    (hqueue : s.queue = []) (hneeds : s.decodeNeeds = 0) {bytes : Bytes} {room : Nat}
    (hbuffer : s.buffer = .holding bytes room) {command : Command} {text : Text}
    (hparse : Parser.parse bytes command = .ok [] (.message text)) :
    ∃ s', readResponse command s = .ok (.message text) s' ∧ s'.stream = s.stream := by
  obtain ⟨_, _, _, stream, history⟩ := s
  obtain rfl := hqueue
  obtain rfl := hneeds
  subst hbuffer
  have hdecode := decode_eq (s := ⟨.holding bytes room, 0, [command], stream, history⟩)
    (Nat.zero_le _) rfl
  rw [if_neg (by simp), Buffer.holding_cursor, Buffer.holding_take, hparse] at hdecode
  simp only [htrace, Bool.false_eq_true, false_and, if_false, List.length_nil, Nat.not_lt_zero]
    at hdecode
  refine ⟨⟨.holding [] Buffer.chunkSize, 0, [], stream,
    history ++ [.answered command (.message text)]⟩, ?_, rfl⟩
  simp only [readResponse, onQueue, zoom, CommandQueue.add, next, bind_apply, modify_apply,
    List.nil_append, hdecode]
  rfl

/-- The line goes out whole, and its answer is there already. -/
theorem exchange_ahead (htrace : Host.traceEnabled = false) {c : Client PopStream} {s : PopStream}
    (h : Ahead c s) {request : Request} (hdisplay : request.display ≠ [])
    (hwrites : s.stream.writes = takingLine request.display)
    (hparse : Parser.parse (ascii "+OK\r\n") request.command = .ok [] (.message ⟨[]⟩)) :
    ∃ s', Connection.exchange request s = .ok (.message ⟨[]⟩) s' ∧
      s'.stream = { s.stream with writes := [] } := by
  obtain ⟨room, hbuffer⟩ := h.buffer
  obtain ⟨t, hencode, hqueue, hneeds, hbuffer', hstream⟩ : ∃ t, Connection.encode request s = .ok () t ∧
      t.queue = s.queue ∧ t.decodeNeeds = s.decodeNeeds ∧ t.buffer = s.buffer ∧
        t.stream = { s.stream with writes := [] } := by
    refine ⟨{ s with
      stream := { s.stream with writes := [] }
      history := s.history ++ [.sent request.display] ++ [.sent endOfLine] ++
        [.line request.command request.display] }, ?_, rfl, rfl, rfl, rfl⟩
    simp only [Connection.encode, encode, bind_apply, sendBytes_ready h.broken hwrites hdisplay, record,
      modify_apply]
  obtain ⟨s', hread, hstream'⟩ := readResponse_buffered htrace (hqueue.trans h.queue)
    (hneeds.trans h.decodeNeeds) (hbuffer'.trans hbuffer) hparse
  exact ⟨s', bind_eq_ok.mpr ⟨_, _, hencode, hread⟩, hstream'.trans hstream⟩

/-- A request with a line break, on a transport that takes nothing. -/
structure Caught (c : Client PopStream) (s : PopStream) : Prop where
  inner : c.inner = some s
  state : c.state = .authentication
  broken : s.stream.broken = none
  writes : s.stream.writes = []

namespace Caught

variable {c : Client PopStream} {s : PopStream} (h : Caught c s)

include h

omit [Host] in
theorem innerMut {α : Type} {op : Exec Error PopStream α} {x : Exit Error}
    (hop : op s = .error x s) : Client.innerMut op c = .error x c := by
  obtain ⟨inner, capabilities, markedAsDel, greeting, greeted, state⟩ := c
  obtain rfl : inner = some s := h.inner
  obtain rfl : state = .authentication := h.state
  simp [Client.innerMut_apply, zoom, hop]

theorem encode (request : Request) : Connection.encode request s = .error .pending s := by
  simp only [Connection.encode, PopStream.encode, bind_apply, sendBytes_blocked h.broken h.writes]

variable {request : Request}

theorem sendRequest (request : Request) : Client.sendRequest request c = .error .pending c :=
  h.innerMut (by simp only [Connection.exchange, bind_apply, h.encode])

theorem guarded_sendRequest (hrequest : ¬ NoBreak request.display) :
    @Client.sendRequest _ guarded request c = .error .panicked c :=
  h.innerMut (by simp only [Connection.exchange, bind_apply, guarded_encode_crash hrequest, crash_apply])

theorem dialog (authenticator : Authenticator) :
    Client.innerMut (Client.dialog authenticator) c = .error .pending c :=
  h.innerMut (by simp only [Client.dialog, bind_apply, h.encode])

theorem guarded_dialog {authenticator : Authenticator}
    (hrequest : ¬ NoBreak (Client.authRequest authenticator).display) :
    Client.innerMut (@Client.dialog _ guarded _ authenticator) c = .error .panicked c :=
  h.innerMut (by simp only [Client.dialog, bind_apply, guarded_encode_crash hrequest, crash_apply])

end Caught

omit [Host] in
theorem Ahead.caught {c : Client PopStream} {s : PopStream} (h : Ahead c s) :
    Caught (c.supply [] []) (s.supply [] []) :=
  ⟨(h.supply [] []).inner, h.state, h.broken, rfl⟩

/-- The call panics over the guarded connection, and waits over the other one. -/
def GoesOn (op : ClientOp) (c : Client PopStream) : Prop :=
  exit? (@ClientOp.run _ _ guarded op c) = some .panicked ∧ exit? (op.run c) = some .pending

variable {c : Client PopStream} {s : PopStream}

theorem Ahead.goesOn_sendRequest (hhost : Host.SingleLine) (h : Ahead c s) {request : Request}
    (hrequest : ¬ ∀ arg ∈ request.args, NoBreak arg) :
    GoesOn (.sendRequest request) (c.supply [] []) := by
  have hdisplay := (Request.noBreak_display hhost request).not.mpr hrequest
  simp [GoesOn, ClientOp.run, h.caught.guarded_sendRequest hdisplay, h.caught.sendRequest, exit?]

theorem Ahead.goesOn_apop (h : Ahead c s) {name digest : Bytes}
    (hop : ¬ (NoBreak name ∧ NoBreak digest)) : GoesOn (.apop name digest) (c.supply [] []) := by
  have hdisplay : ¬ NoBreak (((Request.ofCommand .apop).addArg name).addArg digest).display := by
    rw [Request.noBreak_addArg, Request.noBreak_addArg]
    exact fun hall => hop ⟨hall.1.2, hall.2⟩
  simp [GoesOn, ClientOp.run, Client.apop, Client.checkClientState, Client.hasReadGreeting,
    h.caught.state, (h.supply [] []).greeted, h.caught.guarded_sendRequest hdisplay,
    h.caught.sendRequest, exit?]

theorem Ahead.goesOn_auth (hhost : Host.SingleLine) (h : Ahead c s) {authenticator : Authenticator}
    (hop : ¬ NoBreak authenticator.mechanism) : GoesOn (.auth authenticator) (c.supply [] []) := by
  have hdisplay := (Client.noBreak_authRequest hhost authenticator).not.mpr hop
  simp [GoesOn, ClientOp.run, Client.auth, Client.checkClientState, Client.hasReadGreeting,
    h.caught.state, (h.supply [] []).greeted, h.caught.guarded_dialog hdisplay, h.caught.dialog, exit?]

/-- The first line of a login can go out and be answered. -/
theorem Ahead.answered (htrace : Host.traceEnabled = false) (h : Ahead c s) (request : Request)
    (hdisplay : request.display ≠ [])
    (hparse : Parser.parse (ascii "+OK\r\n") request.command = .ok [] (.message ⟨[]⟩)) :
    ∃ c' s', Client.sendRequest request (c.supply [] (takingLine request.display)) =
        .ok (.message ⟨[]⟩) c' ∧ c'.greeted = true ∧ Caught c' s' := by
  have hsupply := h.supply [] (takingLine request.display)
  obtain ⟨s', hexchange, hstream⟩ := exchange_ahead htrace hsupply hdisplay rfl hparse
  refine ⟨{ c.supply [] (takingLine request.display) with inner := some s' }, s', ?_, h.greeted, ?_⟩
  · simp only [Client.sendRequest, Client.innerMut_apply, hsupply.inner, hsupply.state, or_true,
      if_true, zoom, hexchange]
  · exact ⟨rfl, h.state, hstream ▸ h.broken, hstream ▸ rfl⟩

theorem Ahead.goesOn_login (hhost : Host.SingleLine) (htrace : Host.traceEnabled = false)
    (h : Ahead c s) {user password : Bytes} (hop : ¬ (NoBreak user ∧ NoBreak password)) :
    ∃ writes, GoesOn (.login user password) (c.supply [] writes) := by
  have hline (command : Command) (arg : Bytes) :
      NoBreak ((Request.ofCommand command).addArg arg).display ↔ NoBreak arg := by
    rw [Request.noBreak_addArg]
    exact and_iff_right (Request.noBreak_ofCommand hhost command)
  by_cases huser : NoBreak user
  · -- `USER` is answered, and the break is in the line with `PASS`.
    have hpass := (hline .pass password).not.mpr fun hpassword => hop ⟨huser, hpassword⟩
    obtain ⟨c', s', hsend, hgreeted, hcaught⟩ :=
      h.answered htrace ((Request.ofCommand .user).addArg user) (List.cons_ne_nil _ _) rfl
    have hguarded : @Client.sendRequest _ guarded _ _ = _ :=
      (congrArg (Client.innerMut · _) (guarded_exchange ((hline .user user).mpr huser))).trans hsend
    have hsupply := h.supply [] (takingLine ((Request.ofCommand .user).addArg user).display)
    refine ⟨takingLine ((Request.ofCommand .user).addArg user).display, ?_⟩
    simp [GoesOn, ClientOp.run, Client.login, Client.loginUserPass, Client.checkClientState,
      Client.hasReadGreeting, Client.hasAuthMechanism, hsupply.state, hsupply.greeted,
      hsupply.capabilities, hsend, hguarded, hcaught.guarded_sendRequest hpass, hcaught.sendRequest,
      exit?]
  · have hcaught := h.caught
    have hsupply := h.supply [] []
    refine ⟨[], ?_⟩
    simp [GoesOn, ClientOp.run, Client.login, Client.loginUserPass, Client.checkClientState,
      Client.hasReadGreeting, Client.hasAuthMechanism, hsupply.state, hsupply.greeted,
      hsupply.capabilities, hcaught.guarded_sendRequest ((hline .user user).not.mpr huser),
      hcaught.sendRequest, exit?]

/-- Each line break in an argument gets to the wire. -/
theorem Ahead.goesOn (hhost : Host.SingleLine) (htrace : Host.traceEnabled = false)
    (h : Ahead c s) {op : ClientOp} (hop : ¬ ∀ argument ∈ op.arguments, NoBreak argument) :
    ∃ writes, GoesOn op (c.supply [] writes) := by
  cases op with
  | sendRequest request => exact ⟨[], h.goesOn_sendRequest hhost hop⟩
  | auth authenticator =>
    exact ⟨[], h.goesOn_auth hhost fun hmechanism =>
      hop (by simpa [ClientOp.arguments] using hmechanism)⟩
  | apop name digest =>
    exact ⟨[], h.goesOn_apop fun hboth => hop (by simpa [ClientOp.arguments] using hboth)⟩
  | login user password =>
    exact h.goesOn_login hhost htrace fun hboth => hop (by simpa [ClientOp.arguments] using hboth)
  | _ => exact absurd (fun _ => nofun) hop

/-- In every run, a call of the operation does the same over the guarded connection: it
hands over single lines only. -/
def ClientOp.InLines (op : ClientOp) : Prop :=
  ∀ [Host], Host.SingleLine → ∀ stream log c, Run stream log c → ∀ reads writes,
    @ClientOp.run _ _ guarded op (c.supply reads writes) = op.run (c.supply reads writes)

omit [Host] in
/-- Each request of an operation is one line on the wire, and to the server, if and only
if there is no line break in the arguments that it writes out as they are. -/
theorem inLines_iff (op : ClientOp) :
    (op.InLines ↔ ∀ argument ∈ op.arguments, NoBreak argument) ∧
      ∀ bytes, OneLine bytes → ∃ text, completeLines [] bytes = [text] := by
  refine ⟨⟨fun hlines => ?_, fun hop _ hhost stream log c hrun reads writes => ?_⟩,
    fun _ => OneLine.completeLines⟩
  · by_contra hop
    obtain ⟨stream, c, s, hnew, hahead⟩ := exists_ahead
    let host : Host := .bare false
    have hhost : Host.SingleLine := fun _ => noBreak_nil
    obtain ⟨writes, hguarded, hwaits⟩ := hahead.goesOn hhost rfl hop
    rw [hlines hhost stream [] c ⟨c, hnew, .nil⟩ [] writes, hwaits] at hguarded
    cases hguarded
  · have hmarks : (c.supply reads writes).markedAsDel = [] := hrun.unmarked
    exact op.run_guarded hhost hop hmarks

omit [Host] in
/-- A user name with a line break in it asks for a message to be deleted. -/
theorem login_two_lines :
    (∃ c : Client PopStream,
      @newClient (.bare false) (answering [ascii "+OK\r\n", ascii "-ERR\r\n"]) = .ok () c ∧
      let c' := stateOf (@ClientOp.run (.bare false) _ (@instConnectionPopStreamOfHost (.bare false))
        (.login (ascii "user\r\nDELE 1") (ascii "secret")) (c.supply [] (answering []).writes))
      sent c'.history = sent c.history ++ ascii "USER user\r\nDELE 1\r\n" ∧
        completeLines [] (sent c'.history) = [ascii "CAPA", ascii "USER user", ascii "DELE 1"]) ∧
    ¬ (ClientOp.login (ascii "user\r\nDELE 1") (ascii "secret")).InLines := by
  refine ⟨⟨_, eq_ok_of_value? (by decide +kernel), by decide +kernel, by decide +kernel⟩, fun h => ?_⟩
  have hsame := @h (.bare false) (fun _ => noBreak_nil)
    (answering [ascii "+OK\r\n", ascii "-ERR\r\n"]) [] _
    ⟨_, eq_ok_of_value? (by decide +kernel), @Calls.nil (.bare false) _⟩ [] (answering []).writes
  exact absurd (congrArg exit? hsame) (by decide +kernel)

end Pop
