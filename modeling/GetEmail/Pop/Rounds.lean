-- SUMMARY: A SASL exchange of any number of rounds reads one reply for each line that it writes.
import GetEmail.Pop.Cancellation
import GetEmail.Pop.Exchanges
import GetEmail.Pop.MessageSize
import GetEmail.Pop.Pace
import GetEmail.Pop.SingleLines

/-!
# Rounds of an exchange

The communicator and the stream each keep a queue of commands, and one of them is a step
ahead: the first challenge is read under a command of its own, and the last reply under
the command that was sent first. All of them are read as replies of the exchange.
-/

namespace Pop

open Exec
open Nom (Bytes ascii crlf lf)

/-! ## Authenticators that work in rounds -/

/-- In each round a challenge is read and an answer is sent. The first error is the last
call. -/
inductive Handshake.Rounds : Handshake → Prop where
  | done : Rounds (.finish (.ok ()))
  | round {next : Except Error Text → Handshake} (secret : Text → Bytes)
      (answered : Text → Except Error Unit → Handshake)
      (hread : ∀ challenge, next (.ok challenge) = .send (secret challenge) (answered challenge))
      (hsent : ∀ challenge, Rounds (answered challenge (.ok ())))
      (hunread : ∀ e, ∃ e', next (.error e) = .finish (.error e'))
      (hunsent : ∀ challenge e, ∃ e', answered challenge (.error e) = .finish (.error e')) :
      Rounds (.nextChallenge next)

/-- One round after the other, each with its own secret, up to the first error -/
def Handshake.rounds : List Bytes → Handshake
  | [] => .finish (.ok ())
  | secret :: secrets => .nextChallenge fun
    | .ok _ => .send secret fun
      | .ok _ => rounds secrets
      | .error e => .finish (.error e)
    | .error e => .finish (.error e)

theorem Handshake.rounds_rounds (secrets : List Bytes) : (rounds secrets).Rounds := by
  induction secrets with
  | nil => exact .done
  | cons secret secrets ih =>
    exact .round (fun _ => secret) _ (fun _ => rfl) (fun _ => ih) (fun e => ⟨e, rfl⟩)
      fun _ e => ⟨e, rfl⟩

theorem Handshake.Rounds.inStep {handshake : Handshake} (h : handshake.Rounds) :
    handshake.InStep true := by
  induction h with
  | done => rfl
  | @round next secret answered hread hsent hunread hunsent ih =>
    refine ⟨rfl, fun result => ?_⟩
    cases result with
    | ok challenge =>
      rw [hread]
      refine ⟨rfl, ih challenge, fun e => ?_⟩
      obtain ⟨e', he'⟩ := hunsent challenge e
      rw [he']
      rfl
    | error e =>
      obtain ⟨e', he'⟩ := hunread e
      rw [he']
      rfl

variable [Host]

/-! ## What `auth` does with its connection -/

namespace Client

variable {κ : Type} [Connection κ] {socket socket' : κ}

/-- The client logs in over this connection. -/
def LoggingIn (socket : κ) (client : Client κ) : Prop :=
  client.inner = some socket ∧ client.state = .authentication

omit [Host] [Connection κ] in
theorem innerMut_loggingIn {α : Type} (op : Exec Error κ α) :
    Triple (LoggingIn socket) (innerMut op)
      (fun a client => ∃ socket', op socket = .ok a socket' ∧ LoggingIn socket' client)
      fun x client => ∃ socket', op socket = .error x socket' ∧ LoggingIn socket' client := by
  rintro client ⟨hinner, hstate⟩
  simp only [innerMut_apply, hinner, hstate, reduceCtorEq, false_or, if_true, zoom]
  cases op socket with
  | ok a socket' => exact ⟨socket', rfl, rfl, rfl⟩
  | error x socket' => exact ⟨socket', rfl, rfl, rfl⟩

omit [Host] in
/-- Whatever comes of the call, the client goes on. -/
theorem updateCapabilities_loggingIn :
    Triple (LoggingIn socket) updateCapabilities
      (fun _ client => ∃ result socket',
        attempt (Connection.exchange (.ofCommand .capa)) socket = .ok result socket' ∧
          LoggingIn socket' client)
      fun x _ => ¬ x.IsError := by
  have hcapa : Triple (LoggingIn socket) (attempt capa)
      (fun _ client => ∃ result socket',
        attempt (Connection.exchange (.ofCommand .capa)) socket = .ok result socket' ∧
          LoggingIn socket' client)
      fun x _ => ¬ x.IsError := by
    refine .attempt (.bind ((innerMut_loggingIn _).consequence (fun _ h => h) (fun _ _ h => h) ?_)
      fun response => ?_)
    · rintro x client ⟨socket', hexchange, hclient⟩
      cases x with
      | error e => exact ⟨.error e, socket', attempt_eq_error.mpr hexchange, hclient⟩
      | pending => exact id
      | panicked => exact id
    · rintro client ⟨socket', hexchange, hclient⟩
      have hcaught : attempt (Connection.exchange (.ofCommand .capa)) socket =
          .ok (.ok response) socket' := by
        rw [attempt, hexchange]
      unfold expect
      cases Response.capability? response with
      | some capabilities => exact ⟨_, socket', hcaught, hclient⟩
      | none => exact ⟨_, socket', hcaught, hclient⟩
  refine .bind hcapa fun capabilities => ?_
  cases capabilities with
  | ok capabilities => exact .modify fun _ h => h
  | error e => exact .pure fun _ h => h

/-- How `auth` ends, and in which state it leaves its connection. -/
inductive AuthEnds (authenticator : Authenticator) (socket : κ) : Except Error Text → κ → Prop where
  | refused {e : Error} : AuthEnds authenticator socket (.error e) socket
  | failed {e : Error} {socket' : κ}
      (hdialog : dialog authenticator socket = .error (.error e) socket') :
      AuthEnds authenticator socket (.error e) socket'
  | unexpected {e : Error} {response : Response} {socket' : κ}
      (hdialog : dialog authenticator socket = .ok response socket') :
      AuthEnds authenticator socket (.error e) socket'
  | confirmed {text : Text} {response : Response} {result : Except Error Response}
      {socket' socket'' : κ} (hdialog : dialog authenticator socket = .ok response socket')
      (hcapa : attempt (Connection.exchange (.ofCommand .capa)) socket' = .ok result socket'') :
      AuthEnds authenticator socket (.ok text) socket''

theorem auth_ends (authenticator : Authenticator) :
    Triple (fun client => client.inner = some socket) (attempt (auth authenticator))
      (fun result client => ∃ socket', client.inner = some socket' ∧
        AuthEnds authenticator socket result socket')
      fun _ _ => True := by
  refine .attempt (.bind (R := fun _ => LoggingIn socket) ?_ fun _ =>
    .bind (R := fun _ => LoggingIn socket) ?_ fun _ =>
      .bind ((innerMut_loggingIn _).consequence (fun _ h => h) (fun _ _ h => h) ?_) fun response => ?_)
  · refine .bind (R := fun client client' => client' = client ∧ client'.inner = some socket)
      (.get fun _ h => ⟨rfl, h⟩) fun client => .ite (fun _ => ?_) fun hstate => ?_
    · exact .fail fun _ h => ⟨socket, h.2, .refused⟩
    · exact .pure fun _ h => ⟨h.2, h.1 ▸ not_not.mp hstate⟩
  · refine .bind (R := fun _ => LoggingIn socket) (.get fun _ h => h) fun client =>
      .ite (fun _ => ?_) fun _ => .pure fun _ h => h
    exact .fail fun _ h => ⟨socket, h.1, .refused⟩
  · rintro x client ⟨socket', hdialog, hclient⟩
    cases x with
    | error e => exact ⟨socket', hclient.1, .failed hdialog⟩
    | pending => trivial
    | panicked => trivial
  · refine .of_pre fun client ⟨socket', hdialog, hclient⟩ => ?_
    refine .bind (R := fun _ => LoggingIn socket') ?_ fun message => .bind
      (updateCapabilities_loggingIn.consequence (fun _ h => h) (fun _ _ h => h) ?_) fun _ =>
        .bind (R := fun _ client => ∃ socket'', client.inner = some socket'' ∧
          AuthEnds authenticator socket (.ok message) socket'') (.modify ?_) fun _ => .pure fun _ h => h
    · rintro _ rfl
      unfold expect
      cases Response.message? response with
      | some message => exact hclient
      | none => exact ⟨socket', hclient.1, .unexpected hdialog⟩
    · intro x client hx
      cases x with
      | error e => exact absurd trivial hx
      | pending => trivial
      | panicked => trivial
    · rintro client ⟨result, socket'', hcapa, hclient⟩
      exact ⟨socket'', hclient.1, .confirmed hdialog hcapa⟩

end Client

/-! ## Exchanges in pace -/

variable {server : Server} {base new : List Event} {s s' : PopStream}

/-- The steps of an exchange keep pace. -/
theorem inPace_lineByLine (hhost : Host.SingleLine) :
    LineByLine instConnectionPopStreamOfHost instConnectionPopStreamOfHost Exit.IsError (lf ∉ ·)
      (InPace server base) where
  secret secret := (Request.noBreak_ofCommand hhost (.base64 secret)).2
  cancel := by decide
  encode request hrequest := .refl (line_inPace hrequest request.command)
  sendBytes buf hbuf := .refl (line_inPace hbuf .auth)
  readResponse command awaited hreads := .refl (readResponse_inPace hreads)

/-- The lines since `base` are lines of a handshake. -/
def Conversing (base : List Event) (s : PopStream) : Prop :=
  ∃ new, s.history = base ++ new ∧ ∀ line ∈ linesOf new, Parser.takesChallenge line.command

omit [Host] in
theorem Conversing.append (hs : Conversing base s) {more : List Event}
    (hhistory : s'.history = s.history ++ more)
    (hmore : ∀ line ∈ linesOf more, Parser.takesChallenge line.command) : Conversing base s' := by
  obtain ⟨new, hnew, hlines⟩ := hs
  refine ⟨new ++ more, by rw [hhistory, hnew, List.append_assoc], fun line hline => ?_⟩
  rw [linesOf_append, List.mem_append] at hline
  exact hline.elim (hlines line) (hmore line)

omit [Host] in
theorem line_conversing {text : Bytes} {command : Command} (hcommand : Parser.takesChallenge command) :
    Keeps (fun _ => True) (Conversing base)
      (do PopStream.sendBytes text; PopStream.record (.line command text)) := by
  refine .bind (((PopStream.sendBytes_sends text).keeps_sent fun hsent hs => ?_).consequence
    (fun _ h => h) (fun _ _ h => h) fun _ _ h _ => h) fun _ => .modify fun s hs => ?_
  · obtain ⟨pieces, hhistory, -⟩ := hsent.history
    exact hs.append hhistory (by simp [linesOf_sent])
  · refine hs.append rfl fun line hline => ?_
    rw [List.mem_singleton.mp hline]
    exact hcommand

/-- Reading writes no line. -/
theorem readResponse_lines (command : Command) (s : PopStream) :
    ∃ more, (stateOf (PopStream.readResponse command s)).history = s.history ++ more ∧
      linesOf more = [] := by
  rcases PopStream.readResponse_history command s with
    ⟨response, ⟨pieces, c, hhistory⟩, -⟩ | ⟨pieces, hhistory⟩
  · refine ⟨_, by rw [hhistory, List.append_assoc], ?_⟩
    rw [linesOf_append, linesOf_received]
    rfl
  · exact ⟨_, hhistory, linesOf_received pieces⟩

theorem readResponse_conversing (command : Command) :
    Keeps (fun _ => True) (Conversing base) (PopStream.readResponse command) := by
  refine (Triple.of_stateOf fun s hs => ?_).consequence (fun _ h => h) (fun _ _ h => h)
    fun _ _ h _ => h
  obtain ⟨more, hhistory, hlines⟩ := readResponse_lines command s
  exact hs.append hhistory (by simp [hlines])

theorem dialog_conversing (authenticator : Authenticator) :
    Keeps (fun _ => True) (Conversing base) (Client.dialog authenticator) := by
  refine .bind (line_conversing (Client.authRequest_command authenticator ▸ rfl)) fun _ =>
    .bind (.zoom (Handshake.run_keeps (fun _ => trivial) (fun secret => line_conversing rfl)
      (line_conversing rfl) readResponse_conversing _) (fun _ h => h) fun _ _ _ h => h) fun _ =>
        readResponse_conversing _

/-! ## One exchange -/

/-- The line of the request was written, and no other. -/
def Wrote (request : Request) (s s' : PopStream) : Prop :=
  ∃ more, s'.history = s.history ++ more ∧ linesOf more = [⟨request.command, request.display⟩]

theorem exchange_wrote (request : Request) (hs : s.stream.Smooth) :
    Triple (· = s) (Connection.exchange request) (fun _ => Wrote request s)
      fun x s' => x.IsError → Wrote request s s' := by
  have hsend : Triple (· = s) (PopStream.sendBytes request.display)
      (fun _ s' => ∃ pieces : List Bytes, s'.history = s.history ++ pieces.map .sent)
      fun x _ => x = .pending := by
    refine ((PopStream.sendBytes_sends request.display s).and
      (PopStream.sendBytes_smooth request.display)).consequence ?_ ?_ fun _ _ h => h.2
    · rintro _ rfl
      exact ⟨rfl, hs⟩
    · rintro _ s' ⟨⟨hsent, -⟩, -⟩
      obtain ⟨pieces, hhistory, -⟩ := hsent.history
      exact ⟨pieces, hhistory⟩
  have hline : Triple (· = s) (Connection.encode request) (fun _ => Wrote request s)
      fun x s' => x.IsError → Wrote request s s' := by
    refine .bind (hsend.consequence (fun _ h => h) (fun _ _ h => h) ?_) fun _ => .modify ?_
    · rintro _ s' rfl hx
      exact hx.elim
    · rintro s' ⟨pieces, hhistory⟩
      refine ⟨_, by rw [hhistory, List.append_assoc], ?_⟩
      rw [linesOf_append, linesOf_sent]
      rfl
  refine .bind hline fun _ => (Triple.of_stateOf fun s' hs' => ?_).consequence (fun _ h => h)
    (fun _ _ h => h) fun _ _ h _ => h
  obtain ⟨more, hmore, hlines⟩ := hs'
  obtain ⟨later, hlater, hnone⟩ := readResponse_lines request.command s'
  refine ⟨more ++ later, hlater.trans (by rw [hmore, List.append_assoc]), ?_⟩
  rw [linesOf_append, hlines, hnone, List.append_nil]

/-! ## Logging in -/

namespace PopStream

/-- Nothing is awaited and nothing is unread, on a transport without errors. -/
structure Quiet (s : PopStream) : Prop where
  sized : s.Sized
  queue : s.queue = []
  unread : s.buffer.cursor = 0
  smooth : s.stream.Smooth

omit [Host] in
theorem Quiet.ready (hs : s.Quiet) : s.Ready [] := by
  obtain ⟨⟨bytes, room, hbuffer, haligned, hmax⟩, hneeds⟩ := hs.sized hs.queue
  have hcursor := hs.unread
  rw [hbuffer, Buffer.holding_cursor] at hcursor
  obtain rfl := List.eq_nil_of_length_eq_zero hcursor
  exact ⟨hs.smooth, hneeds, room, hbuffer, haligned, hmax⟩

theorem Quiet.inPace (hs : s.Quiet) : InPace server s.history none s := by
  refine ⟨[], (List.append_nil _).symm, fun _ => ⟨hs.queue, ⟨rfl, nofun⟩, [], none, [], rfl, rfl, ?_⟩⟩
  exact ⟨.nil, hs.ready, rfl⟩

end PopStream

/-- The line that asks for the capabilities once the exchange has succeeded -/
def capaLines : Except Error Text → List Line
  | .ok _ => [⟨.capa, (Request.ofCommand .capa).display⟩]
  | .error _ => []

/-- Each line was answered, the lines of the exchange as such, and nothing is left over. -/
structure InStep (server : Server) (result : Except Error Text) (new : List Event) (s : PopStream) :
    Prop where
  queue : s.queue = []
  unread : s.buffer.cursor = 0
  counted : (answersOf new).length = (linesOf new).length
  replies : received new = server.answers (textsOf new)
  exchange : ∃ lines answers, linesOf new = lines ++ capaLines result ∧
    (answersOf new).map Prod.fst = answers ++ (capaLines result).map Line.command ∧
    (∀ line ∈ lines, Parser.takesChallenge line.command) ∧
    ∀ command ∈ answers, Parser.takesChallenge command

omit [Host] in
theorem ReadsAs.takesChallenge {command command' : Command} (h : ReadsAs command command')
    (h' : Parser.takesChallenge command') : Parser.takesChallenge command := by
  rcases h with rfl | ⟨hcommand, -⟩
  · exact h'
  · exact hcommand

theorem Paced.inStep {result : Except Error Text} (hs : Paced server new none s)
    (hserver : server.Answers new)
    (hlines : ∃ lines, linesOf new = lines ++ capaLines result ∧
      ∀ line ∈ lines, Parser.takesChallenge line.command) : InStep server result new s := by
  obtain ⟨answered, last, bytes, hall, hlast, hmatched, hready, hreceived⟩ := hs.turn
  obtain rfl : last = none := Option.map_eq_none_iff.mp hlast
  obtain rfl : linesOf new = answered := by simpa using hall
  have htexts : (linesOf new).map Line.bytes = textsOf new := rfl
  -- The server has answered nothing but the lines, and their answers were read.
  obtain rfl : bytes = [] := by
    have htraffic := hserver.traffic
    rw [hs.lined.1, completeLines_wire hs.lined.2, hreceived, htexts] at htraffic
    have hlength := htraffic.length_le
    rw [List.length_append] at hlength
    exact List.eq_nil_of_length_eq_zero (by omega)
  refine ⟨hs.queue, hready.holds.cursor, hmatched.length_eq.symm, ?_, ?_⟩
  · rw [hreceived, htexts, List.append_nil]
  obtain ⟨lines, hlines, hchallenge⟩ := hlines
  have hanswers := hlines ▸ hmatched.flip
  have hcapa := List.forall₂_drop_append _ _ _ hanswers
  have hcommands : ((answersOf new).drop lines.length).map Prod.fst =
      (capaLines result).map Line.command := by
    cases result with
    | error e =>
      rw [List.forall₂_nil_right_iff.mp hcapa]
      rfl
    | ok text =>
      obtain ⟨answer, rest, hreads, hnil, hdrop⟩ := List.forall₂_cons_right_iff.mp hcapa
      rw [hdrop, List.forall₂_nil_right_iff.mp hnil]
      rcases hreads with hcommand | ⟨-, hcommand⟩
      · exact congrArg (fun command => [command]) hcommand
      · cases hcommand
  refine ⟨lines, ((answersOf new).take lines.length).map Prod.fst, hlines, ?_, hchallenge, ?_⟩
  · rw [← hcommands, ← List.map_append, List.take_append_drop]
  · have hexchange := (List.forall₂_and_left _ _).mpr
      ⟨hchallenge, (List.forall₂_take_append _ _ _ hanswers).flip⟩
    have hcommands := hexchange.flip.imp
      (S := fun answer _ => Parser.takesChallenge answer.1 ∧ True)
      fun answer line h => ⟨ReadsAs.takesChallenge h.2 h.1, trivial⟩
    exact List.forall_mem_map.mpr ((List.forall₂_and_left _ _).mp hcommands).1

theorem Server.Answers.serving {server : Server} {history : List Event} (h : server.Answers history)
    (hfitting : server.Fitting history) : Serving server history :=
  ⟨h.accepted, hfitting, sent history, List.prefix_rfl, h.traffic⟩

theorem exchange_inPace (hhost : Host.SingleLine) :
    Keeps Exit.IsError (InPace server base none) (Connection.exchange (.ofCommand .capa)) :=
  ((inPace_lineByLine hhost).exchange (Request.noBreak_ofCommand hhost .capa).2).keeps

/-- Before the exchange has succeeded, its lines are all that was written. -/
theorem InPace.inStep_error (hpace : InPace server base none s) (hlines : Conversing base s)
    (e : Error) : ∃ new, s.history = base ++ new ∧
      (server.Answers new → server.Fitting new → InStep server (.error e) new s) := by
  obtain ⟨new, hnew, hpaced⟩ := hpace
  obtain ⟨new', hnew', hlines⟩ := hlines
  obtain rfl : new' = new := List.append_cancel_left (hnew'.symm.trans hnew)
  refine ⟨new', hnew, fun hserver hfitting => ?_⟩
  exact (hpaced (hserver.serving hfitting)).inStep hserver ⟨_, (List.append_nil _).symm, hlines⟩

/-- Then the capabilities are asked for. -/
theorem InPace.inStep_ok {s'' : PopStream} (hhost : Host.SingleLine)
    (hpace : InPace server base none s') (hlines : Conversing base s') {result : Except Error Response}
    (hcapa : attempt (Connection.exchange (.ofCommand .capa)) s' = .ok result s'') (text : Text) :
    ∃ new, s''.history = base ++ new ∧
      (server.Answers new → server.Fitting new → InStep server (.ok text) new s'') := by
  obtain ⟨new, hnew, hpaced⟩ := ((exchange_inPace hhost).attempt fun _ => trivial).ok hpace hcapa
  obtain ⟨new', hnew', hpaced'⟩ := hpace
  obtain ⟨lined, hlined, hlines⟩ := hlines
  obtain rfl : lined = new' := List.append_cancel_left (hlined.symm.trans hnew')
  obtain ⟨more, rfl⟩ : lined <+: new := by
    have hkeeps : Keeps (fun _ => True) (fun t : PopStream => s'.history <+: t.history)
        (attempt (Connection.exchange (.ofCommand .capa))) :=
      .attempt (fun _ => trivial) (PopStream.exchange_keeps (PopStream.framed_history _) trivial)
    have hprefix := hkeeps.ok List.prefix_rfl hcapa
    rwa [hnew, hnew', List.prefix_append_right_inj] at hprefix
  refine ⟨lined ++ more, hnew, fun hserver hfitting => ?_⟩
  have hserving := hserver.serving hfitting
  refine (hpaced hserving).inStep hserver ⟨linesOf lined, ?_, hlines⟩
  obtain ⟨_, _, _, -, -, -, hready, -⟩ :=
    (hpaced' (hserving.mono (List.prefix_append _ _))).turn
  have hwrote : Triple (· = s') (attempt (Connection.exchange (.ofCommand .capa)))
      (fun _ => Wrote (.ofCommand .capa) s') fun _ _ => True := by
    refine .attempt ((exchange_wrote _ hready.smooth).consequence (fun _ h => h) (fun _ _ h => h) ?_)
    intro x s h
    cases x with
    | error e => exact h trivial
    | pending => trivial
    | panicked => trivial
  obtain ⟨more', hmore', hline⟩ := hwrote.ok rfl hcapa
  obtain rfl : more = more' := by
    rw [hnew, hnew', ← List.append_assoc] at hmore'
    exact List.append_cancel_left hmore'
  rw [linesOf_append, hline]
  rfl

namespace Client

theorem dialog_inPace (hhost : Host.SingleLine) {authenticator : Authenticator}
    (hrounds : authenticator.handle.Rounds) (hmechanism : NoBreak authenticator.mechanism) :
    Triple (InPace server base none) (dialog authenticator) (fun _ => InPace server base none)
      fun x s => x.IsError → InPace server base none s :=
  (((inPace_lineByLine hhost).upholds fun _ => trivial).dialog authenticator hrounds.inStep
    ((noBreak_authRequest hhost authenticator).mpr hmechanism).2).keeps

/-- A run of `auth` reads one reply for each line that it writes. -/
theorem auth_inStep (server : Server) (hhost : Host.SingleLine) {authenticator : Authenticator}
    (hrounds : authenticator.handle.Rounds) (hmechanism : NoBreak authenticator.mechanism)
    {c c' : Client PopStream} (hinner : c.inner = some s) (hs : s.Quiet)
    {result : Except Error Text} (h : attempt (auth authenticator) c = .ok result c') :
    ∃ s' new, c'.inner = some s' ∧ s'.history = s.history ++ new ∧
      (server.Answers new → server.Fitting new → InStep server result new s') := by
  obtain ⟨s', hinner', hends⟩ := (auth_ends authenticator).ok hinner h
  have hstart : Conversing s.history s := ⟨[], (List.append_nil _).symm, nofun⟩
  have hdialogs : Triple (· = s) (dialog authenticator)
      (fun _ s' => InPace server s.history none s' ∧ Conversing s.history s')
      fun x s' => x.IsError → InPace server s.history none s' ∧ Conversing s.history s' := by
    refine ((dialog_inPace hhost hrounds hmechanism).and (dialog_conversing authenticator)).consequence
      ?_ (fun _ _ h => h) fun _ _ h hx => ⟨h.1 hx, h.2 trivial⟩
    rintro _ rfl
    exact ⟨hs.inPace, hstart⟩
  suffices ∃ new, s'.history = s.history ++ new ∧
      (server.Answers new → server.Fitting new → InStep server result new s') by
    obtain ⟨new, hnew⟩ := this
    exact ⟨s', new, hinner', hnew⟩
  cases hends with
  | refused => exact hs.inPace.inStep_error hstart _
  | failed hdialog =>
    obtain ⟨hpace, hlines⟩ := hdialogs.exit rfl hdialog trivial
    exact hpace.inStep_error hlines _
  | unexpected hdialog =>
    obtain ⟨hpace, hlines⟩ := hdialogs.ok rfl hdialog
    exact hpace.inStep_error hlines _
  | confirmed hdialog hcapa =>
    obtain ⟨hpace, hlines⟩ := hdialogs.ok rfl hdialog
    exact hpace.inStep_ok hhost hlines hcapa _

omit [Host] in
theorem ofUser_singleLine : @Host.SingleLine .ofUser := by
  intro bytes
  show NoBreak (if _ then _ else _)
  split
  · decide
  · decide

/-- The greeting has been read. -/
def afterGreeting (socket : PopStream) : Client PopStream :=
  { fresh socket with greeted := true }

omit [Host] in
theorem answering_quiet (answers : List Bytes) : (PopStream.new (answering answers)).Quiet where
  sized := PopStream.new_sized _
  queue := rfl
  unread := rfl
  smooth := ⟨rfl, by simp [answering, PopStream.new], by simp [answering, PopStream.new],
    by simp [answering, PopStream.new]⟩

/-- Answers `AUTH PLAIN` with a challenge, and the answer to it with `+OK`. -/
def challenger : Server := fun texts =>
  match texts.length with
  | 1 => ascii "+ \r\n"
  | 2 => ascii "+OK\r\n"
  | _ => ascii "-ERR\r\n"

/-- The exchange of one round, with that server -/
def oneRound : EStateM.Result (Exit Error) (Client PopStream) (Except Error Text) :=
  attempt (@auth _ (@instConnectionPopStreamOfHost .ofUser) .ofUser
    ⟨ascii "PLAIN", none, .rounds [[0] ++ ascii "user" ++ [0] ++ ascii "secret"]⟩)
    (afterGreeting (.new (answering [ascii "+ \r\n", ascii "+OK\r\n", ascii "-ERR\r\n"])))

omit [Host] in
theorem auth_inStep_round : ∃ c' s', oneRound = .ok (.ok ⟨[]⟩) c' ∧ c'.inner = some s' ∧
    @InStep .ofUser challenger (.ok ⟨[]⟩) s'.history s' := by
  let _ : Host := .ofUser
  let lines : List Line := [⟨.auth, ascii "AUTH PLAIN"⟩,
    ⟨.base64 ([0] ++ ascii "user" ++ [0] ++ ascii "secret"), ascii "AHVzZXIAc2VjcmV0"⟩,
    ⟨.capa, ascii "CAPA"⟩]
  have hrun : oneRound = .ok (.ok ⟨[]⟩) (stateOf oneRound) := eq_ok_of_value? (by decide +kernel)
  have htraffic : (stateOf oneRound).inner.map (fun s : PopStream =>
        (linesOf s.history, received s.history, completeLines [] (sent s.history))) =
      some (lines, challenger.answers (lines.map Line.bytes), lines.map Line.bytes) := by
    decide +kernel
  have hreplies : ∀ asked ∈ lines.inits, asked ≠ [] →
      (Parser.parse (challenger (asked.map Line.bytes)) (lastCommand asked)).rest? = some [] ∧
        (challenger (asked.map Line.bytes)).length ≤ 6 := by
    decide
  obtain ⟨s', new, hinner, hnew, hstep⟩ := auth_inStep challenger ofUser_singleLine
    (Handshake.rounds_rounds _) (by decide) rfl (answering_quiet _) hrun
  obtain rfl : s'.history = new := by simpa [PopStream.new] using hnew
  rw [hinner, Option.map_some, Option.some.injEq, Prod.mk.injEq, Prod.mk.injEq] at htraffic
  obtain ⟨hlines, hreceived, hsent⟩ := htraffic
  refine ⟨_, s', hrun, hinner, hstep ⟨fun asked hasked hne => ?_, ?_⟩ fun asked hasked hne => ?_⟩
  · have hreply := (hreplies asked ((List.mem_inits ..).mpr (hlines ▸ hasked)) hne).1
    obtain ⟨response, hresponse⟩ := Nom.IResult.rest?_eq_some.mp hreply
    exact ⟨response, hresponse⟩
  · rw [hreceived, hsent]
  · have hreply := (hreplies asked ((List.mem_inits ..).mpr (hlines ▸ hasked)) hne).2
    exact fits_of_length ((Nat.add_le_add_right hreply _).trans (by decide)) _

end Client

/-! ## Replies that do not fit -/

namespace Parser

/-- A line behind `+OK` is no challenge. -/
theorem parse_okLine {l : Bytes} (hl : IsLine l) :
    parse (okTag ++ (l ++ (crlf ++ []))) .auth =
      .ok [] (.message ⟨l.dropWhile Nom.isSpace⟩) := by
  have hauth : ∃ e, auth (okTag ++ (l ++ (crlf ++ []))) = .error e := ⟨_, rfl⟩
  obtain ⟨e, hauth⟩ := hauth
  rw [parse_eq, if_neg (by simp [okTag, ascii]), hauth]
  simp only [statusResponse, Nom.bind_apply, status_okTag, Nom.IResult.bind_ok, if_true,
    okResponse, stringResponse, messageParser_line (hl.dropWhile _)]
  rfl

end Parser

namespace Client

/-- A transport that takes the line and brings these bytes -/
def bringing (line w : Bytes) : Transport :=
  ⟨[.data w], [.ready line.length, .ready endOfLine.length, .ready 1], false, none⟩

/-- A reply that the buffer cannot hold is never read, and its command is left over. -/
theorem auth_outgrown {authenticator : Authenticator}
    (hhandle : authenticator.handle = .finish (.ok ())) {w : Bytes} {response : Response}
    (hparse : Parser.parse w .auth = .ok [] response) (hlarge : Buffer.maxSize < w.length)
    {line : Bytes} (hline : (authRequest authenticator).display = line) (hne : line ≠ []) :
    ∃ (c' : Client PopStream) (s' : PopStream),
      attempt (auth authenticator) (afterGreeting (.new (bringing line w))) =
        .ok (.error Buffer.tooLarge) c' ∧
      c'.inner = some s' ∧ s'.queue = [.auth] ∧ linesOf s'.history = [⟨.auth, line⟩] ∧
      answersOf s'.history = [] ∧ sent s'.history = line ++ endOfLine ∧ received s'.history <+: w := by
  let start : PopStream := .new (bringing line w)
  have hsend := PopStream.sendBytes_ready (s := start) (n := 1) rfl rfl hne
  let asked : PopStream := ⟨start.buffer, 0, [], PopStream.delivering [w],
    [.sent line, .sent endOfLine, .line .auth line]⟩
  have hvacant : asked.Vacant := ⟨rfl, rfl, (PopStream.new_vacant (bringing line w)).buffer⟩
  obtain ⟨s', seen, room, hread, hqueue, -, -, hreceived, hseen⟩ :=
    hvacant.outgrown hparse hlarge rfl (List.append_nil w)
  have hencode : Connection.encode (authRequest authenticator) start = .ok () asked := by
    simp only [Connection.encode, PopStream.encode, bind_apply, hline, hsend, authRequest_command]
    rfl
  have hdialog : dialog authenticator start = .error (.error Buffer.tooLarge) s' := by
    rw [dialog_finish hhandle, Connection.exchange, bind_apply, hencode, authRequest_command]
    exact hread
  have hauth : auth authenticator (afterGreeting start) =
      .error (.error Buffer.tooLarge) { afterGreeting start with inner := some s' } := by
    simp [auth, checkClientState, hasReadGreeting, innerMut_apply, afterGreeting, fresh, zoom, hdialog]
  refine ⟨_, s', attempt_eq_error.mpr hauth, rfl, hqueue, ?_⟩
  obtain ⟨pieces, hhistory⟩ : PopStream.OnlyReceived asked.history s' := by
    rcases PopStream.readResponse_history .auth asked with ⟨response, -, hanswer⟩ | honly
    · rw [hread] at hanswer
      exact absurd ((PopStream.finished_inj (a := .error Buffer.tooLarge)).mp hanswer).1.symm
        (PopStream.deliver_ne_tooLarge response)
    · rwa [hread] at honly
  refine ⟨?_, ?_, ?_, ?_⟩
  · rw [hhistory, linesOf_append, linesOf_received]
    rfl
  · rw [hhistory, answersOf_append, answersOf_received]
    rfl
  · rw [hhistory, sent_append, sent_received]
    simp [asked, sent]
  · rw [hreceived]
    exact hseen

/-- `+OK` and a line that fills the buffer -/
def oversized : Bytes := okTag ++ (List.replicate Buffer.maxSize 0x61 ++ (crlf ++ []))

omit [Host] in
theorem oversized_left : ∃ c' s',
    let start : PopStream := .new (bringing (ascii "AUTH X") oversized)
    let authenticator : Authenticator := ⟨ascii "X", none, .finish (.ok ())⟩
    @Host.SingleLine (.bare false) ∧ authenticator.handle.Rounds ∧ NoBreak authenticator.mechanism ∧
      start.Quiet ∧ attempt (@auth _ (@instConnectionPopStreamOfHost (.bare false)) (.bare false)
        authenticator) (afterGreeting start) = .ok (.error Buffer.tooLarge) c' ∧
      c'.inner = some s' ∧ @Server.Answers (.bare false) (fun _ => oversized) s'.history ∧
      s'.queue = [.auth] ∧ (linesOf s'.history).length = 1 ∧ answersOf s'.history = [] := by
  let _ : Host := .bare false
  have hletters : Parser.IsLine (List.replicate Buffer.maxSize 0x61) := by
    intro c hc
    rw [List.eq_of_mem_replicate hc]
    decide
  have hparse := Parser.parse_okLine hletters
  have hlarge : Buffer.maxSize < oversized.length := by
    have hok : okTag.length = 3 := by decide
    rw [oversized, List.length_append, List.length_append, List.length_replicate, hok]
    omega
  rw [← oversized] at hparse
  generalize oversized = w at hparse hlarge ⊢
  have hline : (authRequest ⟨ascii "X", none, .finish (.ok ())⟩).display = ascii "AUTH X" := by
    decide
  obtain ⟨c', s', hrun, hinner, hqueue, hlines, hanswers, hsent, hreceived⟩ :=
    auth_outgrown rfl hparse hlarge hline (by decide)
  refine ⟨c', s', fun _ => noBreak_nil, .done, by decide, ?_, hrun, hinner, ⟨?_, ?_⟩, hqueue,
    by rw [hlines]; rfl, hanswers⟩
  · have hwrites : .ready 0 ∉ [WriteEvent.ready 6, .ready 2, .ready 1] := by decide
    exact ⟨PopStream.new_sized _, rfl, rfl, rfl, by simp [bringing, PopStream.new],
      by simp [bringing, PopStream.new], hwrites⟩
  · intro lines hpre hne
    rw [hlines] at hpre
    obtain ⟨rest, rfl, hrest⟩ := (List.prefix_cons_iff.mp hpre).resolve_left hne
    rw [List.prefix_nil.mp hrest]
    exact ⟨_, hparse⟩
  · have hread : completeLines [] (ascii "AUTH X" ++ endOfLine) = [ascii "AUTH X"] := by decide
    rw [hsent, hread]
    simpa [Server.answers] using hreceived

end Client

end Pop
