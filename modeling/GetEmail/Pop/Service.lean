-- SUMMARY: What the calls of a client come to in a session with a maildrop.
import GetEmail.Pop.Announced
import GetEmail.Pop.Maildrop
import GetEmail.Pop.SingleLines

/-!
# Service

In a session each call of a client comes to what the server's answer to its order says.
The calls are followed over the transcripts of the session.
-/

namespace Pop

open Exec
open Nom (Bytes ascii)

/-! ## Calls as orders -/

namespace Session

/-- What a call makes of the reply to its order -/
def report : ClientOp → Reply → Except Error Value
  | _, .err remark => .error ⟨"Server error", .serverError (Text.display ⟨remark.text⟩)⟩
  | .noop, .ok _ => .ok .unit
  | _, .ok remark => .ok (.text ⟨remark.text⟩)
  | .stat, .counts entry => .ok (.stat entry.stat)
  | _, .counts entry => .ok (.list (.single entry.stat))
  | _, .scans _ entries => .ok (.list (.multiple ⟨none, entries.map Parser.ScanEntry.stat⟩))
  | _, .uid entry => .ok (.uidl (.single entry.uniqueId))
  | _, .uids remark entries =>
    .ok (.uidl (.multiple ⟨some ⟨remark.text⟩, entries.map Parser.IdEntry.uniqueId⟩))
  | _, .body _ letter => .ok (.bytes (Parser.message (letter.lines.map Parser.stuff)))
  | _, .capabilities _ announced => .ok (.capabilities (announced.map Announced.capability))

/-- The order that a call gives, where it gives one -/
def order : ClientOp → Order
  | .noop => .noop
  | .uidl msgNumber => .uidl msgNumber
  | .top msgNumber lines => .top msgNumber lines
  | .dele msgNumber => .dele msgNumber
  | .rset => .rset
  | .retr msgNumber => .retr msgNumber
  | .list msgNumber => .list msgNumber
  | .stat => .stat
  | .quit => .quit
  | .capa => .capa
  | _ => .unknown

def incorrectState : Error :=
  ⟨"The connection is not the right state to use this command", .incorrectStateForCommand⟩

/-- What the calls of a client come to that is not connected -/
def unconnected : ClientOp → Except Error Value
  | .isDeleted _ => .ok (.flag false)
  | .uidl _ | .top _ _ => .error Client.featureUnsupported
  | .login _ _ | .apop _ _ => .error incorrectState
  | _ => .error Client.notConnected

variable (s : Session)

/-- The capabilities that the server announces -/
def capabilities : List Capability := s.maildrop.announced.map Announced.capability

/-- It announces the PLAIN mechanism. -/
def offersPlain : Bool := s.capabilities.any fun
  | .sasl supportedMechanisms => supportedMechanisms.any fun supportedMechanism =>
    Client.toAsciiLowercase supportedMechanism = Client.toAsciiLowercase (ascii "PLAIN")
  | _ => false

/-- The PLAIN mechanism lets the credentials in. -/
def TakesPlain (user password : Bytes) : Prop :=
  s.offersPlain = true ∧ [0] ++ user ++ [0] ++ password = s.maildrop.plainResponse

/-- `USER` and `PASS` let the credentials in. -/
def Takes (user password : Bytes) : Prop :=
  user = s.maildrop.user ∧ password = s.maildrop.password

instance (user password : Bytes) : Decidable (s.TakesPlain user password) :=
  inferInstanceAs (Decidable (_ ∧ _))

instance (user password : Bytes) : Decidable (s.Takes user password) :=
  inferInstanceAs (Decidable (_ ∧ _))

def loggedIn : Session := { s with phase := .transaction [] }

variable [Host]

/-- The order of the PLAIN mechanism -/
def plainOrder (user password : Bytes) : Order :=
  .authPlain (Host.base64Encode ([0] ++ user ++ [0] ++ password))

def login (user password : Bytes) : Except Error Value × Session :=
  let passRemark := s.maildrop.remark (.authorization (some user)) (.pass password)
  if s.TakesPlain user password then
    (.ok (.texts ⟨(s.remark (plainOrder user password)).text⟩ ⟨[]⟩), s.loggedIn)
  else if s.Takes user password then
    (.ok (.texts ⟨(s.remark (.user user)).text⟩ ⟨passRemark.text⟩), s.loggedIn)
  else (report (.login user password) (.err passRemark), { s with phase := .authorization none })

/-- The order is answered. -/
def ask (op : ClientOp) (order : Order) : Except Error Value × Session :=
  (report op (s.answer order).1, (s.answer order).2)

/-- What the call comes to, and the session behind it -/
def perform (op : ClientOp) : Except Error Value × Session :=
  match s.phase, op with
  | .update, op => (unconnected op, s)
  | _, .isDeleted _ => (.ok (.flag false), s)
  | .authorization _, .login user password => s.login user password
  | .transaction _, .login _ _ => (.error incorrectState, s)
  | .transaction _, .apop _ _ => (.error incorrectState, s)
  | _, .uidl msgNumber =>
    if .uidl ∈ s.capabilities then s.ask (.uidl msgNumber) (.uidl msgNumber)
    else (.error Client.featureUnsupported, s)
  | _, .top msgNumber lines =>
    if .top ∈ s.capabilities then s.ask (.top msgNumber lines) (.top msgNumber lines)
    else (.error Client.featureUnsupported, s)
  | _, op => s.ask op (order op)

/-- The lines of `USER` and `PASS`, and of the request for the capabilities behind them -/
def userPassLines (user password : Bytes) : List Bytes :=
  ((Request.ofCommand .user).addArg user).display ::
    ((Request.ofCommand .pass).addArg password).display ::
      if s.Takes user password then [(Request.ofCommand .capa).display] else []

/-- The lines of `login` -/
def loginLines (user password : Bytes) : List Bytes :=
  let plain := (Client.authRequest (.plain user password)).display
  if s.TakesPlain user password then [plain, (Request.ofCommand .capa).display]
  else if s.offersPlain then plain :: s.userPassLines user password
  else s.userPassLines user password

/-- The lines that the call writes -/
def lines (op : ClientOp) : List Bytes :=
  match s.phase, op with
  | .update, _ => []
  | .authorization _, .login user password => s.loginLines user password
  | .transaction _, .login _ _ => []
  | .transaction _, .apop _ _ => []
  | _, .apop name digest => [(((Request.ofCommand .apop).addArg name).addArg digest).display]
  | _, .uidl msgNumber =>
    if .uidl ∈ s.capabilities then (ClientOp.uidl msgNumber).requests.map Request.display else []
  | _, .top msgNumber lines =>
    if .top ∈ s.capabilities then (ClientOp.top msgNumber lines).requests.map Request.display else []
  | _, op => op.requests.map Request.display

end Session

/-! ## Requests -/

variable [Host]

/-- The replies are short enough for every buffer. -/
def Brief (exchanges : List Exchange) : Prop :=
  ∀ exchange ∈ exchanges, exchange.reply.length + Parser.longest ≤ Buffer.maxSize + 1

instance (exchanges : List Exchange) : Decidable (Brief exchanges) :=
  List.decidableBAll _ exchanges

namespace Client

/-- The client in a session that goes on with these lines -/
def on (d : Client Transcript) (s : Session) (lines : List Bytes) : Client Transcript :=
  { d with inner := some ⟨none, s.dialogue lines⟩ }

/-- `expect`, as a value -/
def expecting {α : Type} (kind : Response → Option α) (expected : String) (response : Response) :
    Except Error α :=
  match kind response with
  | some a => .ok a
  | none => .error ⟨"Did not received the expected " ++ expected, .unexpectedResponse⟩

omit [Host] in
theorem expect_settled {α κ : Type} (kind : Response → Option α) (expected : String)
    (response : Response) (d : Client κ) :
    expect kind expected response d = settled (expecting kind expected response) d := by
  unfold expect expecting
  cases kind response <;> rfl

variable {s : Session} {d : Client Transcript} {lines : List Bytes}

/-- A request is answered by the session. -/
theorem sendRequest_settled {request : Request} {order : Order}
    (hstate : d.state = .transaction ∨ d.state = .authentication)
    (horder : Order.ofLine request.display = order)
    (hcommand : ∀ command ∈ order.command?, command = request.command)
    (hbrief : Brief (s.dialogue (request.display :: lines))) :
    sendRequest request (d.on s (request.display :: lines)) =
      settled (PopStream.deliver (s.answer order).1.response) (d.on (s.answer order).2 lines) := by
  subst horder
  have hparse := Reply.parse_bytes (Session.answer_answers (s := s) hcommand) []
  rw [List.append_nil] at hparse
  have hresponse : Transcript.response? request.command
      (s.answer (.ofLine request.display)).1.bytes =
        some (s.answer (.ofLine request.display)).1.response :=
    Transcript.response?_eq_some.mpr ⟨hparse, hbrief _ List.mem_cons_self⟩
  have hexchange : Connection.exchange request
      (⟨none, s.dialogue (request.display :: lines)⟩ : Transcript) =
        settled (PopStream.deliver (s.answer (.ofLine request.display)).1.response)
          ⟨none, (s.answer (.ofLine request.display)).2.dialogue lines⟩ := by
    simp only [Connection.exchange, Connection.encode, Connection.readResponse, bind_apply,
      Transcript.writeLine, Session.dialogue, get_apply, if_true, modify_apply, Transcript.readReply,
      Option.bind_some, hresponse]
    cases PopStream.deliver (s.answer (.ofLine request.display)).1.response <;> rfl
  rw [sendRequest, innerMut_apply]
  simp only [on, if_pos hstate, zoom, hexchange]
  cases PopStream.deliver (s.answer (.ofLine request.display)).1.response <;> rfl

/-- A request, and a response of the expected kind -/
theorem request_settled {α : Type} {request : Request} {order : Order}
    (kind : Response → Option α) (expected : String)
    (hstate : d.state = .transaction ∨ d.state = .authentication)
    (horder : Order.ofLine request.display = order)
    (hcommand : ∀ command ∈ order.command?, command = request.command)
    (hbrief : Brief (s.dialogue (request.display :: lines))) :
    (do expect kind expected (← sendRequest request)) (d.on s (request.display :: lines)) =
      settled (PopStream.deliver (s.answer order).1.response >>= expecting kind expected)
        (d.on (s.answer order).2 lines) :=
  bind_settled (sendRequest_settled hstate horder hcommand hbrief) fun _ => expect_settled _ _ _ _

omit [Host] in
theorem isDeleted_unmarked {κ : Type} {d : Client κ} (h : d.markedAsDel = []) (msgNumber : Nat) :
    isDeleted msgNumber d = .ok false d := by
  have hsame : { d with markedAsDel := [] } = d := by rw [← h]
  simp [isDeleted, h, hsame]

omit [Host] in
theorem checkDeleted_unmarked {κ : Type} {d : Client κ} (h : d.markedAsDel = []) (msgNumber : Nat) :
    checkDeleted msgNumber d = .ok () d := by
  simp [checkDeleted, isDeleted_unmarked h]

omit [Host] in
theorem checkCapability_apply {κ : Type} (d : Client κ) (capability : Capability) :
    checkCapability [capability] d =
      if capability ∈ d.capabilities then .ok () d else .error (.error featureUnsupported) d := by
  by_cases h : capability ∈ d.capabilities
  · have hhas : d.hasCapability [capability] = true :=
      (hasCapability_eq_true d [capability]).mpr ⟨List.nodup_singleton _, by simpa using h⟩
    simp [checkCapability, hhas, h]
  · have hhas : d.hasCapability [capability] = false := by
      rw [← Bool.not_eq_true, hasCapability_eq_true]
      simpa using h
    simp [checkCapability, hhas, h]

end Client

/-! ## Calls of one request -/

namespace Session

open Client

variable {s : Session} {d : Client Transcript} {lines : List Bytes}

/-- The call makes of each reply to its command, if that is not an error, what the client
makes of a response of this kind. -/
def Makes {α : Type} (op : ClientOp) (command : Command) (kind : Response → Option α)
    (value : α → Value) : Prop :=
  ∀ reply : Reply, reply.Answers command → (∀ remark, reply ≠ .err remark) →
    ∃ a, kind reply.response = some a ∧ report op reply = .ok (value a)

omit [Host] in
theorem Makes.reported {α : Type} {op : ClientOp} {command : Command} {kind : Response → Option α}
    {value : α → Value} (h : Makes op command kind value) {reply : Reply}
    (hanswers : reply.Answers command) (expected : String) :
    value <$> (PopStream.deliver reply.response >>= expecting kind expected) = report op reply := by
  by_cases herr : ∃ remark, reply = .err remark
  · obtain ⟨remark, rfl⟩ := herr
    cases op <;> rfl
  · obtain ⟨a, hkind, hreport⟩ := h reply hanswers fun remark heq => herr ⟨remark, heq⟩
    have hdeliver : PopStream.deliver reply.response = .ok reply.response := by
      cases reply with
      | err remark => exact absurd ⟨remark, rfl⟩ herr
      | _ => rfl
    rw [hdeliver, hreport]
    simp only [bind, Except.bind, expecting, hkind]
    rfl

theorem request_performed {α : Type} {op : ClientOp} {request : Request}
    {kind : Response → Option α} {expected : String} {value : α → Value}
    (hstate : d.state = .transaction ∨ d.state = .authentication)
    (horder : Order.ofLine request.display = order op)
    (hcommand : (order op).command? = some request.command)
    (hmakes : Makes op request.command kind value)
    (hbrief : Brief (s.dialogue (request.display :: lines))) :
    (value <$> do expect kind expected (← sendRequest request)) (d.on s (request.display :: lines)) =
      settled (s.ask op (order op)).1 (d.on (s.ask op (order op)).2 lines) := by
  have hanswers : ∀ command ∈ (order op).command?, command = request.command := by
    simp [hcommand]
  rw [map_settled value (request_settled kind expected hstate horder hanswers hbrief),
    hmakes.reported (answer_answers hanswers)]
  rfl

omit [Host] in
theorem makes_stat : Makes .stat .stat Response.stat? .stat := by
  intro reply h hne
  cases reply with
  | counts entry => exact ⟨_, rfl, rfl⟩
  | err remark => exact absurd rfl (hne remark)
  | _ => simp [Reply.Answers] at h

omit [Host] in
theorem makes_list (msgNumber : Option Nat) : Makes (.list msgNumber) .list Response.list? .list := by
  intro reply h hne
  cases reply with
  | counts entry => exact ⟨_, rfl, rfl⟩
  | scans remark entries => exact ⟨_, rfl, rfl⟩
  | err remark => exact absurd rfl (hne remark)
  | _ => simp [Reply.Answers] at h

omit [Host] in
theorem makes_uidl (msgNumber : Option Nat) : Makes (.uidl msgNumber) .uidl Response.uidl? .uidl := by
  intro reply h hne
  cases reply with
  | uid entry => exact ⟨_, rfl, rfl⟩
  | uids remark entries => exact ⟨_, rfl, rfl⟩
  | err remark => exact absurd rfl (hne remark)
  | _ => simp [Reply.Answers] at h

omit [Host] in
theorem makes_bytes {op : ClientOp} {command : Command} (h : command = .retr ∨ command = .top) :
    Makes op command Response.bytes? .bytes := by
  intro reply hanswers hne
  cases reply with
  | body remark letter => exact ⟨_, rfl, by cases op <;> rfl⟩
  | err remark => exact absurd rfl (hne remark)
  | _ => rcases h with rfl | rfl <;> simp [Reply.Answers] at hanswers

omit [Host] in
theorem makes_capa : Makes .capa .capa Response.capability? .capabilities := by
  intro reply h hne
  cases reply with
  | capabilities remark announced => exact ⟨_, rfl, rfl⟩
  | err remark => exact absurd rfl (hne remark)
  | _ => simp [Reply.Answers] at h

omit [Host] in
/-- The replies to the other commands are texts. -/
theorem makes_text (op : ClientOp) {command : Command} (hop : ∀ remark, report op (.ok remark) =
      .ok (.text ⟨remark.text⟩)) (h : command ∈ [.dele, .rset, .quit]) :
    Makes op command Response.message? .text := by
  intro reply hanswers hne
  cases reply with
  | ok remark => exact ⟨_, rfl, hop remark⟩
  | err remark => exact absurd rfl (hne remark)
  | _ =>
    simp only [List.mem_cons, List.not_mem_nil, or_false] at h
    rcases h with rfl | rfl | rfl <;> simp [Reply.Answers] at hanswers

end Session

end Pop
