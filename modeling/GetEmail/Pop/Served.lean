-- SUMMARY: Over any network, the calls of a client come to what the sessions of its maildrop say.
import GetEmail.Base64
import GetEmail.Pop.Conversation
import GetEmail.Pop.ServiceLogin

/-!
# Served clients

A client is made and calls operations, while networks bring it what the server answers to
its lines: whole or in pieces, at once or with delays, and maybe not to the end.
-/

namespace Pop

open Exec
open Nom (Bytes ascii)

namespace Session

variable [Host]

/-- The calls, one after the other, with what they come to, and the session behind them -/
def performAll (s : Session) : List ClientOp → Log × Session
  | [] => ([], s)
  | op :: ops =>
    let (result, s') := s.perform op
    let (log, s'') := s'.performAll ops
    ((op, result.mapError .error) :: log, s'')

theorem performAll_concat (s : Session) (ops : List ClientOp) (op : ClientOp) :
    s.performAll (ops ++ [op]) = ((s.performAll ops).1 ++
      [(op, ((s.performAll ops).2.perform op).1.mapError .error)],
      ((s.performAll ops).2.perform op).2) := by
  induction ops generalizing s with
  | nil => rfl
  | cons op' ops ih =>
    simp only [List.cons_append, performAll, ih]

/-! ## The session behind a call -/

variable {s : Session}

/-- A call of one request leaves the session that its order leaves. -/
theorem after_request {op : ClientOp} {request : Request} (hop : op.requests = [request])
    (hplain : Plain op) : s.after (op.requests.map Request.display) = (s.ask op (order op)).2 := by
  rw [hop, List.map_singleton, after, order_read hop hplain]
  rfl

theorem capa_answer {s : Session} (h : s.phase ≠ .update) :
    (s.answer (.ofLine (Request.ofCommand .capa).display)).2 = s := by
  have horder : Order.ofLine (Request.ofCommand .capa).display = .capa :=
    line_bare .capa (by decide)
  obtain ⟨drop, phase⟩ := s
  rw [horder]
  cases phase with
  | update => exact absurd rfl h
  | _ => rfl

theorem after_userPass (drop : Maildrop) (name : Option Bytes) (user password : Bytes) :
    after ⟨drop, .authorization name⟩ (userPassLines ⟨drop, .authorization name⟩ user password) =
      if Takes ⟨drop, .authorization name⟩ user password then ⟨drop, .transaction []⟩
      else ⟨drop, .authorization none⟩ := by
  obtain ⟨huser, hpass⟩ := userPass_orders user password
  have hanswer : answer ⟨drop, .authorization name⟩ (.user user) =
      (.ok (drop.remark (.authorization name) (.user user)), ⟨drop, .authorization (some user)⟩) := rfl
  rw [userPassLines, after, huser, hanswer, after, hpass, answer_pass name]
  by_cases htakes : Takes ⟨drop, .authorization name⟩ user password
  · simp only [if_pos htakes, after]
    exact capa_answer (by simp)
  · simp only [if_neg htakes, after]

theorem after_login (hdecode : ∀ bytes, Host.base64Decode (Host.base64Encode bytes) = some bytes)
    (drop : Maildrop) (name : Option Bytes) (user password : Bytes) :
    after ⟨drop, .authorization name⟩ (loginLines ⟨drop, .authorization name⟩ user password) =
      (login ⟨drop, .authorization name⟩ user password).2 := by
  have huserPass := after_userPass drop name user password
  rw [loginLines, login]
  by_cases htakesPlain : TakesPlain ⟨drop, .authorization name⟩ user password
  · rw [if_pos htakesPlain, if_pos htakesPlain, after, plain_order, answer_plain hdecode,
      if_pos htakesPlain.2]
    exact capa_answer (by simp)
  · have hafter : after ⟨drop, .authorization name⟩
        (if offersPlain ⟨drop, .authorization name⟩ = true then
          (Client.authRequest (.plain user password)).display ::
            userPassLines ⟨drop, .authorization name⟩ user password
        else userPassLines ⟨drop, .authorization name⟩ user password) =
        after ⟨drop, .authorization name⟩ (userPassLines ⟨drop, .authorization name⟩ user password) := by
      by_cases hoffers : offersPlain ⟨drop, .authorization name⟩ = true
      · have hresponse : [0] ++ user ++ [0] ++ password ≠ drop.plainResponse :=
          fun hresponse => htakesPlain ⟨hoffers, hresponse⟩
        rw [if_pos hoffers, after, plain_order, answer_plain hdecode, if_neg hresponse]
      · rw [if_neg hoffers]
    rw [if_neg htakesPlain, if_neg htakesPlain, hafter, huserPass]
    by_cases htakes : Takes ⟨drop, .authorization name⟩ user password
    · rw [if_pos htakes, if_pos htakes]
      rfl
    · rw [if_neg htakes, if_neg htakes]

/-- The server is behind the lines of a call where the call says. -/
theorem after_lines (hdecode : ∀ bytes, Host.base64Decode (Host.base64Encode bytes) = some bytes)
    (s : Session) {op : ClientOp} (hop : Plain op) : s.after (s.lines op) = (s.perform op).2 := by
  by_cases h : s.phase = .update
  · obtain ⟨drop, phase⟩ := s
    obtain rfl : phase = .update := h
    rfl
  have hask {op : ClientOp} {request : Request} (hop : op.requests = [request]) (hplain : Plain op)
      (hcall : s.perform op = s.ask op (order op) ∧ s.lines op = op.requests.map Request.display) :
      s.after (s.lines op) = (s.perform op).2 := by
    rw [hcall.1, hcall.2, after_request hop hplain]
  cases op with
  | auth authenticator => exact absurd hop id
  | sendRequest request => exact absurd hop id
  | isDeleted msgNumber =>
    obtain ⟨drop, phase⟩ := s
    cases phase with
    | update => exact absurd rfl h
    | _ => rfl
  | apop name digest =>
    obtain ⟨drop, phase⟩ := s
    cases phase with
    | update => exact absurd rfl h
    | authorization name' =>
      have horder := apop_order name digest
      change after _ [_] = _
      rw [after, horder]
      rfl
    | transaction marked => rfl
  | login user password =>
    obtain ⟨drop, phase⟩ := s
    cases phase with
    | update => exact absurd rfl h
    | authorization name => exact after_login hdecode drop name user password
    | transaction marked => rfl
  | uidl msgNumber =>
    obtain ⟨hperform, hlines⟩ := perform_uidl h msgNumber
    by_cases hcapability : Capability.uidl ∈ s.capabilities
    · rw [if_pos hcapability] at hperform hlines
      cases msgNumber with
      | none => exact hask rfl trivial ⟨hperform, hlines⟩
      | some number => exact hask rfl trivial ⟨hperform, hlines⟩
    · rw [if_neg hcapability] at hperform hlines
      rw [hperform, hlines]
      rfl
  | top msgNumber count =>
    obtain ⟨hperform, hlines⟩ := perform_top h msgNumber count
    by_cases hcapability : Capability.top ∈ s.capabilities
    · rw [if_pos hcapability] at hperform hlines
      exact hask rfl trivial ⟨hperform, hlines⟩
    · rw [if_neg hcapability] at hperform hlines
      rw [hperform, hlines]
      rfl
  | list msgNumber =>
    have hcall := perform_ask h (.list msgNumber) trivial
    cases msgNumber with
    | none => exact hask rfl trivial hcall
    | some number => exact hask rfl trivial hcall
  | _ => exact hask rfl trivial (perform_ask h _ trivial)

/-! ## The client of a session as a transcript's -/

variable {greeting : Option Text} {lines : List Bytes}

theorem client_proceed (s : Session) : (s.client greeting []).proceed (s.dialogue lines) =
    s.client greeting lines := by
  obtain ⟨drop, phase⟩ := s
  cases phase <;> rfl

theorem client_finished (s : Session) : (s.client greeting []).Finished := by
  obtain ⟨drop, phase⟩ := s
  intro t ht
  cases phase <;> cases ht <;> rfl

theorem dialogue_lines (s : Session) (lines : List Bytes) :
    (s.dialogue lines).map Exchange.line = lines := by
  induction lines generalizing s with
  | nil => rfl
  | cons line lines ih => simp [dialogue, ih]

end Session

variable [Host]

/-- What a server sends when a client connects -/
def Maildrop.greeting (drop : Maildrop) : Bytes := (Reply.ok drop.welcome).bytes

/-- The session that a server opens -/
def Maildrop.open (drop : Maildrop) : Session := ⟨drop, .authorization none⟩

/-- The first line of a client, which asks for the capabilities -/
def firstLine : Bytes := (Request.ofCommand .capa).display

/-- The transcript of a client that is made, and goes on with these lines -/
def Maildrop.opening (drop : Maildrop) (lines : List Bytes) : Transcript :=
  .opening drop.greeting (drop.open.dialogue (firstLine :: lines))

/-- What a server sends is short enough when it is sent these lines behind the first one. -/
def Maildrop.Brief (drop : Maildrop) (lines : List Bytes) : Prop :=
  drop.greeting.length + Parser.longest ≤ Buffer.maxSize + 1 ∧
    Pop.Brief (drop.open.dialogue (firstLine :: lines))

instance (drop : Maildrop) (lines : List Bytes) : Decidable (drop.Brief lines) :=
  inferInstanceAs (Decidable (_ ∧ _))

/-- A client is made in the session that the server opens. -/
theorem Maildrop.created {drop : Maildrop} {lines : List Bytes} (hbrief : drop.Brief lines) :
    Client.createClientFromSocket (drop.opening lines) =
      .ok () (drop.open.client (some ⟨drop.welcome.text⟩) lines) := by
  have hparse : Parser.parse (drop.greeting ++ []) .greet = .ok [] (.message ⟨drop.welcome.text⟩) :=
    Reply.parse_bytes (by simp [Reply.Answers]) []
  rw [List.append_nil] at hparse
  have hresponse : Transcript.response? .greet drop.greeting = some (.message ⟨drop.welcome.text⟩) :=
    Transcript.response?_eq_some.mpr ⟨hparse, hbrief.1⟩
  have hread : Client.readGreeting (Client.fresh (drop.opening lines)) = .ok ⟨drop.welcome.text⟩
      ((⟨none, [], [], some ⟨drop.welcome.text⟩, true, .authentication⟩ : Client Transcript).on
        drop.open (firstLine :: lines)) := by
    have hreply : Transcript.readReply .greet (drop.opening lines) =
        .ok (.message ⟨drop.welcome.text⟩) ⟨none, drop.open.dialogue (firstLine :: lines)⟩ := by
      simp only [Transcript.readReply, bind_apply, get_apply, Maildrop.opening, Transcript.opening,
        Option.bind_some, hresponse]
      rfl
    have hinner : Client.innerMut (Connection.readResponse .greet) (Client.fresh (drop.opening lines)) =
        .ok (.message ⟨drop.welcome.text⟩)
          (Client.fresh ⟨none, drop.open.dialogue (firstLine :: lines)⟩) := by
      rw [Client.innerMut_apply]
      simp only [Client.fresh, zoom, Connection.readResponse, hreply]
      rfl
    simp only [Client.readGreeting, bind_apply, get_apply, Client.fresh, Bool.false_eq_true, if_false]
    rw [← Client.fresh, hinner]
    rfl
  have hcapa := Session.updateCapabilities_on (s := drop.open)
    (d := ⟨none, [], [], some ⟨drop.welcome.text⟩, true, .authentication⟩) lines (.inr rfl)
    (by simp [Maildrop.open])
    hbrief.2
  rw [Client.createClientFromSocket, Client.createClient, bind_apply, hread]
  exact hcapa

/-- The calls of a client, over networks that bring what a server of the maildrop answers,
with the lines that the client was to write and the session that is behind them. -/
inductive Maildrop.Serves (drop : Maildrop) : Log → List Bytes → Session → Client PopStream → Prop where
  | opened {stream : Transport} {c : Client PopStream} (hsmooth : stream.Smooth)
      (hbrief : drop.Brief []) (hreads : incoming stream.reads <+: (drop.opening []).replies)
      (hclient : newClient stream = .ok () c) : Serves drop [] [firstLine] drop.open c
  | call {log : Log} {lines : List Bytes} {s : Session} {c : Client PopStream}
      (h : Serves drop log lines s c) {op : ClientOp} (hop : Session.Plain op)
      (hlines : ∀ line ∈ s.lines op, NoBreak line) (hbrief : Pop.Brief (s.dialogue (s.lines op)))
      {reads : List ReadEvent} {writes : List WriteEvent} (hreliable : Reliable reads writes)
      (hreads : incoming reads <+: (s.dialogue (s.lines op)).flatMap Exchange.reply) :
      Serves drop (log ++ [(op, outcome (op.run (c.supply reads writes)))]) (lines ++ s.lines op)
        (s.after (s.lines op)) (stateOf (op.run (c.supply reads writes)))

omit [Host] in
theorem ended_settled {α κ : Type} (a : Except Error α) (c : Client κ) :
    Ended (outcome (settled a c)) := by
  intro x hx
  cases a with
  | ok a => cases hx
  | error e => cases hx; trivial

/-- The run beside the transcripts of its session -/
theorem Maildrop.Serves.conversation
    (hdecode : ∀ bytes, Host.base64Decode (Host.base64Encode bytes) = some bytes) {drop : Maildrop}
    {log : Log} {lines : List Bytes} {s : Session} {c : Client PopStream}
    (h : drop.Serves log lines s c) :
    s = (drop.open.performAll (log.map Prod.fst)).2 ∧
      Conversation log (drop.open.performAll (log.map Prod.fst)).1 lines c
        (s.client (some ⟨drop.welcome.text⟩) []) := by
  induction h with
  | opened hsmooth hbrief hreads hclient =>
    refine ⟨rfl, ?_⟩
    have hopened := Conversation.opened hsmooth hreads hclient (Maildrop.created hbrief)
      (Session.client_finished drop.open)
    rwa [Session.dialogue_lines] at hopened
  | @call log lines s c h op hop hlines hbrief reads writes hreliable hreads ih =>
    obtain ⟨hs, hconversation⟩ := ih
    have hperforms := Session.performs hdecode s hop (some ⟨drop.welcome.text⟩) []
      (by rwa [List.append_nil])
    rw [List.append_nil, ← Session.client_proceed] at hperforms
    have hafter := Session.after_lines hdecode s hop
    have hplayed : Ended (outcome (op.run ((s.client (some ⟨drop.welcome.text⟩) []).proceed
        (s.dialogue (s.lines op))))) := by
      rw [hperforms]
      exact ended_settled _ _
    have hfinished : (stateOf (op.run ((s.client (some ⟨drop.welcome.text⟩) []).proceed
        (s.dialogue (s.lines op))))).Finished := by
      rw [hperforms, stateOf_settled]
      exact Session.client_finished _
    have hcall := hconversation.call op hreliable hreads hplayed hfinished
    rw [hperforms, stateOf_settled, outcome_settled, Session.dialogue_lines] at hcall
    rw [List.map_append, List.map_singleton, Session.performAll_concat, ← hs, hafter]
    exact ⟨rfl, hcall⟩

omit [Host] in
/-- A client beside one whose exchanges were all made has written their lines. -/
theorem Client.Twin.texts {lines : List Bytes} {c : Client PopStream} {d : Client Transcript}
    (h : Client.Twin (PopStream.Brings lines) c d) (hfinished : d.Finished) :
    ∀ stream ∈ c.inner, textsOf stream.history = lines := by
  intro stream hstream
  have hinner := h.inner
  rw [hstream] at hinner
  generalize ht : d.inner = inner at hinner
  cases hinner with
  | @some _ t hbrings =>
    obtain rfl := hfinished t ht
    have hlines := hbrings.lines
    rwa [List.map_nil, List.append_nil] at hlines

/-- Over networks that bring what the server of a maildrop answers, every call that comes to
its end has come to what the session says, and the server is in the session that the calls
leave. While the client is connected, it has written the lines of its calls and no others. -/
theorem maildrop_serves
    (hdecode : ∀ bytes, Host.base64Decode (Host.base64Encode bytes) = some bytes) {drop : Maildrop}
    {log : Log} {lines : List Bytes} {s : Session} {c : Client PopStream}
    (h : drop.Serves log lines s c) (hended : ∀ entry ∈ log, Ended entry.2) :
    drop.open.performAll (log.map Prod.fst) = (log, s) ∧
      ∀ stream ∈ c.inner, textsOf stream.history = lines := by
  obtain ⟨hs, hconversation⟩ := h.conversation hdecode
  obtain ⟨hlog, htwin, hfinished⟩ := conversation_outcomes hconversation hended
  exact ⟨Prod.ext hlog.symm hs.symm, htwin.texts hfinished⟩

/-! ## A maildrop with one message -/

/-- A host that encodes base64 with padding -/
@[reducible] def Host.standard : Host := ⟨Base64.encode, Base64.decode, false⟩

def oneMessage : Maildrop where
  user := ascii "user"
  password := ascii "secret"
  welcome := .empty
  remark _ _ := .empty
  announced := [⟨ascii "SASL PLAIN", .sasl [ascii "PLAIN"], by decide, rfl⟩]
  messages := [⟨oneLetter, ascii "id-1", by decide, by decide⟩]

/-- The network brings the replies to a call, each in one piece. -/
theorem Maildrop.Serves.whole {drop : Maildrop} {log : Log} {lines : List Bytes} {s : Session}
    {c : Client PopStream} (h : drop.Serves log lines s c) (op : ClientOp) (hop : Session.Plain op)
    (hlines : ∀ line ∈ s.lines op, NoBreak line) (hbrief : Pop.Brief (s.dialogue (s.lines op))) :
    let network := answering ((s.dialogue (s.lines op)).map Exchange.reply)
    drop.Serves (log ++ [(op, outcome (op.run (c.supply network.reads network.writes)))])
      (lines ++ s.lines op) (s.after (s.lines op))
      (stateOf (op.run (c.supply network.reads network.writes))) := by
  refine h.call hop hlines hbrief ⟨?_, ?_, ?_⟩ ?_
  · simp [answering]
  · simp [answering]
  · simp [answering]
  · simp [answering, incoming, List.flatMap_map]

/-- A client is made over a network that brings the first replies, each in one piece. -/
theorem Maildrop.Serves.welcomed {drop : Maildrop} (hbrief : drop.Brief []) {c : Client PopStream}
    (hclient : newClient (answering (drop.greeting ::
      (drop.open.dialogue [firstLine]).map Exchange.reply)) = .ok () c) :
    drop.Serves [] [firstLine] drop.open c := by
  refine .opened ⟨rfl, ?_, ?_, ?_⟩ hbrief ?_ hclient
  · simp [answering]
  · simp [answering]
  · simp [answering]
  · simp [answering, incoming, List.flatMap_map, Maildrop.opening, Transcript.opening,
      Transcript.replies]

omit [Host] in
theorem ended_of_value {σ α : Type} {r : EStateM.Result (Exit Error) σ α} (h : (value? r).isSome) :
    Ended (outcome r) := by
  obtain ⟨a, ha⟩ := Option.isSome_iff_exists.mp h
  rw [eq_ok_of_value? ha]
  intro x hx
  cases hx

omit [Host] in
/-- The client gets the message, deletes it and quits. -/
theorem oneMessage_served : ∃ (log : Log) (lines : List Bytes) (s : Session) (c : Client PopStream),
    @Maildrop.Serves .standard oneMessage log lines s c ∧ (∀ entry ∈ log, Ended entry.2) ∧
      log.map Prod.fst = [.login (ascii "user") (ascii "secret"), .retr 1, .dele 1, .quit] := by
  let host : Host := .standard
  have hopened := Maildrop.Serves.welcomed (show oneMessage.Brief [] by decide +kernel)
    (eq_ok_of_value? (a := ()) (by decide +kernel))
  have hlogin := hopened.whole (.login (ascii "user") (ascii "secret")) trivial
    (by decide +kernel) (by decide +kernel)
  have hretr := hlogin.whole (.retr 1) trivial (by decide +kernel) (by decide +kernel)
  have hdele := hretr.whole (.dele 1) trivial (by decide +kernel) (by decide +kernel)
  have hquit := hdele.whole .quit trivial (by decide +kernel) (by decide +kernel)
  refine ⟨_, _, _, _, hquit, ?_, rfl⟩
  simp only [List.forall_mem_append, List.forall_mem_singleton]
  exact ⟨⟨⟨⟨by simp, ended_of_value (by decide +kernel)⟩, ended_of_value (by decide +kernel)⟩,
    ended_of_value (by decide +kernel)⟩, ended_of_value (by decide +kernel)⟩

omit [Host] in
theorem conversation_outcomes_oneMessage :
    ∃ (log played : Log) (lines : List Bytes) (c : Client PopStream) (d : Client Transcript),
      @Conversation .standard log played lines c d ∧ log.length = 4 ∧
        log = played ∧ Client.Twin (PopStream.Brings lines) c d ∧ d.Finished := by
  let host : Host := .standard
  obtain ⟨log, lines, s, c, hserves, hended, hops⟩ := oneMessage_served
  have hconversation := (hserves.conversation Base64.decode_encode).2
  have hlength := congrArg List.length hops
  rw [List.length_map] at hlength
  exact ⟨_, _, _, _, _, hconversation, hlength, conversation_outcomes hconversation hended⟩

omit [Host] in
theorem maildrop_serves_oneMessage :
    ∃ (log : Log) (lines : List Bytes) (s : Session) (c : Client PopStream),
      @Maildrop.Serves .standard oneMessage log lines s c ∧ log.length = 4 ∧
        @Session.performAll .standard oneMessage.open (log.map Prod.fst) = (log, s) ∧
        ∀ stream ∈ c.inner, textsOf stream.history = lines := by
  let host : Host := .standard
  obtain ⟨log, lines, s, c, hserves, hended, hops⟩ := oneMessage_served
  have hlength := congrArg List.length hops
  rw [List.length_map] at hlength
  exact ⟨log, lines, s, c, hserves, hlength, maildrop_serves Base64.decode_encode hserves hended⟩

end Pop
