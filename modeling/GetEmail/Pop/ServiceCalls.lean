-- SUMMARY: The calls that a client makes within a state of its session.
import GetEmail.Pop.Service

/-!
# Calls within a state

The client of a session has the fields that the state of the session gives it. A call of
one request is answered by the session, and leaves the client in it.
-/

namespace Pop

open Exec
open Nom (Bytes)

namespace Session

open Client

variable [Host] {s : Session} {d : Client Transcript} {lines : List Bytes}

/-! ## The client of a session -/

/-- Its fields, apart from the connection -/
def fields (s : Session) (greeting : Option Text) : Client Transcript :=
  match s.phase with
  | .authorization _ => ⟨none, s.capabilities, [], greeting, true, .authentication⟩
  | .transaction _ => ⟨none, s.capabilities, [], greeting, true, .transaction⟩
  | .update => ⟨none, [], [], greeting, false, .none⟩

/-- The client in the session, which goes on with these lines -/
def client (s : Session) (greeting : Option Text) (lines : List Bytes) : Client Transcript :=
  if s.phase = .update then s.fields greeting else (s.fields greeting).on s lines

variable {greeting : Option Text}

omit [Host] in
theorem fields_unmarked (greeting : Option Text) (s : Session) :
    (s.fields greeting).markedAsDel = [] := by
  unfold fields
  split <;> rfl

omit [Host] in
theorem fields_connected (h : s.phase ≠ .update) :
    ((s.fields greeting).state = .transaction ∨ (s.fields greeting).state = .authentication) ∧
      (s.fields greeting).capabilities = s.capabilities ∧ (s.fields greeting).greeted = true := by
  unfold fields
  split
  · exact ⟨.inr rfl, rfl, rfl⟩
  · exact ⟨.inl rfl, rfl, rfl⟩
  · next hphase => exact absurd hphase h

/-- The orders that do not log in or out -/
def Within : Order → Prop
  | .user _ | .pass _ | .authPlain _ | .quit => False
  | _ => True

/-- Such an order leaves the client as it is. -/
theorem answer_within (greeting : Option Text) {order : Order} (horder : Within order)
    (h : s.phase ≠ .update) :
    (s.answer order).2.phase ≠ .update ∧
      (s.answer order).2.fields greeting = s.fields greeting := by
  obtain ⟨drop, phase⟩ := s
  cases phase with
  | update => exact absurd rfl h
  | authorization name =>
    have hsame : (Session.answer ⟨drop, .authorization name⟩ order).2 = ⟨drop, .authorization name⟩ := by
      simp only [answer]
      split
      · rfl
      · cases order <;> first | rfl | exact absurd horder id
    rw [hsame]
    exact ⟨h, rfl⟩
  | transaction marked =>
    have hsame : ∃ marked', (Session.answer ⟨drop, .transaction marked⟩ order).2 =
        ⟨drop, .transaction marked'⟩ := by
      have hconcerning (order : Order) (number : Nat) {reply : Stored → Reply × Session}
          (hreply : ∀ m, ∃ marked', (reply m).2 = ⟨drop, .transaction marked'⟩) :
          ∃ marked', (concerning ⟨drop, .transaction marked⟩ order marked number reply).2 =
            ⟨drop, .transaction marked'⟩ := by
        unfold concerning
        split
        · exact hreply _
        · exact ⟨marked, rfl⟩
      simp only [answer]
      split
      · exact ⟨marked, rfl⟩
      · cases order with
        | quit => exact absurd horder id
        | uidl number =>
          cases number with
          | none => exact ⟨marked, rfl⟩
          | some number => exact hconcerning _ number fun _ => ⟨marked, rfl⟩
        | list number =>
          cases number with
          | none => exact ⟨marked, rfl⟩
          | some number => exact hconcerning _ number fun _ => ⟨marked, rfl⟩
        | top number lines => exact hconcerning _ number fun _ => ⟨marked, rfl⟩
        | retr number => exact hconcerning _ number fun _ => ⟨marked, rfl⟩
        | dele number => exact hconcerning _ number fun _ => ⟨number :: marked, rfl⟩
        | _ => exact ⟨_, rfl⟩
    obtain ⟨marked', hsame⟩ := hsame
    rw [hsame]
    exact ⟨by simp, rfl⟩

/-- The call writes its lines and comes to what it should, and the session goes on. -/
def Performs (s : Session) (op : ClientOp) : Prop :=
  ∀ greeting lines, Brief (s.dialogue (s.lines op ++ lines)) →
    op.run (s.client greeting (s.lines op ++ lines)) =
      settled (s.perform op).1 ((s.perform op).2.client greeting lines)

/-! ## Calls within a state -/

theorem client_connected (h : s.phase ≠ .update) :
    s.client greeting lines = (s.fields greeting).on s lines := if_neg h

theorem ask_client (op : ClientOp) (horder : Within (order op)) (h : s.phase ≠ .update) :
    (s.fields greeting).on (s.ask op (order op)).2 lines =
      (s.ask op (order op)).2.client greeting lines := by
  obtain ⟨hphase, hfields⟩ := answer_within greeting horder h
  rw [client_connected (s := (s.ask op (order op)).2) hphase, ask, hfields]

/-- A call that comes down to a request -/
theorem performs_request {α : Type} {op : ClientOp} {request : Request}
    {kind : Response → Option α} {value : α → Value} {m : Exec Error (Client Transcript) α}
    (expected : String) (h : s.phase ≠ .update) (hwithin : Within (order op))
    (hlines : s.lines op = [request.display]) (hperform : s.perform op = s.ask op (order op))
    (horder : Order.ofLine request.display = order op)
    (hcommand : (order op).command? = some request.command)
    (hmakes : Makes op request.command kind value) (hrun : op.run = value <$> m)
    (hm : ∀ greeting lines, m ((s.fields greeting).on s lines) =
      (do expect kind expected (← sendRequest request)) ((s.fields greeting).on s lines)) :
    s.Performs op := by
  intro greeting lines hbrief
  rw [hlines, List.singleton_append] at hbrief ⊢
  rw [client_connected h, hrun, map_apply, hm, ← map_apply, hperform,
    request_performed (fields_connected h).1 horder hcommand hmakes hbrief, ask_client op hwithin h]

theorem checkDeleted_session (msgNumber : Nat) :
    checkDeleted msgNumber ((s.fields greeting).on s lines) = .ok () ((s.fields greeting).on s lines) :=
  checkDeleted_unmarked (by exact fields_unmarked greeting s) msgNumber

theorem checkCapability_session (h : s.phase ≠ .update) (capability : Capability) :
    checkCapability [capability] ((s.fields greeting).on s lines) =
      if capability ∈ s.capabilities then .ok () ((s.fields greeting).on s lines)
      else .error (.error featureUnsupported) ((s.fields greeting).on s lines) := by
  have hcapabilities : ((s.fields greeting).on s lines).capabilities = s.capabilities :=
    (fields_connected h).2.1
  rw [checkCapability_apply, hcapabilities]

theorem line_bare (command : Command) (h : command ∈ Order.keywords.map Prod.snd) :
    Order.ofLine (Request.ofCommand command).display = Order.ofKeyword command none :=
  (Order.ofLine_request command h [] []).1

theorem line_argument (command : Command) (h : command ∈ Order.keywords.map Prod.snd) {α : Type}
    [Display α] (arg : α) : Order.ofLine ((Request.ofCommand command).addArg arg).display =
      Order.ofKeyword command (some (Display.display arg)) := by
  have hread := (Order.ofLine_request command h (Display.display arg) []).2
  rwa [List.flatMap_nil, List.append_nil] at hread

theorem line_numbered {command : Command} (h : command ∈ Order.keywords.map Prod.snd)
    (order : Nat → Order)
    (hkeyword : ∀ argument, Order.ofKeyword command (some argument) = Order.numbered order argument)
    (n : Nat) : Order.ofLine ((Request.ofCommand command).addArg n).display = order n := by
  rw [line_argument command h, hkeyword, Order.numbered_display]

/-- The calls that the session speaks of -/
def Plain : ClientOp → Prop
  | .auth _ | .sendRequest _ => False
  | _ => True

/-- The calls that come down to their order, in whatever state the client is connected -/
def Asks : ClientOp → Prop
  | .isDeleted _ | .login _ _ | .apop _ _ | .uidl _ | .top _ _ => False
  | op => Plain op

/-- The line of a call is read as its order. -/
theorem order_read {op : ClientOp} {request : Request} (hop : op.requests = [request])
    (hplain : Plain op) : Order.ofLine request.display = order op := by
  cases op with
  | sendRequest request' => exact absurd hplain id
  | uidl msgNumber =>
    cases msgNumber with
    | none => cases hop; exact line_bare .uidl (by decide)
    | some number => cases hop; exact line_numbered (by decide) (.uidl ∘ some) (fun _ => rfl) number
  | list msgNumber =>
    cases msgNumber with
    | none => cases hop; exact line_bare .list (by decide)
    | some number => cases hop; exact line_numbered (by decide) (.list ∘ some) (fun _ => rfl) number
  | top msgNumber lines =>
    cases hop
    have hline := (Order.ofLine_request .top (by decide) (Display.display msgNumber)
      [Display.display lines]).2
    rw [List.flatMap_singleton, Order.ofKeyword, Order.ofTop_display] at hline
    exact hline
  | dele msgNumber => cases hop; exact line_numbered (by decide) .dele (fun _ => rfl) msgNumber
  | retr msgNumber => cases hop; exact line_numbered (by decide) .retr (fun _ => rfl) msgNumber
  | noop => cases hop; exact line_bare .noop (by decide)
  | rset => cases hop; exact line_bare .rset (by decide)
  | stat => cases hop; exact line_bare .stat (by decide)
  | quit => cases hop; exact line_bare .quit (by decide)
  | capa => cases hop; exact line_bare .capa (by decide)
  | _ => cases hop

section Connected

variable (h : s.phase ≠ .update)

include h

/-- These calls are answered with their order. -/
theorem perform_ask (op : ClientOp) (hop : Asks op) :
    s.perform op = s.ask op (order op) ∧ s.lines op = op.requests.map Request.display := by
  obtain ⟨drop, phase⟩ := s
  cases phase with
  | update => exact absurd rfl h
  | authorization name => cases op <;> first | exact ⟨rfl, rfl⟩ | exact absurd hop id
  | transaction marked => cases op <;> first | exact ⟨rfl, rfl⟩ | exact absurd hop id

theorem performs_stat : s.Performs .stat := by
  obtain ⟨hperform, hlines⟩ := perform_ask h .stat trivial
  exact performs_request "stat response" h trivial hlines hperform (order_read rfl trivial) rfl
    makes_stat rfl fun _ _ => rfl

theorem performs_capa : s.Performs .capa := by
  obtain ⟨hperform, hlines⟩ := perform_ask h .capa trivial
  exact performs_request "capa response" h trivial hlines hperform (order_read rfl trivial) rfl
    makes_capa rfl fun _ _ => rfl

theorem performs_retr (msgNumber : Nat) : s.Performs (.retr msgNumber) := by
  obtain ⟨hperform, hlines⟩ := perform_ask h (.retr msgNumber) trivial
  refine performs_request "retr response" h trivial hlines hperform
    (order_read rfl trivial) rfl (makes_bytes (.inl rfl)) rfl
    fun _ _ => ?_
  simp only [Client.retr, bind_apply, checkDeleted_session]

theorem performs_dele (msgNumber : Nat) : s.Performs (.dele msgNumber) := by
  obtain ⟨hperform, hlines⟩ := perform_ask h (.dele msgNumber) trivial
  refine performs_request "dele response" h trivial hlines hperform
    (order_read rfl trivial) rfl (makes_text (.dele msgNumber) (fun _ => rfl) (.head _))
    rfl fun _ _ => ?_
  simp only [Client.dele, bind_apply, checkDeleted_session]

theorem performs_list (msgNumber : Option Nat) : s.Performs (.list msgNumber) := by
  obtain ⟨hperform, hlines⟩ := perform_ask h (.list msgNumber) trivial
  cases msgNumber with
  | none =>
    exact performs_request "list response" h trivial hlines hperform (order_read rfl trivial) rfl
      (makes_list none) rfl fun _ _ => rfl
  | some number =>
    refine performs_request "list response" h trivial hlines hperform
      (order_read rfl trivial) rfl (makes_list (some number))
      rfl fun _ _ => ?_
    simp only [Client.list, bind_apply, checkDeleted_session]

theorem performs_rset : s.Performs .rset := by
  obtain ⟨hperform, hlines⟩ := perform_ask h .rset trivial
  intro greeting lines hbrief
  have hlines : s.lines .rset = [(Request.ofCommand .rset).display] := hlines
  rw [hlines, List.singleton_append] at hbrief ⊢
  have hanswers : ∀ command ∈ Order.rset.command?, command = .rset := by simp [Order.command?]
  have hunmarked (s' : Session) : { (s.fields greeting).on s' lines with markedAsDel := [] } =
      (s.fields greeting).on s' lines := by
    have hfields := fields_unmarked greeting s
    unfold on
    rw [← hfields]
  have horder : Order.ofLine (Request.ofCommand .rset).display = .rset := line_bare .rset (by decide)
  have hrset : rset ((s.fields greeting).on s ((Request.ofCommand .rset).display :: lines)) =
      settled (PopStream.deliver (s.answer .rset).1.response >>=
          expecting Response.message? "rset response")
        ((s.fields greeting).on (s.answer .rset).2 lines) :=
    bind_settled (sendRequest_settled (fields_connected h).1 horder hanswers hbrief) fun response => by
      rw [bind_apply, modify_apply]
      dsimp only
      rw [hunmarked, expect_settled]
  have hreport := (makes_text .rset (fun _ => rfl) (.tail _ (.head _))).reported
    (answer_answers (s := s) hanswers) "rset response"
  rw [client_connected h, ClientOp.run, map_settled Value.text hrset, hreport, hperform,
    ← ask_client .rset trivial h]
  rfl

theorem performs_noop : s.Performs .noop := by
  obtain ⟨hperform, hlines⟩ := perform_ask h .noop trivial
  intro greeting lines hbrief
  have hlines : s.lines .noop = [(Request.ofCommand .noop).display] := hlines
  rw [hlines, List.singleton_append] at hbrief ⊢
  have hanswers : ∀ command ∈ Order.noop.command?, command = .noop := by simp [Order.command?]
  have horder : Order.ofLine (Request.ofCommand .noop).display = .noop := line_bare .noop (by decide)
  have hnoop : noop ((s.fields greeting).on s ((Request.ofCommand .noop).display :: lines)) =
      settled (PopStream.deliver (s.answer .noop).1.response >>= fun _ => .ok ())
        ((s.fields greeting).on (s.answer .noop).2 lines) :=
    bind_settled (sendRequest_settled (fields_connected h).1 horder hanswers hbrief) fun _ => rfl
  have hreport : (fun _ => Value.unit) <$> (PopStream.deliver (s.answer .noop).1.response >>= fun _ =>
      Except.ok ()) = report .noop (s.answer .noop).1 := by
    have hreply := answer_answers (s := s) hanswers
    generalize (s.answer .noop).1 = reply at hreply ⊢
    cases reply with
    | ok remark => rfl
    | err remark => rfl
    | _ => simp [Reply.Answers] at hreply
  rw [client_connected h, ClientOp.run, map_settled (fun _ => Value.unit) hnoop, hreport, hperform,
    ← ask_client .noop trivial h]
  rfl

theorem perform_uidl (msgNumber : Option Nat) :
    (s.perform (.uidl msgNumber) = if .uidl ∈ s.capabilities then
        s.ask (.uidl msgNumber) (.uidl msgNumber) else (.error featureUnsupported, s)) ∧
      s.lines (.uidl msgNumber) = if .uidl ∈ s.capabilities then
        (ClientOp.uidl msgNumber).requests.map Request.display else [] := by
  obtain ⟨drop, phase⟩ := s
  cases phase with
  | update => exact absurd rfl h
  | _ => exact ⟨rfl, rfl⟩

theorem perform_top (msgNumber count : Nat) :
    (s.perform (.top msgNumber count) = if .top ∈ s.capabilities then
        s.ask (.top msgNumber count) (.top msgNumber count) else (.error featureUnsupported, s)) ∧
      s.lines (.top msgNumber count) = if .top ∈ s.capabilities then
        (ClientOp.top msgNumber count).requests.map Request.display else [] := by
  obtain ⟨drop, phase⟩ := s
  cases phase with
  | update => exact absurd rfl h
  | _ => exact ⟨rfl, rfl⟩

/-- Messages are identified where the server announces the capability. -/
theorem performs_uidl (msgNumber : Option Nat) : s.Performs (.uidl msgNumber) := by
  obtain ⟨hperform, hlines⟩ := perform_uidl h msgNumber
  by_cases hcapability : Capability.uidl ∈ s.capabilities
  · rw [if_pos hcapability] at hperform hlines
    cases msgNumber with
    | none =>
      refine performs_request "uidl response" h trivial hlines hperform (order_read rfl trivial) rfl
        (makes_uidl none) rfl fun _ _ => ?_
      simp only [Client.uidl, bind_apply, checkCapability_session h, if_pos hcapability]
    | some number =>
      refine performs_request "uidl response" h trivial hlines hperform
        (order_read rfl trivial) rfl
        (makes_uidl (some number)) rfl fun _ _ => ?_
      simp only [Client.uidl, bind_apply, checkCapability_session h, if_pos hcapability,
        checkDeleted_session]
  · rw [if_neg hcapability] at hperform hlines
    intro greeting lines _
    rw [hlines, hperform, List.nil_append, client_connected h]
    simp only [ClientOp.run, Client.uidl, map_apply, bind_apply, checkCapability_session h,
      if_neg hcapability]
    rfl

theorem performs_top (msgNumber count : Nat) : s.Performs (.top msgNumber count) := by
  obtain ⟨hperform, hlines⟩ := perform_top h msgNumber count
  by_cases hcapability : Capability.top ∈ s.capabilities
  · rw [if_pos hcapability] at hperform hlines
    refine performs_request "top response" h trivial hlines hperform (order_read rfl trivial) rfl
      (makes_bytes (.inr rfl)) rfl fun _ _ => ?_
    simp only [Client.top, bind_apply, checkDeleted_session, checkCapability_session h,
      if_pos hcapability]
  · rw [if_neg hcapability] at hperform hlines
    intro greeting lines _
    rw [hlines, hperform, List.nil_append, client_connected h]
    simp only [ClientOp.run, Client.top, map_apply, bind_apply, checkDeleted_session,
      checkCapability_session h, if_neg hcapability]
    rfl

theorem performs_isDeleted (msgNumber : Nat) : s.Performs (.isDeleted msgNumber) := by
  have hperform : s.perform (.isDeleted msgNumber) = (.ok (.flag false), s) := by
    obtain ⟨drop, phase⟩ := s
    cases phase with
    | update => exact absurd rfl h
    | _ => rfl
  have hlines : s.lines (.isDeleted msgNumber) = [] := by
    obtain ⟨drop, phase⟩ := s
    cases phase with
    | update => exact absurd rfl h
    | _ => rfl
  intro greeting lines _
  have hunmarked : ((s.fields greeting).on s lines).markedAsDel = [] := fields_unmarked greeting s
  rw [hlines, hperform, List.nil_append, client_connected h, ClientOp.run, map_apply,
    isDeleted_unmarked hunmarked]
  rfl

theorem performs_quit : s.Performs .quit := by
  obtain ⟨hperform, hlines⟩ := perform_ask h .quit trivial
  have hanswer : ∃ drop, s.answer .quit = (.ok (s.remark .quit), ⟨drop, .update⟩) := by
    obtain ⟨drop, phase⟩ := s
    cases phase with
    | authorization name => exact ⟨_, rfl⟩
    | transaction marked => exact ⟨_, rfl⟩
    | update => exact absurd rfl h
  obtain ⟨drop, hanswer⟩ := hanswer
  intro greeting lines hbrief
  have hlines : s.lines .quit = [(Request.ofCommand .quit).display] := hlines
  rw [hlines, List.singleton_append] at hbrief ⊢
  have hanswers : ∀ command ∈ Order.quit.command?, command = .quit := by simp [Order.command?]
  have horder : Order.ofLine (Request.ofCommand .quit).display = .quit := line_bare .quit (by decide)
  have hsend := sendRequest_settled (d := s.fields greeting) (fields_connected h).1 horder hanswers
    hbrief
  have hgreeting (s' : Session) : ((s.fields greeting).on s' lines).greeting = greeting := by
    unfold on fields
    split <;> rfl
  rw [hanswer] at hsend
  rw [client_connected h, hperform, ClientOp.run, map_apply, quit, bind_apply, hsend]
  simp only [ask, order, hanswer]
  change EStateM.Result.ok _ _ = EStateM.Result.ok _ (Client.mk none [] [] greeting false .none)
  exact congrArg (fun g => EStateM.Result.ok (Value.text ⟨(s.remark .quit).text⟩)
    (Client.mk none [] [] g false .none)) (hgreeting ⟨drop, .update⟩)

end Connected

end Session

end Pop
