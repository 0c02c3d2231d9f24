-- SUMMARY: A client logs in to a maildrop, and every call comes to what the session says.
import GetEmail.Pop.ServiceCalls

/-!
# Logging in

The PLAIN mechanism is tried where the server announces it, and a name and a password are
given where it is not, or does not let the client in.
-/

namespace Pop

open Exec
open Nom (Bytes ascii)

namespace Session

open Client

variable [Host] {s : Session} {d : Client Transcript} {lines : List Bytes} {greeting : Option Text}

/-! ## Logging in -/

/-- The capabilities are asked for once more. -/
theorem updateCapabilities_on (lines : List Bytes)
    (hstate : d.state = .transaction ∨ d.state = .authentication)
    (h : s.phase ≠ .update) (hbrief : Brief (s.dialogue ((Request.ofCommand .capa).display :: lines))) :
    updateCapabilities (d.on s ((Request.ofCommand .capa).display :: lines)) =
      .ok () ({ d with capabilities := s.capabilities }.on s lines) := by
  have hanswers : ∀ command ∈ Order.capa.command?, command = .capa := by simp [Order.command?]
  have horder : Order.ofLine (Request.ofCommand .capa).display = .capa := line_bare .capa (by decide)
  have hanswer : s.answer .capa = (.capabilities (s.remark .capa) s.maildrop.announced, s) := by
    obtain ⟨drop, phase⟩ := s
    cases phase with
    | update => exact absurd rfl h
    | _ => rfl
  have hcapa := request_settled Response.capability? "capa response" hstate
    horder hanswers hbrief
  rw [hanswer] at hcapa
  have hattempt : attempt capa (d.on s ((Request.ofCommand .capa).display :: lines)) =
      .ok (.ok s.capabilities) (d.on s lines) := by
    rw [attempt, capa, hcapa]
    rfl
  rw [updateCapabilities, bind_apply, hattempt]
  rfl

section Authorization

variable {drop : Maildrop} {name : Option Bytes}

theorem checkClientState_authorization (lines : List Bytes) :
    checkClientState .authentication ((fields ⟨drop, .authorization name⟩ greeting).on s lines) =
      .ok () ((fields ⟨drop, .authorization name⟩ greeting).on s lines) := rfl

theorem hasReadGreeting_authorization (lines : List Bytes) :
    hasReadGreeting ((fields ⟨drop, .authorization name⟩ greeting).on s lines) =
      .ok () ((fields ⟨drop, .authorization name⟩ greeting).on s lines) := rfl

/-- The server does not know APOP. -/
theorem apop_order (user digest : Bytes) :
    Order.ofLine (((Request.ofCommand .apop).addArg user).addArg digest).display = .unknown := by
  have hdisplay : (((Request.ofCommand .apop).addArg user).addArg digest).display =
      ascii "APOP" ++ 0x20 :: (user ++ [digest].flatMap (0x20 :: ·)) := rfl
  have hnone : Order.keywords.lookup (Command.toAsciiUppercase (ascii "APOP")) = none := by decide
  rw [Order.ofLine, hdisplay, Order.cut_space (by decide), hnone]

theorem performs_apop (user digest : Bytes) :
    Session.Performs ⟨drop, .authorization name⟩ (.apop user digest) := by
  intro greeting more hbrief
  have horder := apop_order user digest
  have hbrief : Brief (dialogue ⟨drop, .authorization name⟩
    ((((Request.ofCommand .apop).addArg user).addArg digest).display :: more)) := hbrief
  have hsend := sendRequest_settled (d := fields ⟨drop, .authorization name⟩ greeting) (.inr rfl)
    horder (by simp [Order.command?]) hbrief
  change (Value.text <$> apop user digest) ((fields ⟨drop, .authorization name⟩ greeting).on
    ⟨drop, .authorization name⟩ (_ :: more)) = _
  rw [map_apply, apop, bind_apply, checkClientState_authorization]
  dsimp only
  rw [bind_apply, hasReadGreeting_authorization]
  dsimp only
  rw [bind_apply, hsend]
  rfl

/-- The lines of `USER` and `PASS` -/
theorem userPass_orders (user password : Bytes) :
    Order.ofLine ((Request.ofCommand .user).addArg user).display = .user user ∧
      Order.ofLine ((Request.ofCommand .pass).addArg password).display = .pass password :=
  ⟨line_argument .user (by decide) user, line_argument .pass (by decide) password⟩

/-- The line of the PLAIN mechanism -/
theorem plain_order (user password : Bytes) :
    Order.ofLine (Client.authRequest (.plain user password)).display =
      .authPlain (Host.base64Encode ([0] ++ user ++ [0] ++ password)) := by
  have hread := (Order.ofLine_request .auth (by decide) (ascii "PLAIN")
    [Host.base64Encode ([0] ++ user ++ [0] ++ password)]).2
  refine Eq.trans hread ?_
  have hplain : Command.toAsciiUppercase (ascii "PLAIN") = ascii "PLAIN" := by decide
  rw [List.flatMap_singleton, Order.ofKeyword, Order.ofAuth, Order.cut_space (by decide)]
  simp only [hplain, if_true]

theorem answer_pass (name : Option Bytes) {user password : Bytes} :
    answer ⟨drop, .authorization (some user)⟩ (.pass password) =
      if Takes ⟨drop, .authorization name⟩ user password then
        (.ok (drop.remark (.authorization (some user)) (.pass password)), ⟨drop, .transaction []⟩)
      else (.err (drop.remark (.authorization (some user)) (.pass password)),
        ⟨drop, .authorization none⟩) := by
  have htakes : some user = some drop.user ∧ password = drop.password ↔
      Takes ⟨drop, .authorization name⟩ user password := by
    simp [Takes]
  have hanswer : answer ⟨drop, .authorization (some user)⟩ (.pass password) =
      if some user = some drop.user ∧ password = drop.password then
        (.ok (drop.remark (.authorization (some user)) (.pass password)), ⟨drop, .transaction []⟩)
      else (.err (drop.remark (.authorization (some user)) (.pass password)),
        ⟨drop, .authorization none⟩) := rfl
  rw [hanswer]
  exact if_congr htakes rfl rfl

/-- A name and a password are given, and the capabilities are asked for where they are right. -/
theorem loginUserPass_authorization (greeting : Option Text) {user password : Bytes}
    (hbrief : Brief (dialogue ⟨drop, .authorization name⟩
      (userPassLines ⟨drop, .authorization name⟩ user password ++ lines))) :
    loginUserPass user password ((fields ⟨drop, .authorization name⟩ greeting).on
        ⟨drop, .authorization name⟩ (userPassLines ⟨drop, .authorization name⟩ user password ++ lines)) =
      if Takes ⟨drop, .authorization name⟩ user password then
        .ok (⟨(drop.remark (.authorization name) (.user user)).text⟩,
            ⟨(drop.remark (.authorization (some user)) (.pass password)).text⟩)
          (client ⟨drop, .transaction []⟩ greeting lines)
      else .error (.error ⟨"Server error", .serverError
          (Text.display ⟨(drop.remark (.authorization (some user)) (.pass password)).text⟩)⟩)
        (client ⟨drop, .authorization none⟩ greeting lines) := by
  obtain ⟨huser, hpass⟩ := userPass_orders user password
  simp only [userPassLines, List.cons_append] at hbrief ⊢
  generalize hlines : (if Takes ⟨drop, .authorization name⟩ user password then
    [(Request.ofCommand .capa).display] else []) ++ lines = rest at hbrief ⊢
  have hsendUser : sendRequest ((Request.ofCommand .user).addArg user)
      ((fields ⟨drop, .authorization name⟩ greeting).on ⟨drop, .authorization name⟩
        (((Request.ofCommand .user).addArg user).display ::
          ((Request.ofCommand .pass).addArg password).display :: rest)) =
      .ok (.message ⟨(drop.remark (.authorization name) (.user user)).text⟩)
        ((fields ⟨drop, .authorization name⟩ greeting).on ⟨drop, .authorization (some user)⟩
          (((Request.ofCommand .pass).addArg password).display :: rest)) :=
    sendRequest_settled (.inr rfl) huser (by simp [Order.command?]; rfl) hbrief
  rw [dialogue, huser] at hbrief
  have hbriefPass : Brief (dialogue ⟨drop, .authorization (some user)⟩
      (((Request.ofCommand .pass).addArg password).display :: rest)) :=
    fun exchange hexchange => hbrief exchange (List.mem_cons_of_mem _ hexchange)
  have hsendPass := sendRequest_settled (d := fields ⟨drop, .authorization name⟩ greeting) (.inr rfl)
    hpass (by simp [Order.command?]; rfl) hbriefPass
  rw [loginUserPass, bind_apply, hasReadGreeting_authorization]
  dsimp only
  rw [bind_apply, hsendUser]
  dsimp only
  rw [bind_apply, hsendPass, answer_pass name]
  by_cases htakes : Takes ⟨drop, .authorization name⟩ user password
  · rw [if_pos htakes] at hlines ⊢
    subst hlines
    rw [dialogue, hpass, answer_pass name, if_pos htakes] at hbriefPass
    have hcapa := updateCapabilities_on (s := ⟨drop, .transaction []⟩)
      (d := fields ⟨drop, .authorization name⟩ greeting) lines (.inr rfl) (by simp)
      fun exchange hexchange => hbriefPass exchange (List.mem_cons_of_mem _ hexchange)
    rw [if_pos htakes]
    change (updateCapabilities >>= fun _ => _) ((fields ⟨drop, .authorization name⟩ greeting).on
      ⟨drop, .transaction []⟩ (_ :: lines)) = _
    rw [bind_apply, hcapa]
    rfl
  · rw [if_neg htakes] at hlines ⊢
    subst hlines
    rw [if_neg htakes]
    rfl

/-- A server takes the response of the PLAIN mechanism for what was encoded. -/
theorem answer_plain (hdecode : ∀ bytes, Host.base64Decode (Host.base64Encode bytes) = some bytes)
    (response : Bytes) :
    answer ⟨drop, .authorization name⟩ (.authPlain (Host.base64Encode response)) =
      if response = drop.plainResponse then
        (.ok (drop.remark (.authorization name) (.authPlain (Host.base64Encode response))),
          ⟨drop, .transaction []⟩)
      else (.err (drop.remark (.authorization name) (.authPlain (Host.base64Encode response))),
        ⟨drop, .authorization name⟩) := by
  have hanswer : answer ⟨drop, .authorization name⟩ (.authPlain (Host.base64Encode response)) =
      if Host.base64Decode (Host.base64Encode response) = some drop.plainResponse then
        (.ok (drop.remark (.authorization name) (.authPlain (Host.base64Encode response))),
          ⟨drop, .transaction []⟩)
      else (.err (drop.remark (.authorization name) (.authPlain (Host.base64Encode response))),
        ⟨drop, .authorization name⟩) := rfl
  rw [hanswer, hdecode]
  exact if_congr Option.some_inj rfl rfl

/-- The mechanism lets the client in, or leaves it where it is. -/
theorem auth_authorization (greeting : Option Text)
    (hdecode : ∀ bytes, Host.base64Decode (Host.base64Encode bytes) = some bytes)
    {user password : Bytes} (rest : List Bytes) (hbrief : Brief (dialogue ⟨drop, .authorization name⟩
      ((Client.authRequest (.plain user password)).display :: rest))) :
    (([0] ++ user ++ [0] ++ password = drop.plainResponse →
      ∀ lines, rest = (Request.ofCommand .capa).display :: lines →
        auth (.plain user password) ((fields ⟨drop, .authorization name⟩ greeting).on
            ⟨drop, .authorization name⟩ ((Client.authRequest (.plain user password)).display :: rest)) =
          .ok ⟨(drop.remark (.authorization name) (plainOrder user password)).text⟩
            (client ⟨drop, .transaction []⟩ greeting lines)) ∧
      ([0] ++ user ++ [0] ++ password ≠ drop.plainResponse →
        attempt (auth (.plain user password)) ((fields ⟨drop, .authorization name⟩ greeting).on
            ⟨drop, .authorization name⟩ ((Client.authRequest (.plain user password)).display :: rest)) =
          .ok (.error ⟨"Server error", .serverError
              (Text.display ⟨(drop.remark (.authorization name) (plainOrder user password)).text⟩)⟩)
            ((fields ⟨drop, .authorization name⟩ greeting).on ⟨drop, .authorization name⟩ rest))) := by
  have horder := plain_order user password
  have hcommand : ∀ command ∈
      (Order.authPlain (Host.base64Encode ([0] ++ user ++ [0] ++ password))).command?,
      command = (Client.authRequest (.plain user password)).command := by
    simp [Order.command?]
    rfl
  have hdialog : innerMut (dialog (.plain user password))
    ((fields ⟨drop, .authorization name⟩ greeting).on
      ⟨drop, .authorization name⟩ ((Client.authRequest (.plain user password)).display :: rest)) = _ :=
    (congrArg (fun m => innerMut m _) (dialog_finish rfl)).trans
      (sendRequest_settled (d := fields ⟨drop, .authorization name⟩ greeting) (.inr rfl) horder hcommand
        hbrief)
  rw [answer_plain hdecode] at hdialog
  refine ⟨fun hresponse lines hrest => ?_, fun hresponse => ?_⟩
  · subst hrest
    rw [if_pos hresponse] at hdialog
    rw [dialogue, horder, answer_plain hdecode, if_pos hresponse] at hbrief
    have hcapa := updateCapabilities_on (s := ⟨drop, .transaction []⟩)
      (d := fields ⟨drop, .authorization name⟩ greeting) lines (.inr rfl) (by simp)
      fun exchange hexchange => hbrief exchange (List.mem_cons_of_mem _ hexchange)
    rw [auth, bind_apply, checkClientState_authorization]
    dsimp only
    rw [bind_apply, hasReadGreeting_authorization]
    dsimp only
    rw [bind_apply, hdialog]
    change (updateCapabilities >>= fun _ => _) ((fields ⟨drop, .authorization name⟩ greeting).on
      ⟨drop, .transaction []⟩ (_ :: lines)) = _
    rw [bind_apply, hcapa]
    rfl
  · rw [if_neg hresponse] at hdialog
    have hauth : auth (.plain user password) ((fields ⟨drop, .authorization name⟩ greeting).on
        ⟨drop, .authorization name⟩ ((Client.authRequest (.plain user password)).display :: rest)) =
        .error (.error ⟨"Server error", .serverError
            (Text.display ⟨(drop.remark (.authorization name) (plainOrder user password)).text⟩)⟩)
          ((fields ⟨drop, .authorization name⟩ greeting).on ⟨drop, .authorization name⟩ rest) := by
      rw [auth, bind_apply, checkClientState_authorization]
      dsimp only
      rw [bind_apply, hasReadGreeting_authorization]
      dsimp only
      rw [bind_apply, hdialog]
      rfl
    rw [attempt, hauth]

theorem performs_login (hdecode : ∀ bytes, Host.base64Decode (Host.base64Encode bytes) = some bytes)
    (user password : Bytes) :
    Session.Performs ⟨drop, .authorization name⟩ (.login user password) := by
  intro greeting more hbrief
  have hlines : Session.lines ⟨drop, .authorization name⟩ (.login user password) =
      loginLines ⟨drop, .authorization name⟩ user password := rfl
  have hperform : Session.perform ⟨drop, .authorization name⟩ (.login user password) =
      login ⟨drop, .authorization name⟩ user password := rfl
  have hmechanism (s : Session) (lines : List Bytes) :
      ((fields ⟨drop, .authorization name⟩ greeting).on s lines).hasAuthMechanism (ascii "PLAIN") =
        offersPlain ⟨drop, .authorization name⟩ := rfl
  rw [hlines, loginLines] at hbrief ⊢
  rw [hperform, Session.login, client_connected (s := ⟨drop, .authorization name⟩) (by simp),
    ClientOp.run, map_apply, Client.login, bind_apply, checkClientState_authorization]
  dsimp only
  rw [bind_apply, get_apply]
  dsimp only
  rw [hmechanism]
  by_cases htakesPlain : TakesPlain ⟨drop, .authorization name⟩ user password
  · rw [if_pos htakesPlain] at hbrief ⊢
    have hauth := (auth_authorization greeting hdecode ((Request.ofCommand .capa).display :: more)
      hbrief).1 htakesPlain.2 more rfl
    have hattempt : attempt (auth (.plain user password))
        ((fields ⟨drop, .authorization name⟩ greeting).on ⟨drop, .authorization name⟩
          ([(Client.authRequest (.plain user password)).display, (Request.ofCommand .capa).display] ++
            more)) =
        .ok (.ok ⟨(drop.remark (.authorization name) (plainOrder user password)).text⟩)
          (client ⟨drop, .transaction []⟩ greeting more) := by
      rw [attempt, List.cons_append, List.singleton_append, hauth]
    rw [if_pos htakesPlain, if_pos htakesPlain.1, bind_apply, hattempt]
    rfl
  rw [if_neg htakesPlain] at hbrief ⊢
  by_cases hoffers : offersPlain ⟨drop, .authorization name⟩ = true
  · rw [if_pos hoffers] at hbrief ⊢
    have hresponse : [0] ++ user ++ [0] ++ password ≠ drop.plainResponse :=
      fun hresponse => htakesPlain ⟨hoffers, hresponse⟩
    have hattempt := (auth_authorization greeting hdecode
      (userPassLines ⟨drop, .authorization name⟩ user password ++ more) hbrief).2 hresponse
    rw [List.cons_append, dialogue, plain_order, answer_plain hdecode, if_neg hresponse] at hbrief
    have huserPass := loginUserPass_authorization greeting
      fun exchange hexchange => hbrief exchange (List.mem_cons_of_mem _ hexchange)
    rw [if_pos hoffers, bind_apply, List.cons_append, hattempt]
    dsimp only
    rw [huserPass, if_neg htakesPlain]
    by_cases htakes : Takes ⟨drop, .authorization name⟩ user password
    · rw [if_pos htakes, if_pos htakes]
      rfl
    · rw [if_neg htakes, if_neg htakes]
      rfl
  · rw [if_neg hoffers] at hbrief ⊢
    have huserPass := loginUserPass_authorization greeting hbrief
    rw [if_neg hoffers, huserPass, if_neg htakesPlain]
    by_cases htakes : Takes ⟨drop, .authorization name⟩ user password
    · rw [if_pos htakes, if_pos htakes]
      rfl
    · rw [if_neg htakes, if_neg htakes]
      rfl

end Authorization

/-! ## Calls without a connection -/

theorem performs_unconnected (h : s.phase = .update) {op : ClientOp} (hop : Plain op) :
    s.Performs op := by
  obtain ⟨drop, phase⟩ := s
  obtain rfl : phase = .update := h
  intro greeting lines _
  cases op with
  | auth authenticator => exact absurd hop id
  | sendRequest request => exact absurd hop id
  | isDeleted msgNumber => rfl
  | uidl msgNumber => rfl
  | list msgNumber => cases msgNumber <;> rfl
  | _ => rfl

/-- Every call comes to what the session says, whatever the client did before. -/
theorem performs (hdecode : ∀ bytes, Host.base64Decode (Host.base64Encode bytes) = some bytes)
    (s : Session) {op : ClientOp} (hop : Plain op) : s.Performs op := by
  by_cases h : s.phase = .update
  · exact performs_unconnected h hop
  cases op with
  | auth authenticator => exact absurd hop id
  | sendRequest request => exact absurd hop id
  | noop => exact performs_noop h
  | uidl msgNumber => exact performs_uidl h msgNumber
  | top msgNumber count => exact performs_top h msgNumber count
  | isDeleted msgNumber => exact performs_isDeleted h msgNumber
  | dele msgNumber => exact performs_dele h msgNumber
  | rset => exact performs_rset h
  | retr msgNumber => exact performs_retr h msgNumber
  | list msgNumber => exact performs_list h msgNumber
  | stat => exact performs_stat h
  | quit => exact performs_quit h
  | capa => exact performs_capa h
  | apop name digest =>
    obtain ⟨drop, phase⟩ := s
    cases phase with
    | update => exact absurd rfl h
    | authorization name' => exact performs_apop name digest
    | transaction marked => exact fun _ _ _ => rfl
  | login user password =>
    obtain ⟨drop, phase⟩ := s
    cases phase with
    | update => exact absurd rfl h
    | authorization name => exact performs_login hdecode user password
    | transaction marked => exact fun _ _ _ => rfl

end Session

end Pop
