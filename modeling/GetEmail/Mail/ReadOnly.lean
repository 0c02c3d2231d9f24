-- SUMMARY: However its crawls are cut off, a POP3 reader changes nothing on the server.
import GetEmail.Mail.Pop3Reading
import GetEmail.Pop.Losses

/-!
# Reading only

The server may answer what it likes, and a crawl may be dropped after any byte: what the
server has got of the reader takes no message out of a maildrop, and marks none.
-/

namespace Mail

open Exec
open Nom (Bytes ascii)

variable {μ ω π ε γ σ : Type} [Pop.Host]

namespace Pop3Protocol

/-- The client has written nothing but lines that neither mark nor quit, and beginnings of
such lines. -/
abbrev Harmless : Pop.Client Pop.PopStream → Prop :=
  Pop.Client.Keeping (Pop.PopStream.Wrote (Pop.permittedTexts [] False))

def WroteHarmless (self : Pop3Protocol Pop.PopStream) : Prop := Harmless self.client

omit [Pop.Host] in
/-- What holds of the client behind a call, holds of the client of the reader. -/
theorem onClient_triple {α : Type} {m : Exec Pop.Error (Pop.Client Pop.PopStream) α}
    {P E : Pop.Client Pop.PopStream → Prop} {Q : α → Pop.Client Pop.PopStream → Prop}
    (hm : Triple P m Q fun _ => E) :
    Triple (fun self : Pop3Protocol Pop.PopStream => P self.client)
      (onClient m : Exec (CrateError ε) _ α) (fun a self => Q a self.client)
      fun _ self => E self.client := by
  intro self hself
  have hm := hm self.client hself
  simp only [onClient, mapError, zoom]
  cases h : m self.client <;> rw [h] at hm <;> exact hm

omit [Pop.Host] in
theorem onClient_keeps {α : Type} {m : Exec Pop.Error (Pop.Client Pop.PopStream) α}
    {P : Pop.Client Pop.PopStream → Prop} (hm : Keeps (fun _ => True) P m) :
    Keeps (fun _ => True) (fun self : Pop3Protocol Pop.PopStream => P self.client)
      (onClient m : Exec (CrateError ε) _ α) :=
  (onClient_triple (hm.consequence (fun _ h => h) (fun _ _ h => h) fun _ _ h => h trivial)).consequence
    (fun _ h => h) (fun _ _ h => h) fun _ _ h _ => h

/-- The commands of a reader -/
def readerCommands : List Pop.Command := [.capa, .auth, .user, .pass, .stat, .retr]

theorem request_harmless {request : Pop.Request} (hlf : Nom.lf ∉ request.display)
    (hcommand : request.command ∈ readerCommands) :
    request.display ∈ Pop.permittedTexts [] False := by
  have hcommands : ∀ command ∈ readerCommands, command ∈ Pop.Order.keywords.map Prod.snd ∧
      command ≠ .dele ∧ command ≠ .quit := by decide
  obtain ⟨hkeyword, hdele, hquit⟩ := hcommands _ hcommand
  exact Pop.Request.permitted hlf hkeyword hdele hquit

theorem sendRequest_harmless {request : Pop.Request} (hlf : Nom.lf ∉ request.display)
    (hcommand : request.command ∈ readerCommands) :
    Keeps (fun _ => True) Harmless (Pop.Client.sendRequest request) :=
  (Pop.Client.sendRequest_keeping Pop.PopStream.wrote_upholds (request_harmless hlf hcommand)).keeps

/-! ## Connecting -/

theorem openClient_harmless (hhost : Pop.Host.SingleLine) (mailbox : Credentials)
    (hmailbox : mailbox.oauth2 = none →
      Pop.NoBreak (utf8 mailbox.email) ∧ Pop.NoBreak (utf8 mailbox.password))
    {stream : Pop.Transport} {reader : Pop3Protocol Pop.PopStream}
    (hopen : (Pop3Connector.openClient mailbox : Exec (CrateError ε) _ Unit)
      ⟨Pop.Client.fresh (Pop.PopStream.new stream), mailbox⟩ = .ok () reader) :
    reader.WroteHarmless := by
  have hargument {command : Pop.Command} {argument : Bytes} (h : Pop.NoBreak argument) :
      Pop.NoBreak ((Pop.Request.ofCommand command).addArg argument).display :=
    (Pop.Request.noBreak_addArg _ _).mpr ⟨Pop.Request.noBreak_ofCommand hhost command, h⟩
  have hcapa : (Pop.Request.ofCommand .capa).display ∈ Pop.permittedTexts [] False :=
    request_harmless (Pop.Request.noBreak_ofCommand hhost .capa).2 (by decide)
  have hauth (authenticator : Pop.Authenticator) (h : Pop.NoBreak authenticator.mechanism) :
      (Pop.Client.authRequest authenticator).display ∈ Pop.permittedTexts [] False := by
    refine request_harmless ((Pop.Client.noBreak_authRequest hhost authenticator).mpr h).2 ?_
    rw [Pop.Client.authRequest_command]
    decide
  have hupholds := @Pop.PopStream.wrote_upholds _ (Pop.permittedTexts [] False)
  have hcreate : Triple WroteHarmless (onClient Pop.Client.createClient : Exec (CrateError ε) _ Unit)
      (fun _ => WroteHarmless) fun _ _ => True :=
    onClient_triple (Pop.Client.createClient_triple (fun _ => trivial)
      (Pop.PopStream.readResponse_wrote .greet).value (hupholds.exchange _ hcapa).keeps)
  have hfresh : WroteHarmless ⟨Pop.Client.fresh (Pop.PopStream.new stream), mailbox⟩ :=
    ⟨by simpa [Pop.Client.fresh] using Pop.PopStream.new_wrote stream, rfl⟩
  have hlogin (hplain : mailbox.oauth2 = none) :
      Keeps (fun _ => True) Harmless
        (Pop.Client.login (utf8 mailbox.email) (utf8 mailbox.password)) := by
    obtain ⟨hemail, hpassword⟩ := hmailbox hplain
    exact (Pop.Client.login_agrees (fun _ => trivial) hupholds rfl
      (hauth (.plain _ _) (show Pop.NoBreak (ascii "PLAIN") by decide))
      (request_harmless (hargument hemail).2 (show .user ∈ readerCommands by decide))
      (request_harmless (hargument hpassword).2 (show .pass ∈ readerCommands by decide)) hcapa).keeps
  have hoauth (token : String) : Keeps (fun _ => True) Harmless
      (Pop.Client.auth (.oauth2 (utf8 mailbox.email) (utf8 token))) :=
    (Pop.Client.auth_agrees (fun _ => trivial) hupholds rfl
      (hauth (.oauth2 _ _) (show Pop.NoBreak (ascii "XOAUTH2") by decide)) hcapa).keeps
  have hopens : Triple WroteHarmless (Pop3Connector.openClient mailbox : Exec (CrateError ε) _ Unit)
      (fun _ => WroteHarmless) fun _ _ => True := by
    refine .bind hcreate fun _ => ?_
    cases hcredentials : mailbox.oauth2 with
    | none =>
      exact .bind (onClient_triple (hlogin hcredentials).value) fun _ => .pure fun _ h => h
    | some oauth =>
      exact .bind (onClient_triple (hoauth oauth.access.token).value) fun _ => .pure fun _ h => h
  exact hopens.ok hfresh hopen

/-! ## Crawling -/

variable [MessageParser μ]

theorem crawlMessage_harmless (hhost : Pop.Host.SingleLine) (filter : μ → Option Bool) (result : List μ)
    (currMsgId : Nat) : Keeps (fun _ => True) WroteHarmless
      (crawlMessage filter result currMsgId : Exec (CrateError ε) _ (List μ)) := by
  have hretr : Pop.NoBreak ((Pop.Request.ofCommand .retr).addArg currMsgId).display :=
    (Pop.Request.noBreak_addArg _ _).mpr
      ⟨Pop.Request.noBreak_ofCommand hhost .retr, Pop.noBreak_display currMsgId⟩
  refine .bind (onClient_keeps (.bind (Pop.Client.checkDeleted_keeps currMsgId) fun _ =>
    .bind (sendRequest_harmless hretr.2 (show .retr ∈ readerCommands by decide)) fun _ =>
      Pop.Client.expect_keeps)) fun bytes => ?_
  cases (MessageParser.parse bytes : Option μ) with
  | none => exact .fail _
  | some newMsg => exact .bind (.orCrash _) fun keep => .pure _

theorem getFilteredEmails_harmless (hhost : Pop.Host.SingleLine) (filter : μ → Option Bool) :
    Keeps (fun _ => True) WroteHarmless
      (getFilteredEmails filter : Exec (CrateError ε) _ (List μ)) := by
  have hvalue (number : Pop.Number) : Keeps (fun _ => True) WroteHarmless
      (value number : Exec (CrateError ε) _ Nat) := by
    unfold value
    cases number.value with
    | ok n => exact .pure n
    | error e => exact .fail _
  refine .bind (onClient_keeps (.bind (sendRequest_harmless
    (Pop.Request.noBreak_ofCommand hhost .stat).2 (by decide)) fun _ =>
      Pop.Client.expect_keeps)) fun stat => .bind (hvalue _) fun totalMsgCount => ?_
  exact .ite (.pure _) (.foldlM (crawlMessage_harmless hhost filter) _ _)

/-- Crawls of a reader, over any networks. Each of them may have been dropped. -/
inductive Attempts (ε : Type) {μ : Type} [MessageParser μ] (reader : Pop3Protocol Pop.PopStream) :
    List (μ → Option Bool) → Pop3Protocol Pop.PopStream → Prop where
  | nil : Attempts ε reader [] reader
  | crawl {filters : List (μ → Option Bool)} {current : Pop3Protocol Pop.PopStream}
      (h : Attempts ε reader filters current) (filter : μ → Option Bool) (reads : List Pop.ReadEvent)
      (writes : List Pop.WriteEvent) :
      Attempts ε reader (filters ++ [filter])
        (stateOf (getFilteredEmails (ε := ε) filter (current.supply reads writes)))

theorem Attempts.harmless (hhost : Pop.Host.SingleLine) {reader current : Pop3Protocol Pop.PopStream}
    {filters : List (μ → Option Bool)} (h : Attempts ε reader filters current)
    (hreader : reader.WroteHarmless) : current.WroteHarmless := by
  induction h with
  | nil => exact hreader
  | @crawl filters current h filter reads writes ih =>
    have hsupplied : (current.supply reads writes).WroteHarmless := by
      refine ⟨fun socket hsocket => ?_, ih.2⟩
      obtain ⟨s, hs, rfl⟩ := Option.map_eq_some_iff.mp hsocket
      exact ih.1 s hs
    have hcrawl := getFilteredEmails_harmless (ε := ε) hhost filter _ hsupplied
    cases hrun : getFilteredEmails (ε := ε) filter (current.supply reads writes) with
    | ok messages self => rwa [hrun] at hcrawl
    | error x self =>
      rw [hrun] at hcrawl
      exact hcrawl trivial

end Pop3Protocol

/-! ## Readers -/

variable [Dialer ω π ε] [ImapClient γ σ ε] [MessageParser μ]

/-- Whatever a server answers to a reader, and wherever the crawls of the reader are cut
off: a maildrop that the server has served to it is as it was, with no message marked. -/
theorem crawls_lose_nothing (hhost : Pop.Host.SingleLine) {added : List Server}
    {mailbox : Credentials} {proxy : Option π} {w w' : ω} {reader current : Pop3Protocol Pop.PopStream}
    (hconnect : (connectAny mailbox proxy (ServerMap.ofServers added) :
      Exec (CrateError ε) ω (Reader σ Pop.PopStream)) w = .ok (.pop3 reader) w')
    (hmailbox : mailbox.oauth2 = none →
      Pop.NoBreak (utf8 mailbox.email) ∧ Pop.NoBreak (utf8 mailbox.password))
    {filters : List (μ → Option Bool)} (hattempts : Pop3Protocol.Attempts ε reader filters current)
    (drop : Pop.Maildrop) : ∀ socket ∈ current.client.inner,
      ∃ phase, drop.open.after (Pop.completeLines [] (Pop.sent socket.history)) = ⟨drop, phase⟩ ∧
        (phase = .transaction [] ∨ ∃ name, phase = .authorization name) := by
  obtain ⟨_, _, pop3, w₁, -, -, -, hpop3⟩ := connectAny_pop3 hconnect
  obtain ⟨stream, w₂, hdial, -⟩ := bind_eq_ok.mp hpop3
  have hreader : reader.WroteHarmless := by
    rw [connect_dialled hdial] at hpop3
    cases hopen : (Pop3Connector.openClient mailbox : Exec (CrateError ε) _ Unit)
      ⟨Pop.Client.fresh (Pop.PopStream.new stream), mailbox⟩ with
    | ok _ reader' =>
      rw [hopen] at hpop3
      cases hpop3
      exact Pop3Protocol.openClient_harmless hhost mailbox hmailbox hopen
    | error x reader' =>
      rw [hopen] at hpop3
      cases hpop3
  intro socket hsocket
  have hspares :
      (drop.open.after (Pop.completeLines [] (Pop.sent socket.history))).Spares drop [] False :=
    Pop.Session.after_torn (.authorization none) ((hattempts.harmless hhost hreader).1 socket hsocket)
  generalize drop.open.after (Pop.completeLines [] (Pop.sent socket.history)) = s at hspares
  cases hspares with
  | authorization name => exact ⟨_, rfl, .inr ⟨name, rfl⟩⟩
  | transaction hmarked =>
    rw [List.subset_nil.mp hmarked]
    exact ⟨_, rfl, .inl rfl⟩
  | update hmarked hquit => exact absurd hquit id

omit [Pop.Host] in
theorem standard_singleLine : @Pop.Host.SingleLine .standard := by
  intro bytes
  constructor <;> exact fun hmem => absurd (Base64.le_encode bytes _ hmem) (by decide)

omit [Pop.Host] in
/-- A crawl that is dropped behind two bytes -/
theorem crawls_lose_nothing_dropped : ∃ current : Pop3Protocol Pop.PopStream,
    (current.client.inner.map fun socket => (Pop.sent socket.history).drop
      (Pop.sent socket.history).length.pred.pred) = some (ascii "ST") ∧
    ∀ socket ∈ current.client.inner, ∃ phase,
      @Pop.Session.after .standard userDrop.open (Pop.completeLines [] (Pop.sent socket.history)) =
        ⟨userDrop, phase⟩ ∧ (phase = .transaction [] ∨ ∃ name, phase = .authorization name) := by
  let _ : Pop.Host := .standard
  have hattempts : Pop3Protocol.Attempts Empty userReader [fun _ : RawMessage => some true] _ :=
    .crawl .nil _ [] [.ready 2]
  exact ⟨_, by decide +kernel, crawls_lose_nothing standard_singleLine userReader_connected
    (fun _ => by decide +kernel) hattempts userDrop⟩

end Mail
