-- SUMMARY: From the credentials of a mailbox to its messages, over any network.
import GetEmail.Mail.Payloads
import GetEmail.Mail.Pop3Crawl

/-!
# Reading a maildrop

A reader is connected to the server of a maildrop, and crawls it any number of times.
Networks bring what the server answers: whole or in pieces, at once or with delays, and
maybe not to the end.
-/

namespace Mail

open Exec
open Nom (Bytes ascii)

variable {μ ω π ε γ σ : Type} [Pop.Host]

/-! ## Connecting to a maildrop -/

namespace Credentials

/-- The lines that log the mailbox in -/
def loginLines (mailbox : Credentials) (drop : Pop.Maildrop) : List Bytes :=
  drop.open.loginLines (utf8 mailbox.email) (utf8 mailbox.password)

/-- The maildrop lets the mailbox in. -/
def Opens (mailbox : Credentials) (drop : Pop.Maildrop) : Prop :=
  drop.open.TakesPlain (utf8 mailbox.email) (utf8 mailbox.password) ∨
    drop.open.Takes (utf8 mailbox.email) (utf8 mailbox.password)

instance (mailbox : Credentials) (drop : Pop.Maildrop) : Decidable (mailbox.Opens drop) :=
  inferInstanceAs (Decidable (_ ∨ _))

end Credentials

variable {drop : Pop.Maildrop} {mailbox : Credentials}

omit [Pop.Host] in
/-- A maildrop lets in who has its name and its password, if there is no NUL in a name. -/
theorem opens_iff (h : 0 ∉ utf8 mailbox.email) (h' : 0 ∉ drop.user) :
    mailbox.Opens drop ↔ utf8 mailbox.email = drop.user ∧ utf8 mailbox.password = drop.password := by
  constructor
  · rintro (⟨-, hplain⟩ | htakes)
    · have hsplit : 0 :: (utf8 mailbox.email ++ 0 :: utf8 mailbox.password) =
          0 :: (drop.user ++ 0 :: drop.password) := by
        simpa [Pop.Maildrop.plainResponse, Pop.Maildrop.open] using hplain
      exact (append_separator_inj h h').mp (List.cons_inj_right _ |>.mp hsplit)
    · exact htakes
  · exact .inr

/-- What the server says of a wrong password -/
def refusal (drop : Pop.Maildrop) (mailbox : Credentials) : Pop.Text :=
  ⟨(drop.remark (.authorization (some (utf8 mailbox.email))) (.pass (utf8 mailbox.password))).text⟩

/-- What connecting to the maildrop comes to -/
def opened (drop : Pop.Maildrop) (mailbox : Credentials) : Except (CrateError ε) Unit :=
  if mailbox.Opens drop then .ok ()
  else .error (.pop ⟨"Server error", .serverError (Pop.Text.display (refusal drop mailbox))⟩)

/-- The session behind it -/
def sessionOf (drop : Pop.Maildrop) (mailbox : Credentials) : Pop.Session :=
  if mailbox.Opens drop then reading drop else drop.open

theorem login_opened (drop : Pop.Maildrop) (mailbox : Credentials) :
    (drop.open.login (utf8 mailbox.email) (utf8 mailbox.password)).2 = sessionOf drop mailbox ∧
    ((drop.open.login (utf8 mailbox.email) (utf8 mailbox.password)).1.mapError CrateError.pop).map
      (fun _ => ()) = (opened drop mailbox : Except (CrateError ε) Unit) := by
  rw [Pop.Session.login, sessionOf, opened]
  by_cases hplain : drop.open.TakesPlain (utf8 mailbox.email) (utf8 mailbox.password)
  · have hopens : mailbox.Opens drop := .inl hplain
    rw [if_pos hplain, if_pos hopens, if_pos hopens]
    exact ⟨rfl, rfl⟩
  rw [if_neg hplain]
  by_cases htakes : drop.open.Takes (utf8 mailbox.email) (utf8 mailbox.password)
  · have hopens : mailbox.Opens drop := .inr htakes
    rw [if_pos htakes, if_pos hopens, if_pos hopens]
    exact ⟨rfl, rfl⟩
  · have hopens : ¬ mailbox.Opens drop := fun h => h.elim hplain htakes
    rw [if_neg htakes, if_neg hopens, if_neg hopens]
    exact ⟨rfl, rfl⟩

omit [Pop.Host] in
/-- A call of the client that is at its end -/
theorem onClient_settled (mailbox : Credentials) {κ α β : Type}
    {m : Exec Pop.Error (Pop.Client κ) α} {f : α → β} {client client' : Pop.Client κ}
    {r : Except Pop.Error β} (h : (f <$> m) client = settled r client') :
    (do let _ ← Pop3Protocol.onClient m : Exec (CrateError ε) _ Unit) ⟨client, mailbox⟩ =
      settled ((r.mapError CrateError.pop).map fun _ => ()) ⟨client', mailbox⟩ := by
  rw [map_apply] at h
  simp only [bind_apply, Pop3Protocol.onClient, mapError, zoom]
  cases hm : m client with
  | ok a c =>
    rw [hm] at h
    cases r <;> cases h
    rfl
  | error x c =>
    rw [hm] at h
    cases r <;> cases h
    rfl

theorem openClient_opened
    (hdecode : ∀ bytes, Pop.Host.base64Decode (Pop.Host.base64Encode bytes) = some bytes)
    (hoauth : mailbox.oauth2 = none) (lines : List Bytes)
    (hbrief : drop.Brief (mailbox.loginLines drop ++ lines)) :
    (Pop3Connector.openClient mailbox : Exec (CrateError ε) _ Unit)
        ⟨Pop.Client.fresh (drop.opening (mailbox.loginLines drop ++ lines)), mailbox⟩ =
      settled (opened drop mailbox)
        ⟨(sessionOf drop mailbox).client (some ⟨drop.welcome.text⟩) lines, mailbox⟩ := by
  have hcreate : (Pop3Protocol.onClient Pop.Client.createClient : Exec (CrateError ε) _ Unit)
      ⟨Pop.Client.fresh (drop.opening (mailbox.loginLines drop ++ lines)), mailbox⟩ =
      .ok () ⟨drop.open.client (some ⟨drop.welcome.text⟩) (mailbox.loginLines drop ++ lines), mailbox⟩ :=
    Pop3Protocol.onClient_ok mailbox (Pop.Maildrop.created hbrief)
  have hbriefLogin : Pop.Brief (drop.open.dialogue (mailbox.loginLines drop ++ lines)) := by
    intro exchange hexchange
    have hcapa : (drop.open.answer (.ofLine Pop.firstLine)).2 = drop.open :=
      Pop.Session.capa_answer (s := drop.open) (by simp [Pop.Maildrop.open])
    refine hbrief.2 exchange (List.mem_cons_of_mem _ ?_)
    rwa [hcapa]
  have hperforms : drop.open.Performs (.login (utf8 mailbox.email) (utf8 mailbox.password)) :=
    Pop.Session.performs_login hdecode _ _
  have hlogin := onClient_settled (ε := ε) mailbox
    (hperforms (some ⟨drop.welcome.text⟩) lines hbriefLogin)
  obtain ⟨hsession, hopened⟩ := login_opened (ε := ε) drop mailbox
  rw [Pop3Connector.openClient, bind_apply, hcreate, hoauth]
  refine hlogin.trans ?_
  rw [← hsession, ← hopened]
  rfl

/-! ## Over a network -/

section

variable {κ κ' : Type} {C : Pop.Connection κ} {C' : Pop.Connection κ'} {R : κ → κ' → Prop}

theorem openClient_simulates (hR : C.Simulates C' R) (mailbox : Credentials) :
    Simulates (Pop3Protocol.Twin R) (@Pop3Connector.openClient ε κ _ C mailbox)
      (@Pop3Connector.openClient ε κ' _ C' mailbox) := by
  refine .bind (Pop3Protocol.onClient_simulates (Pop.Client.createClient_simulates hR)) fun _ => ?_
  cases mailbox.oauth2 with
  | none =>
    exact .bind (Pop3Protocol.onClient_simulates (Pop.Client.login_simulates hR _ _)) fun _ => .pure _
  | some oauth =>
    exact .bind (Pop3Protocol.onClient_simulates (Pop.Client.auth_simulates hR _)) fun _ => .pure _

end

/-- An endpoint is served when every connection to it brings what a server of the maildrop
answers to a client that logs the mailbox in. -/
structure Served (ω : Type) {π ε : Type} [Dialer ω π ε] (drop : Pop.Maildrop)
    (mailbox : Credentials) (pop3 : Pop3) (proxy : Option π) : Prop where
  brief : drop.Brief (mailbox.loginLines drop)
  noBreak : ∀ line ∈ mailbox.loginLines drop, Pop.NoBreak line
  connection (w w' : ω) (stream : Pop.Transport) :
    (Dialer.connectMaybeProxiedStreamTls pop3.endpoint.domain pop3.endpoint.port proxy :
      Exec (CrateError ε) ω Pop.Transport) w = .ok stream w' →
    stream.Smooth ∧ Pop.incoming stream.reads <+: (drop.opening (mailbox.loginLines drop)).replies

/-- The texts of the lines with which a reader is connected -/
def connectLines (drop : Pop.Maildrop) (mailbox : Credentials) : List Bytes :=
  Pop.firstLine :: mailbox.loginLines drop

/-- The reader is at the end of what a reader does over transcripts. -/
def Follows (drop : Pop.Maildrop) (mailbox : Credentials) (lines : List Bytes)
    (reader : Pop3Protocol Pop.PopStream) : Prop :=
  Pop3Protocol.Twin (Pop.PopStream.Brings lines) reader
    ⟨(sessionOf drop mailbox).client (some ⟨drop.welcome.text⟩) [], mailbox⟩

/-- The client that is opened over a network -/
theorem openClient_follows
    (hdecode : ∀ bytes, Pop.Host.base64Decode (Pop.Host.base64Encode bytes) = some bytes)
    (hoauth : mailbox.oauth2 = none) (hbrief : drop.Brief (mailbox.loginLines drop))
    {stream : Pop.Transport} (hsmooth : stream.Smooth)
    (hreads : Pop.incoming stream.reads <+: (drop.opening (mailbox.loginLines drop)).replies) :
    Alike (Pop3Protocol.Twin (Pop.PopStream.Brings (connectLines drop mailbox)))
      ((Pop3Connector.openClient mailbox : Exec (CrateError ε) _ Unit)
        ⟨Pop.Client.fresh (Pop.PopStream.new stream), mailbox⟩)
      (settled (opened drop mailbox)
        ⟨(sessionOf drop mailbox).client (some ⟨drop.welcome.text⟩) [], mailbox⟩) := by
  have hbrings := Pop.PopStream.new_brings hsmooth hreads
  have htexts : (drop.opening (mailbox.loginLines drop)).coming.map Pop.Exchange.line =
      connectLines drop mailbox := Pop.Session.dialogue_lines _ _
  rw [htexts] at hbrings
  have hplayed := openClient_opened (ε := ε) hdecode hoauth [] (by rwa [List.append_nil])
  rw [List.append_nil] at hplayed
  rw [← hplayed]
  exact openClient_simulates (Pop.PopStream.simulates_transcript _) mailbox _ _
    ⟨Pop.Client.fresh_twin hbrings, rfl⟩

omit [Pop.Host] in
theorem settled_ended {ε σ α : Type} (a : Except ε α) (s : σ) (x : Exit ε)
    (h : exit? (settled a s) = some x) : x.IsError := by
  cases a <;> cases h
  trivial

variable [Dialer ω π ε] {pop3 : Pop3} {proxy : Option π}

/-- The client is opened over the connection that was made. -/
theorem connect_dialled {w w₁ : ω} {stream : Pop.Transport}
    (hdial : (Dialer.connectMaybeProxiedStreamTls pop3.endpoint.domain pop3.endpoint.port proxy :
      Exec (CrateError ε) ω Pop.Transport) w = .ok stream w₁) :
    (Pop3Connector.connect mailbox pop3 proxy :
      Exec (CrateError ε) ω (Pop3Protocol Pop.PopStream)) w =
      match (Pop3Connector.openClient mailbox : Exec (CrateError ε) _ Unit)
        ⟨Pop.Client.fresh (Pop.PopStream.new stream), mailbox⟩ with
      | .ok _ reader => .ok reader w₁
      | .error x _ => .error x w₁ := by
  rw [Pop3Connector.connect, bind_apply, hdial]
  simp only [bind_apply, spawn]
  cases (Pop3Connector.openClient mailbox : Exec (CrateError ε) _ Unit)
    ⟨Pop.Client.fresh (Pop.PopStream.new stream), mailbox⟩ <;> rfl

/-- A reader that is connected is logged in. -/
theorem connect_follows
    (hdecode : ∀ bytes, Pop.Host.base64Decode (Pop.Host.base64Encode bytes) = some bytes)
    (hoauth : mailbox.oauth2 = none) (hserved : Served ω drop mailbox pop3 proxy) {w w' : ω}
    {reader : Pop3Protocol Pop.PopStream}
    (hconnect : Pop3Connector.connect mailbox pop3 proxy w = .ok reader w') :
    mailbox.Opens drop ∧ Follows drop mailbox (connectLines drop mailbox) reader := by
  obtain ⟨stream, w₁, hdial, -⟩ := bind_eq_ok.mp hconnect
  obtain ⟨hsmooth, hreads⟩ := hserved.connection w w₁ stream hdial
  have hfollows := openClient_follows (ε := ε) hdecode hoauth hserved.brief hsmooth hreads
  rw [connect_dialled hdial] at hconnect
  cases hclient : (Pop3Connector.openClient mailbox : Exec (CrateError ε) _ Unit)
    ⟨Pop.Client.fresh (Pop.PopStream.new stream), mailbox⟩ with
  | error x reader' =>
    rw [hclient] at hconnect
    cases hconnect
  | ok _ reader' =>
    rw [hclient] at hconnect hfollows
    cases hconnect
    obtain ⟨t, hopened, htwin⟩ := hfollows.of_ok (settled_ended _ _)
    rw [opened] at hopened
    by_cases hopens : mailbox.Opens drop
    · rw [if_pos hopens] at hopened
      cases hopened
      exact ⟨hopens, htwin⟩
    · rw [if_neg hopens] at hopened
      cases hopened

/-- Over a connection that was made, a reader comes out exactly if the mailbox has the name
and the password of the maildrop; otherwise the server's refusal does. -/
theorem connect_opens
    (hdecode : ∀ bytes, Pop.Host.base64Decode (Pop.Host.base64Encode bytes) = some bytes)
    (hoauth : mailbox.oauth2 = none) (hemail : 0 ∉ utf8 mailbox.email) (huser : 0 ∉ drop.user)
    (hserved : Served ω drop mailbox pop3 proxy) {w w₁ : ω} {stream : Pop.Transport}
    (hdial : (Dialer.connectMaybeProxiedStreamTls pop3.endpoint.domain pop3.endpoint.port proxy :
      Exec (CrateError ε) ω Pop.Transport) w = .ok stream w₁)
    (hended : ∀ x, exit? ((Pop3Connector.connect mailbox pop3 proxy :
      Exec (CrateError ε) ω (Pop3Protocol Pop.PopStream)) w) = some x → x.IsError) :
    (utf8 mailbox.email = drop.user ∧ utf8 mailbox.password = drop.password →
        ∃ reader, Pop3Connector.connect mailbox pop3 proxy w = .ok reader w₁) ∧
      (¬ (utf8 mailbox.email = drop.user ∧ utf8 mailbox.password = drop.password) →
        Pop3Connector.connect mailbox pop3 proxy w = .error (.error (.pop
          ⟨"Server error", .serverError (Pop.Text.display (refusal drop mailbox))⟩)) w₁) := by
  rw [← opens_iff hemail huser]
  obtain ⟨hsmooth, hreads⟩ := hserved.connection w w₁ stream hdial
  have hfollows := openClient_follows (ε := ε) hdecode hoauth hserved.brief hsmooth hreads
  rw [connect_dialled hdial] at hended ⊢
  generalize (Pop3Connector.openClient mailbox : Exec (CrateError ε) _ Unit)
    ⟨Pop.Client.fresh (Pop.PopStream.new stream), mailbox⟩ = r at hended hfollows ⊢
  have hexit (x : Exit (CrateError ε)) (hx : exit? r = some x) : x.IsError := by
    refine hended x ?_
    cases r <;> exact hx
  have houtcome := (hfollows.ended hexit (settled_ended _ _)).1
  rw [outcome_settled, opened] at houtcome
  constructor
  · intro hopens
    rw [if_pos hopens] at houtcome
    cases r with
    | ok _ reader => exact ⟨reader, rfl⟩
    | error x reader => cases houtcome
  · intro hopens
    rw [if_neg hopens] at houtcome
    cases r with
    | ok _ reader => cases houtcome
    | error x reader =>
      cases houtcome
      rfl

/-! ## Crawling -/

variable [MessageParser μ]

/-- The transport of the reader goes on with other events. -/
def Pop3Protocol.supply (self : Pop3Protocol Pop.PopStream) (reads : List Pop.ReadEvent)
    (writes : List Pop.WriteEvent) : Pop3Protocol Pop.PopStream :=
  { self with client := self.client.supply reads writes }

/-- Crawls with what came of them -/
abbrev CrawlLog (ε μ : Type) := List ((μ → Option Bool) × Except (Exit (CrateError ε)) (List μ))

/-- Crawls of a reader, over networks that bring what the server answers, with filters that
return on the messages -/
inductive Crawls (drop : Pop.Maildrop) (reader : Pop3Protocol Pop.PopStream) :
    CrawlLog ε μ → Pop3Protocol Pop.PopStream → Prop where
  | nil : Crawls drop reader [] reader
  | crawl {crawls : CrawlLog ε μ} {current : Pop3Protocol Pop.PopStream}
      (h : Crawls drop reader crawls current) (filter : μ → Option Bool)
      (hjudged : Judged filter drop.messages) {reads : List Pop.ReadEvent}
      {writes : List Pop.WriteEvent} (hreliable : Pop.Reliable reads writes)
      (hreads : Pop.incoming reads <+:
        ((reading drop).dialogue (crawlLines μ drop.messages)).flatMap Pop.Exchange.reply) :
      Crawls drop reader
        (crawls ++ [(filter, outcome (Pop3Protocol.getFilteredEmails filter
          (current.supply reads writes)))])
        (stateOf (Pop3Protocol.getFilteredEmails (ε := ε) filter (current.supply reads writes)))

/-- The lines of a reader that has crawled -/
def readerLines (μ : Type) [MessageParser μ] (drop : Pop.Maildrop) (mailbox : Credentials)
    (crawls : Nat) : List Bytes :=
  connectLines drop mailbox ++ (List.replicate crawls (crawlLines μ drop.messages)).flatten

/-- The crawls came to their ends. -/
def CrawlsEnded (crawls : CrawlLog ε μ) : Prop :=
  ∀ crawl ∈ crawls, ∀ x, crawl.2 = .error x → x.IsError

omit [Dialer ω π ε] in
theorem crawls_follow {reader current : Pop3Protocol Pop.PopStream} {crawls : CrawlLog ε μ}
    (hopens : mailbox.Opens drop)
    (hbrief : Pop.Brief ((reading drop).dialogue (crawlLines μ drop.messages)))
    (hreader : Follows drop mailbox (connectLines drop mailbox) reader)
    (h : Crawls drop reader crawls current) (hended : CrawlsEnded crawls) :
    (∀ crawl ∈ crawls, crawl.2 = (Pop3Protocol.crawlResult drop crawl.1).mapError .error) ∧
      Follows drop mailbox (readerLines μ drop mailbox crawls.length) current := by
  induction h with
  | nil => exact ⟨by simp, by simpa [readerLines] using hreader⟩
  | @crawl crawls current _ filter hjudged reads writes hreliable hreads ih =>
    obtain ⟨hresults, hfollows⟩ := ih fun crawl hcrawl => hended crawl (List.mem_append_left _ hcrawl)
    have hlast := hended _ (List.mem_append_right _ (List.mem_singleton_self _))
    have hsession : sessionOf drop mailbox = reading drop := if_pos hopens
    rw [Follows, hsession] at hfollows ⊢
    have hproceed := hfollows.1.proceed (Pop.Session.client_finished (reading drop)) hreliable hreads
    rw [Pop.Session.client_proceed, Pop.Session.dialogue_lines] at hproceed
    have hcrawl := Pop3Protocol.getFilteredEmails_simulates (ε := ε)
      (Pop.PopStream.simulates_transcript _) filter (current.supply reads writes)
      ⟨(reading drop).client (some ⟨drop.welcome.text⟩) (crawlLines μ drop.messages), mailbox⟩
      ⟨hproceed, hfollows.2⟩
    rw [Pop3Protocol.getFilteredEmails_reading filter hjudged hbrief] at hcrawl
    have hexit (x : Exit (CrateError ε)) (hx : exit? (Pop3Protocol.getFilteredEmails filter
        (current.supply reads writes)) = some x) : x.IsError :=
      hlast x (by rw [eq_error_of_exit? hx]; rfl)
    obtain ⟨houtcome, htwin⟩ := hcrawl.ended hexit (settled_ended _ _)
    rw [outcome_settled] at houtcome
    rw [stateOf_settled] at htwin
    have hlines : readerLines μ drop mailbox (crawls ++ [(filter, outcome
        (Pop3Protocol.getFilteredEmails filter (current.supply reads writes)))]).length =
        readerLines μ drop mailbox crawls.length ++ crawlLines μ drop.messages := by
      simp [readerLines, List.replicate_succ', List.append_assoc]
    rw [hlines]
    refine ⟨?_, htwin⟩
    simp only [List.forall_mem_append, List.forall_mem_singleton]
    exact ⟨hresults, houtcome⟩

/-! ## The session behind a reader -/

omit [MessageParser μ] [Dialer ω π ε] in
theorem after_append (s : Pop.Session) (lines more : List Bytes) :
    s.after (lines ++ more) = (s.after lines).after more := by
  induction lines generalizing s with
  | nil => rfl
  | cons line lines ih => exact ih _

omit [MessageParser μ] [Dialer ω π ε] in
/-- A line that looks at the messages leaves the session as it is. -/
theorem after_looks {s : Pop.Session} (op : Pop.ClientOp) {request : Pop.Request}
    (hop : op.requests = [request]) (hplain : Pop.Session.Plain op) (hlooks : Pop.Looks op)
    (lines : List Bytes) : s.after (request.display :: lines) = s.after lines := by
  rw [Pop.Session.after, Pop.Session.order_read hop hplain, Pop.Session.answer_looks hlooks]

omit [Dialer ω π ε] in
theorem after_crawl (drop : Pop.Maildrop) :
    (reading drop).after (crawlLines μ drop.messages) = reading drop := by
  have hretr (messages : List Pop.Stored) (number : Nat) :
      (reading drop).after (retrLines μ number messages) = reading drop := by
    induction messages generalizing number with
    | nil => rfl
    | cons m messages ih =>
      rw [retrLines, after_looks (.retr number) rfl trivial trivial]
      split
      · exact ih _
      · rfl
  rw [crawlLines, after_looks .stat rfl trivial trivial]
  split
  · exact hretr _ _
  · rfl

omit [Dialer ω π ε] in
/-- A reader leaves the maildrop as it is. -/
theorem after_reader
    (hdecode : ∀ bytes, Pop.Host.base64Decode (Pop.Host.base64Encode bytes) = some bytes)
    (hopens : mailbox.Opens drop) (crawls : Nat) :
    drop.open.after (readerLines μ drop mailbox crawls) = reading drop := by
  have hconnect : drop.open.after (connectLines drop mailbox) = reading drop := by
    have hcapa : (drop.open.answer (.ofLine Pop.firstLine)).2 = drop.open :=
      Pop.Session.capa_answer (s := drop.open) (by simp [Pop.Maildrop.open])
    have hlogin := Pop.Session.after_login hdecode drop none (utf8 mailbox.email)
      (utf8 mailbox.password)
    rw [connectLines, Pop.Session.after, hcapa]
    exact hlogin.trans ((login_opened (ε := Empty) drop mailbox).1.trans (if_pos hopens))
  rw [readerLines, after_append, hconnect]
  induction crawls with
  | zero => rfl
  | succ crawls ih =>
    rw [List.replicate_succ, List.flatten_cons, after_append, after_crawl, ih]

/-! ## Reading a mailbox -/

/-- When the server of the domain serves the maildrop, a reader that was connected over POP3
is logged in, and every crawl that comes to its end returns the messages of the maildrop
that match, in their order, if all of them parse. The reader has written the lines of its
crawls and no others, and they leave the maildrop as it is. -/
theorem mailbox_read [ImapClient γ σ ε]
    (hdecode : ∀ bytes, Pop.Host.base64Decode (Pop.Host.base64Encode bytes) = some bytes)
    (hoauth : mailbox.oauth2 = none) {added : List Server}
    (hserved : ∀ domain endpoints pop3, mailbox.getDomain = some domain →
      ServerMap.lastWith domain added = some endpoints → endpoints.getPop3 = some pop3 →
        Served ω drop mailbox pop3 proxy)
    (hbrief : Pop.Brief ((reading drop).dialogue (crawlLines μ drop.messages))) {w w' : ω}
    {reader current : Pop3Protocol Pop.PopStream}
    (hconnect : (connectAny mailbox proxy (ServerMap.ofServers added) :
      Exec (CrateError ε) ω (Reader σ Pop.PopStream)) w = .ok (.pop3 reader) w')
    {crawls : CrawlLog ε μ} (h : Crawls drop reader crawls current) (hended : CrawlsEnded crawls) :
    mailbox.Opens drop ∧
      (∀ crawl ∈ crawls, ∀ msgs, crawl.2 = .ok msgs ↔ drop.messages.length < 2 ^ 64 ∧
        (∀ m ∈ drop.messages, (parsed? m : Option μ).isSome) ∧
          msgs = kept crawl.1 (drop.messages.filterMap parsed?)) ∧
      (∀ stream ∈ current.client.inner,
        Pop.textsOf stream.history = readerLines μ drop mailbox crawls.length) ∧
      drop.open.after (readerLines μ drop mailbox crawls.length) = reading drop := by
  obtain ⟨domain, endpoints, pop3, w₁, hdomain, hendpoints, hpop3, hconnect⟩ := connectAny_pop3 hconnect
  obtain ⟨hopens, hreader⟩ := connect_follows hdecode hoauth
    (hserved domain endpoints pop3 hdomain hendpoints hpop3) hconnect
  obtain ⟨hresults, hfollows⟩ := crawls_follow hopens hbrief hreader h hended
  refine ⟨hopens, fun crawl hcrawl msgs => ?_, fun stream hstream => ?_,
    after_reader hdecode hopens crawls.length⟩
  · rw [hresults crawl hcrawl, Pop3Protocol.crawlResult, collected_eq]
    by_cases hfits : drop.messages.length < 2 ^ 64
    · by_cases hparsed : ∀ m ∈ drop.messages, (parsed? m : Option μ).isSome
      · rw [if_pos hfits, if_pos hparsed]
        exact ⟨fun h => ⟨hfits, hparsed, (Except.ok.inj h).symm⟩, fun h => congrArg Except.ok h.2.2.symm⟩
      · rw [if_pos hfits, if_neg hparsed]
        exact iff_of_false (by simp [Except.mapError]) fun h => hparsed h.2.1
    · rw [if_neg hfits]
      exact iff_of_false (by simp [Except.mapError]) fun h => hfits h.1
  · exact hfollows.1.texts (Pop.Session.client_finished _) stream hstream

/-! ## A mailbox with one message -/

/-- The bytes of a message, which all parse -/
structure RawMessage where
  bytes : Bytes

instance : MessageParser RawMessage := ⟨fun bytes => some ⟨bytes⟩⟩

def userMailbox : Credentials := ⟨"user@host", "secret", none⟩

def userDrop : Pop.Maildrop := { Pop.oneMessage with user := ascii "user@host" }

def userServer : Server := ⟨["host"], .pop3 ⟨⟨"pop3.host", 995⟩⟩⟩

/-- A connection that brings what the server answers, each reply in one piece -/
def userConnection : Pop.Transport :=
  let _ : Pop.Host := .standard
  Pop.answering (userDrop.greeting ::
    (userDrop.open.dialogue (connectLines userDrop userMailbox)).map Pop.Exchange.reply)

/-- The world in which every endpoint is this server's -/
inductive OneServer where
  | online

instance : Dialer OneServer Empty Empty := ⟨fun _ _ _ => pure userConnection⟩

instance : ImapClient Unit Unit Empty := ⟨fun _ => (), fun _ => pure (), fun _ _ => pure ()⟩

omit [Pop.Host] in
theorem userServer_served (pop3 : Pop3) :
    @Served .standard OneServer Empty Empty _ userDrop userMailbox pop3 none := by
  let _ : Pop.Host := .standard
  refine ⟨by decide +kernel, by decide +kernel, fun w w' stream hdial => ?_⟩
  cases hdial
  refine ⟨⟨rfl, ?_, ?_, ?_⟩, ?_⟩
  · simp [userConnection, Pop.answering]
  · simp [userConnection, Pop.answering]
  · simp [userConnection, Pop.answering]
  · decide +kernel

/-- What the server answers to a crawl, each reply in one piece -/
def userCrawl : Pop.Transport :=
  let _ : Pop.Host := .standard
  Pop.answering (((reading userDrop).dialogue
    (crawlLines RawMessage userDrop.messages)).map Pop.Exchange.reply)

/-- The reader that comes out -/
def userReader : Pop3Protocol Pop.PopStream :=
  let _ : Pop.Host := .standard
  stateOf ((Pop3Connector.openClient userMailbox : Exec (CrateError Empty) _ Unit)
    ⟨Pop.Client.fresh (Pop.PopStream.new userConnection), userMailbox⟩)

omit [Pop.Host] in
theorem userConnection_dialled (domain : String) (port : UInt16) :
    (Dialer.connectMaybeProxiedStreamTls domain port (none : Option Empty) :
      Exec (CrateError Empty) OneServer Pop.Transport) .online = .ok userConnection .online := rfl

omit [Pop.Host] in
theorem userReader_opened (pop3 : Pop3) :
    @Pop3Connector.connect OneServer Empty Empty .standard _ userMailbox pop3 none .online =
      .ok userReader .online := by
  let _ : Pop.Host := .standard
  have hopen : (Pop3Connector.openClient userMailbox : Exec (CrateError Empty) _ Unit)
      ⟨Pop.Client.fresh (Pop.PopStream.new userConnection), userMailbox⟩ = .ok () userReader :=
    eq_ok_of_value? (by decide +kernel)
  rw [connect_dialled (userConnection_dialled _ _), hopen]

omit [Pop.Host] in
theorem userReader_connected : @connectAny OneServer Empty Empty Unit Unit .standard _ _ userMailbox none
    (ServerMap.ofServers [userServer]) .online = .ok (.pop3 userReader) .online := by
  let _ : Pop.Host := .standard
  have hparts : splitOnce '@' userMailbox.email.toList = some ("user".toList, "host".toList) := by
    decide +kernel
  have hlast : ServerMap.lastWith (String.ofList "host".toList) [userServer] =
      some userServer.endpoint := by decide +kernel
  rw [connectAny_servers, hparts]
  dsimp only
  rw [hlast]
  dsimp only [userServer]
  rw [map_apply, userReader_opened]

omit [Pop.Host] in
theorem mailbox_read_userDrop :
    ∃ (current : Pop3Protocol Pop.PopStream) (crawls : CrawlLog Empty RawMessage),
      crawls.length = 1 ∧ userMailbox.Opens userDrop ∧
        (∀ crawl ∈ crawls, ∀ msgs, crawl.2 = .ok msgs ↔ userDrop.messages.length < 2 ^ 64 ∧
          (∀ m ∈ userDrop.messages, (parsed? m : Option RawMessage).isSome) ∧
            msgs = kept crawl.1 (userDrop.messages.filterMap parsed?)) ∧
        (∀ stream ∈ current.client.inner, Pop.textsOf stream.history =
          @readerLines .standard RawMessage _ userDrop userMailbox crawls.length) ∧
        @Pop.Session.after .standard userDrop.open
          (@readerLines .standard RawMessage _ userDrop userMailbox crawls.length) =
            reading userDrop := by
  let _ : Pop.Host := .standard
  have hcrawl : (value? (Pop3Protocol.getFilteredEmails (ε := Empty) (fun _ : RawMessage => some true)
      (userReader.supply userCrawl.reads userCrawl.writes))).isSome := by
    decide +kernel
  have hreads : Pop.incoming userCrawl.reads <+: ((reading userDrop).dialogue
      (crawlLines RawMessage userDrop.messages)).flatMap Pop.Exchange.reply := by
    decide +kernel
  have hreliable : Pop.Reliable userCrawl.reads userCrawl.writes :=
    ⟨by simp [userCrawl, Pop.answering], by simp [userCrawl, Pop.answering],
      by simp [userCrawl, Pop.answering]⟩
  have hcrawls : Crawls userDrop userReader _ _ :=
    .crawl (ε := Empty) .nil (fun _ : RawMessage => some true) (fun _ _ _ _ => rfl) hreliable hreads
  refine ⟨_, _, rfl, mailbox_read Base64.decode_encode rfl (fun _ _ pop3 _ _ _ =>
    userServer_served pop3) (by decide +kernel) userReader_connected hcrawls ?_⟩
  obtain ⟨msgs, hmsgs⟩ := Option.isSome_iff_exists.mp hcrawl
  intro crawl hmem x hx
  rw [List.nil_append, List.mem_singleton] at hmem
  subst hmem
  rw [eq_ok_of_value? hmsgs] at hx
  cases hx

omit [Pop.Host] in
theorem connect_opens_userMailbox :
    (utf8 userMailbox.email = userDrop.user ∧ utf8 userMailbox.password = userDrop.password →
        ∃ reader, @Pop3Connector.connect OneServer Empty Empty .standard _ userMailbox
          ⟨⟨"pop3.host", 995⟩⟩ none .online = .ok reader .online) ∧
      (¬ (utf8 userMailbox.email = userDrop.user ∧ utf8 userMailbox.password = userDrop.password) →
        @Pop3Connector.connect OneServer Empty Empty .standard _ userMailbox
          ⟨⟨"pop3.host", 995⟩⟩ none .online = .error (.error (.pop
            ⟨"Server error", .serverError (Pop.Text.display (refusal userDrop userMailbox))⟩)) .online) := by
  let _ : Pop.Host := .standard
  refine connect_opens Base64.decode_encode rfl (by decide +kernel) (by decide +kernel)
    (userServer_served _) (userConnection_dialled _ _) fun x hx => ?_
  rw [userReader_opened] at hx
  cases hx

end Mail
