-- SUMMARY: The connectors of both protocols, and the choice between them.
import GetEmail.Mail.Pop3Protocol
import GetEmail.Mail.ServerMap

/-!
# Connecting

A mailbox is connected to the servers of its domain: over IMAP where they have it, and
over POP3 where they do not, or where IMAP fails. Connections and the IMAP client are
made by other crates, so they are parameters.
-/

namespace Mail

open Exec

/-! ## Other crates -/

/-- `connect_maybe_proxied_stream_tls`, in a world `ω` with proxies `π` -/
class Dialer (ω π : Type) (ε : outParam Type) where
  connectMaybeProxiedStreamTls (domain : String) (port : UInt16) (proxy : Option π) :
    Exec (CrateError ε) ω Pop.Transport

/-- The IMAP client, before it becomes the session `σ` -/
class ImapClient (γ : outParam Type) (σ : Type) (ε : outParam Type) where
  new : Pop.Transport → γ
  runCommandAndCheckOk (command : String) : Exec ε γ Unit
  authenticate (authType : String) (process : Bytes → String) : Exec ε γ σ

/-- `PlainAuth` of `imap_protocol.rs` -/
def PlainAuth.process (login password : String) (_ : Bytes) : String :=
  "\x00" ++ login ++ "\x00" ++ password

/-- `OAuth2` of `imap_protocol.rs` -/
def OAuth2.process (login token : String) (_ : Bytes) : String :=
  "user=" ++ login ++ "\x01auth=Bearer " ++ token ++ "\x01\x01"

/-! ## Connectors -/

/-- Run a computation on a state of its own. -/
def spawn {ε σ τ α : Type} (m : Exec ε τ α) (t : τ) : Exec ε σ (α × τ) := fun s =>
  match m t with
  | .ok a t' => .ok (a, t') s
  | .error x _ => .error x s

variable {ω π ε γ σ κ μ : Type}

namespace Pop3Connector

/-- The client is made from its socket, and given the credentials. -/
def openClient [Pop.Host] [Pop.Connection κ] (mailbox : Credentials) :
    Exec (CrateError ε) (Pop3Protocol κ) Unit := do
  Pop3Protocol.onClient Pop.Client.createClient
  match mailbox.oauth2 with
  | none =>
    let _ ← Pop3Protocol.onClient (Pop.Client.login (utf8 mailbox.email) (utf8 mailbox.password))
  | some oauth =>
    let authorizer := Pop.Authenticator.oauth2 (utf8 mailbox.email) (utf8 oauth.access.token)
    let _ ← Pop3Protocol.onClient (Pop.Client.auth authorizer)

def connect [Pop.Host] [Dialer ω π ε] (mailbox : Credentials) (pop3 : Pop3) (proxy : Option π) :
    Exec (CrateError ε) ω (Pop3Protocol Pop.PopStream) := do
  let stream ← Dialer.connectMaybeProxiedStreamTls pop3.endpoint.domain pop3.endpoint.port proxy
  let (_, reader) ← spawn (openClient mailbox)
    ⟨Pop.Client.fresh (Pop.PopStream.new stream), mailbox⟩
  return reader

end Pop3Connector

namespace ImapConnector

def connect [Dialer ω π ε] [ImapClient γ σ ε] (mailbox : Credentials) (imap : Imap)
    (proxy : Option π) : Exec (CrateError ε) ω (ImapProtocol σ) := do
  let stream ← Dialer.connectMaybeProxiedStreamTls imap.endpoint.domain imap.endpoint.port proxy
  let (_, client) ← spawn (mapError .imap (ImapClient.runCommandAndCheckOk σ "CAPABILITY"))
    (ImapClient.new σ stream)
  let (session, _) ← spawn (mapError .imap (match mailbox.oauth2 with
    | none => ImapClient.authenticate "PLAIN" (PlainAuth.process mailbox.email mailbox.password)
    | some oauth =>
      ImapClient.authenticate "XOAUTH2" (OAuth2.process mailbox.email oauth.access.token))) client
  return ⟨session, []⟩

end ImapConnector

/-! ## Readers -/

/-- The readers behind `DynEmailReader` -/
inductive Reader (σ κ : Type) where
  | imap (reader : ImapProtocol σ)
  | pop3 (reader : Pop3Protocol κ)

/-- The errors of the IMAP crawl among those of the crate -/
def Error.crate : Error ε → CrateError ε
  | .messageParseFailed => .messageParseFailed
  | .imap e => .imap e

def Reader.dynGetFilteredEmails [Session σ ε] [Pop.Connection κ] [MessageParser μ]
    (filter : μ → Option Bool) : Exec (CrateError ε) (Reader σ κ) (List μ)
  | .imap reader =>
    match mapError Error.crate (ImapProtocol.getFilteredEmails filter) reader with
    | .ok messages reader' => .ok messages (.imap reader')
    | .error x reader' => .error x (.imap reader')
  | .pop3 reader =>
    match Pop3Protocol.getFilteredEmails filter reader with
    | .ok messages reader' => .ok messages (.pop3 reader')
    | .error x reader' => .error x (.pop3 reader')

variable [Pop.Host] [Dialer ω π ε] [ImapClient γ σ ε]

/-- The end of `connect_any`, with the error of the IMAP connector, if it was tried -/
def connectPop3 (mailbox : Credentials) (proxy : Option π) (entry : Endpoints)
    (err : Option (CrateError ε)) : Exec (CrateError ε) ω (Reader σ Pop.PopStream) :=
  match entry.getPop3 with
  | some pop3 => .pop3 <$> Pop3Connector.connect mailbox pop3 proxy
  | none =>
    match err with
    | some err => fail err
    | none => crash

def connectAny (mailbox : Credentials) (proxy : Option π) (map : ServerMap) :
    Exec (CrateError ε) ω (Reader σ Pop.PopStream) :=
  match mailbox.getDomain with
  | none => fail (.mailboxInvalidDomain mailbox.email)
  | some domain =>
    match map.getByDomain domain with
    | none => fail (.serverNotFound domain)
    | some entry =>
      match entry.getImap with
      | some imap => do
        match ← attempt (ImapConnector.connect mailbox imap proxy) with
        | .ok imap => return .imap imap
        | .error imapErr => connectPop3 mailbox proxy entry (some imapErr)
      | none => connectPop3 mailbox proxy entry none

/-! ## Which servers are connected to -/

omit [Pop.Host] [Dialer ω π ε] [ImapClient γ σ ε] in
theorem getDomain_eq (mailbox : Credentials) :
    mailbox.getDomain = (splitOnce '@' mailbox.email.toList).map fun (_, domain) =>
      String.ofList domain := rfl

/-- The last server that was added with the domain decides: over IMAP, if it is served,
and over POP3, if IMAP is not served or fails. The error that is unwrapped is there. -/
theorem connectAny_servers (added : List Server) (mailbox : Credentials) (proxy : Option π) (w : ω) :
    (connectAny mailbox proxy (ServerMap.ofServers added) :
        Exec (CrateError ε) ω (Reader σ Pop.PopStream)) w =
      match splitOnce '@' mailbox.email.toList with
      | none => .error (.error (.mailboxInvalidDomain mailbox.email)) w
      | some (_, domain) =>
        match ServerMap.lastWith (String.ofList domain) added with
        | none => .error (.error (.serverNotFound (String.ofList domain))) w
        | some (.pop3 pop3) => (Reader.pop3 <$> Pop3Connector.connect mailbox pop3 proxy) w
        | some (.imap imap) => (Reader.imap <$> ImapConnector.connect mailbox imap proxy) w
        | some (.full pop3 imap) =>
          match (ImapConnector.connect mailbox imap proxy : Exec (CrateError ε) ω (ImapProtocol σ)) w with
          | .ok reader w' => .ok (.imap reader) w'
          | .error (.error _) w' => (Reader.pop3 <$> Pop3Connector.connect mailbox pop3 proxy) w'
          | .error x w' => .error x w' := by
  rw [connectAny, getDomain_eq]
  cases splitOnce '@' mailbox.email.toList with
  | none => rfl
  | some parts =>
    simp only [Option.map_some, ServerMap.getByDomain_ofServers]
    cases ServerMap.lastWith (String.ofList parts.2) added with
    | none => rfl
    | some endpoints =>
      cases endpoints with
      | pop3 pop3 => rfl
      | imap imap =>
        simp only [Endpoints.getImap, bind_apply, attempt, map_apply]
        cases (ImapConnector.connect mailbox imap proxy :
          Exec (CrateError ε) ω (ImapProtocol σ)) w with
        | ok reader w' => rfl
        | error x w' => cases x <;> rfl
      | full pop3 imap =>
        simp only [Endpoints.getImap, bind_apply, attempt]
        cases (ImapConnector.connect mailbox imap proxy :
          Exec (CrateError ε) ω (ImapProtocol σ)) w with
        | ok reader w' => rfl
        | error x w' => cases x <;> rfl

/-- A reader over POP3 comes from the POP3 server of the domain. -/
theorem connectAny_pop3 {added : List Server} {mailbox : Credentials} {proxy : Option π} {w w' : ω}
    {reader : Pop3Protocol Pop.PopStream}
    (h : (connectAny mailbox proxy (ServerMap.ofServers added) :
      Exec (CrateError ε) ω (Reader σ Pop.PopStream)) w = .ok (.pop3 reader) w') :
    ∃ domain endpoints pop3 w₁, mailbox.getDomain = some domain ∧
      ServerMap.lastWith domain added = some endpoints ∧ endpoints.getPop3 = some pop3 ∧
        Pop3Connector.connect mailbox pop3 proxy w₁ = .ok reader w' := by
  have hpop3 {pop3 : Pop3} {w₁ : ω} (h : (Reader.pop3 <$> Pop3Connector.connect mailbox pop3 proxy :
      Exec (CrateError ε) ω (Reader σ Pop.PopStream)) w₁ = .ok (.pop3 reader) w') :
      Pop3Connector.connect mailbox pop3 proxy w₁ = .ok reader w' := by
    rw [map_apply] at h
    cases hconnect : (Pop3Connector.connect mailbox pop3 proxy :
      Exec (CrateError ε) ω (Pop3Protocol Pop.PopStream)) w₁ with
    | ok reader' w₂ =>
      rw [hconnect] at h
      cases h
      rfl
    | error x w₂ =>
      rw [hconnect] at h
      cases h
  rw [connectAny_servers] at h
  rw [getDomain_eq]
  cases hparts : splitOnce '@' mailbox.email.toList with
  | none =>
    rw [hparts] at h
    cases h
  | some parts =>
    rw [hparts] at h
    dsimp only at h
    cases hendpoints : ServerMap.lastWith (String.ofList parts.2) added with
    | none =>
      rw [hendpoints] at h
      cases h
    | some endpoints =>
      rw [hendpoints] at h
      cases endpoints with
      | pop3 pop3 => exact ⟨_, _, pop3, w, rfl, hendpoints, rfl, hpop3 h⟩
      | imap imap =>
        simp only [map_apply] at h
        split at h
        · cases h
        · cases h
      | full pop3 imap =>
        dsimp only at h
        split at h
        · cases h
        · next w₁ _ => exact ⟨_, _, pop3, w₁, rfl, hendpoints, rfl, hpop3 h⟩
        · cases h

end Mail
