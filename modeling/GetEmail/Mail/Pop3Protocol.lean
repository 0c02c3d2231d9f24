-- SUMMARY: The POP3 crawl of `pop3_protocol.rs`, over any connection.
import GetEmail.Mail.ImapProtocol
import GetEmail.Mail.Mailbox
import GetEmail.Pop.ClientSimulation
import GetEmail.Pop.Numbers

/-!
# POP3 crawl

The messages are numbered from one to the count that the server states, and are read
one after the other. The first error ends the crawl.
-/

namespace Mail

open Exec

/-- `Pop3` of `pop3_protocol.rs` -/
structure Pop3Protocol (κ : Type) where
  client : Pop.Client κ
  mailboxInfo : Credentials

namespace Pop3Protocol

variable {κ ε μ : Type}

/-- A call of the client, with the conversion `From<async_pop2::error::Error>`. -/
def onClient {α : Type} (m : Exec Pop.Error (Pop.Client κ) α) :
    Exec (CrateError ε) (Pop3Protocol κ) α :=
  mapError .pop (zoom client (fun client self => { self with client := client }) m)

def value (number : Pop.Number) : Exec (CrateError ε) (Pop3Protocol κ) Nat :=
  match number.value with
  | .ok n => return n
  | .error e => fail (.pop e)

variable [Pop.Connection κ] [MessageParser μ]

/-- One turn of the loop over the message numbers. -/
def crawlMessage (filter : μ → Option Bool) (result : List μ) (currMsgId : Nat) :
    Exec (CrateError ε) (Pop3Protocol κ) (List μ) := do
  let bytes ← onClient (Pop.Client.retr currMsgId)
  match MessageParser.parse bytes with
  | none => fail .messageParseFailed
  | some newMsg =>
    let keep ← orCrash (filter newMsg)
    return if keep then result ++ [newMsg] else result

def getFilteredEmails (filter : μ → Option Bool) : Exec (CrateError ε) (Pop3Protocol κ) (List μ) := do
  let stat ← onClient Pop.Client.stat
  let totalMsgCount ← value stat.messageCount
  if totalMsgCount < 1 then return []
  (List.range' 1 totalMsgCount).foldlM (crawlMessage filter) []

end Pop3Protocol

end Mail
