-- SUMMARY: The IMAP crawl of `imap_protocol.rs`, over any session.
import GetEmail.Exec.Basic
import GetEmail.Imap.SequenceSet

/-!
# IMAP crawl

The session and the message parser are other crates, so they are parameters. A filter is
what its `filter` makes of a message, where `none` is a panic. `issued` is not in the
source: it records the commands of the session, for statements to refer to.
-/

namespace Mail

open Exec

abbrev Bytes := List UInt8

/-! ## Other crates -/

structure Mailbox where
  /-- The field `exists`. -/
  existing : UInt32

structure Fetch where
  body : Option Bytes

inductive NameAttribute where
  | noInferiors | noSelect | marked | unmarked | all | archive | drafts | flagged | junk | sent | trash
  | extension (name : String)
  deriving DecidableEq, Repr

structure Name where
  attributes : List NameAttribute
  name : String

/-- An IMAP session. The streams that it returns are collected. -/
class Session (σ : Type) (ε : outParam Type) where
  select (folder : String) : Exec ε σ Mailbox
  fetch (sequenceSet : List Char) (query : String) : Exec ε σ (List (Except ε Fetch))
  list (reference pattern : Option String) : Exec ε σ (List (Except ε Name))

class MessageParser (μ : Type) where
  parse : Bytes → Option μ

/-- The messages that a filter lets pass -/
def kept {μ : Type} (filter : μ → Option Bool) (msgs : List μ) : List μ :=
  msgs.filter fun msg => filter msg == some true

/-! ## Crawl -/

/-- The errors of this part of the crate. -/
inductive Error (ε : Type) where
  | messageParseFailed
  | imap (e : ε)

/-- A command that a session was given. -/
inductive Issued where
  | select (folder : String)
  | fetch (sequenceSet : List Char) (query : String)
  | list (reference pattern : Option String)
  deriving DecidableEq, Repr

structure ImapProtocol (σ : Type) where
  session : σ
  issued : List Issued

namespace ImapProtocol

variable {σ ε μ : Type}

/-- Give the session a command. -/
def issue {α : Type} (command : Issued) (m : Exec ε σ α) : Exec (Error ε) (ImapProtocol σ) α := do
  modify fun protocol => { protocol with issued := protocol.issued ++ [command] }
  mapError .imap (zoom session (fun session protocol => { protocol with session := session }) m)

variable [Session σ ε] [MessageParser μ]

/-- One turn of the loop over the fetched messages. -/
def crawlMessage (filter : μ → Option Bool) (res : List μ) :
    Except ε Fetch → Exec (Error ε) (ImapProtocol σ) (List μ)
  | .error e => fail (.imap e)
  | .ok fetch =>
    match MessageParser.parse (fetch.body.getD []) with
    | none => fail .messageParseFailed
    | some newMsg => do
      let keep ← orCrash (filter newMsg)
      return if keep then res ++ [newMsg] else res

def crawlMessages (folder : String) (filter : μ → Option Bool) :
    Exec (Error ε) (ImapProtocol σ) (List μ) := do
  let mailbox ← issue (.select folder) (Session.select folder)
  let sequenceSet := ['1', ':'] ++ Nat.toDigits 10 mailbox.existing.toNat
  let fetchResult ← issue (.fetch sequenceSet "RFC822") (Session.fetch sequenceSet "RFC822")
  fetchResult.foldlM (crawlMessage filter) []

def getFolders : Exec (Error ε) (ImapProtocol σ) (List String) := do
  let stream ← issue (.list none (some "*")) (Session.list none (some "*"))
  stream.foldlM (fun serverFolders item =>
    match item with
    | .ok item =>
      let isOkFolder := item.attributes.all fun x => !([.sent, .drafts].contains x)
      return if isOkFolder then serverFolders ++ [item.name] else serverFolders
    | .error err => fail (.imap err)) []

/-- One turn of the loop over the folders. -/
def crawlFolder (filter : μ → Option Bool) (res : List μ) (folder : String) :
    Exec (Error ε) (ImapProtocol σ) (List μ) := do
  return res ++ (← crawlMessages folder filter)

def crawlFolders (folders : List String) (filter : μ → Option Bool) :
    Exec (Error ε) (ImapProtocol σ) (List μ) :=
  folders.foldlM (crawlFolder filter) []

def getFilteredEmails (filter : μ → Option Bool) : Exec (Error ε) (ImapProtocol σ) (List μ) := do
  crawlFolders (← getFolders) filter

end ImapProtocol

end Mail
