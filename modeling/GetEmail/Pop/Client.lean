-- SUMMARY: The client of `lib.rs`: its operations, in the order of the source's checks.
import Mathlib.Data.List.Dedup
import Mathlib.Data.List.Sort
import GetEmail.Pop.Sasl

/-!
# Client

An operation runs on the client's fields. When it waits, what it leaves is what a
caller is left with who drops its future at that point.
-/

namespace Pop

open Exec
open Nom (Bytes ascii)

inductive ClientState where
  | authentication | transaction | update | none
  deriving DecidableEq, Repr

structure Client (κ : Type) where
  inner : Option κ
  capabilities : List Capability
  markedAsDel : List Nat
  greeting : Option Text
  /-- The field `read_greeting`. -/
  greeted : Bool
  state : ClientState

/-! ## Responses of the expected kind -/

namespace Response

def message? : Response → Option Text
  | .message text => some text
  | _ => none

def bytes? : Response → Option Bytes
  | .bytes body => some body
  | _ => none

def uidl? : Response → Option UidlResponse
  | .uidl listing => some listing
  | _ => none

/-- With the conversions `From<List>` and `From<Stat>` of `ListResponse`. -/
def list? : Response → Option ListResponse
  | .list items => some (.multiple items)
  | .stat item => some (.single item)
  | _ => none

def stat? : Response → Option Stat
  | .stat counts => some counts
  | _ => none

def capability? : Response → Option (List Capability)
  | .capability capabilities => some capabilities
  | _ => none

end Response

namespace Client

variable {κ : Type}

/-- The `match` on the kind of a response that ends most operations. -/
def expect {α : Type} (kind : Response → Option α) (expected : String) (response : Response) :
    Exec Error (Client κ) α :=
  match kind response with
  | some a => return a
  | none => fail ⟨"Did not received the expected " ++ expected, .unexpectedResponse⟩

/-! ## Checks -/

def shouldNotBeConnected : Error :=
  ⟨"There is a connection, but our state indicates that we should not be connected",
    .shouldNotBeConnected⟩

def notConnected : Error := ⟨"Not connected to any server", .notConnected⟩

/-- `self.inner_mut()?`, and what is then done with the connection. -/
def innerMut {α : Type} (op : Exec Error κ α) : Exec Error (Client κ) α := do
  let client ← get
  match client.inner with
  | some socket =>
    if client.state = .transaction ∨ client.state = .authentication then
      zoom (fun _ => socket) (fun socket client => { client with inner := some socket }) op
    else
      fail shouldNotBeConnected
  | none => fail notConnected

def checkClientState (state : ClientState) : Exec Error (Client κ) Unit := do
  if (← get).state ≠ state then
    fail ⟨"The connection is not the right state to use this command", .incorrectStateForCommand⟩

def hasReadGreeting : Exec Error (Client κ) Unit := do
  if (← get).greeted = false then
    fail ⟨"Did not connect to the server correctly, as we did not get a greeting yet",
      .serverFailedToGreet⟩

/-- The binary search finds what is in the sorted list. -/
def isDeleted (msgNumber : Nat) : Exec Error (Client κ) Bool := do
  modify fun client => { client with markedAsDel := client.markedAsDel.insertionSort (· ≤ ·) }
  return decide (msgNumber ∈ (← get).markedAsDel)

def checkDeleted (msgNumber : Nat) : Exec Error (Client κ) Unit := do
  if ← isDeleted msgNumber then
    fail ⟨"This message has been marked as deleted and cannot be refenced anymore",
      .messageIsDeleted⟩

/-- The intersection of two sets, counted. -/
def hasCapability (client : Client κ) (capabilities : List Capability) : Bool :=
  (client.capabilities.dedup.filter (· ∈ capabilities)).length = capabilities.length

def featureUnsupported : Error :=
  ⟨"The remote pop server does not support this command/function", .featureUnsupported⟩

def checkCapability (capabilities : List Capability) : Exec Error (Client κ) Unit := do
  if (← get).hasCapability capabilities = false then
    fail featureUnsupported

def toAsciiLowercase (bytes : Bytes) : Bytes :=
  bytes.map fun c => if 0x41 ≤ c ∧ c ≤ 0x5A then c + 0x20 else c

def hasAuthMechanism (client : Client κ) (mechanism : Bytes) : Bool :=
  client.capabilities.any fun
    | .sasl supportedMechanisms => supportedMechanisms.any fun supportedMechanism =>
      toAsciiLowercase supportedMechanism = toAsciiLowercase mechanism
    | _ => false

/-! ## Operations -/

variable [Connection κ]

/-- Sends a valid POP3 command and returns the response sent by the server. -/
def sendRequest (request : Request) : Exec Error (Client κ) Response :=
  innerMut (Connection.exchange request)

def noop : Exec Error (Client κ) Unit := do
  let _ ← sendRequest (.ofCommand .noop)
  return ()

def uidl (msgNumber : Option Nat) : Exec Error (Client κ) UidlResponse := do
  checkCapability [.uidl]
  if let some number := msgNumber then checkDeleted number
  let request := match msgNumber with
    | some number => (Request.ofCommand .uidl).addArg number
    | none => .ofCommand .uidl
  expect Response.uidl? "uidl response" (← sendRequest request)

def top (msgNumber lines : Nat) : Exec Error (Client κ) Bytes := do
  checkDeleted msgNumber
  checkCapability [.top]
  let request := ((Request.ofCommand .top).addArg msgNumber).addArg lines
  expect Response.bytes? "top response" (← sendRequest request)

def dele (msgNumber : Nat) : Exec Error (Client κ) Text := do
  checkDeleted msgNumber
  let request := (Request.ofCommand .dele).addArg msgNumber
  expect Response.message? "dele response" (← sendRequest request)

def rset : Exec Error (Client κ) Text := do
  let response ← sendRequest (.ofCommand .rset)
  modify fun client => { client with markedAsDel := [] }
  expect Response.message? "rset response" response

def retr (msgNumber : Nat) : Exec Error (Client κ) Bytes := do
  checkDeleted msgNumber
  let request := (Request.ofCommand .retr).addArg msgNumber
  expect Response.bytes? "retr response" (← sendRequest request)

def list (msgNumber : Option Nat) : Exec Error (Client κ) ListResponse := do
  if let some number := msgNumber then checkDeleted number
  let request := match msgNumber with
    | some number => (Request.ofCommand .list).addArg number
    | none => .ofCommand .list
  expect Response.list? "list response" (← sendRequest request)

def stat : Exec Error (Client κ) Stat := do
  expect Response.stat? "stat response" (← sendRequest (.ofCommand .stat))

/-- Fetches a list of capabilities for the currently connected server and returns it. -/
def capa : Exec Error (Client κ) (List Capability) := do
  expect Response.capability? "capa response" (← sendRequest (.ofCommand .capa))

def updateCapabilities : Exec Error (Client κ) Unit := do
  if let .ok capabilities ← attempt capa then
    modify fun client => { client with capabilities := capabilities }

def setState (state : ClientState) : Exec Error (Client κ) Unit :=
  modify fun client => { client with state := state }

def apop (name digest : Bytes) : Exec Error (Client κ) Text := do
  checkClientState .authentication
  hasReadGreeting
  let request := ((Request.ofCommand .apop).addArg name).addArg digest
  let response ← sendRequest request
  updateCapabilities
  setState .transaction
  expect Response.message? "apop response" response

def authRequest [Host] (authenticator : Authenticator) : Request :=
  let request := (Request.ofCommand .auth).addArg authenticator.mechanism
  match authenticator.auth with
  | some arg => request.addArg (Host.base64Encode arg)
  | none => request

/-- The part of `auth` that is done with the connection. -/
def dialog [Host] (authenticator : Authenticator) : Exec Error κ Response := do
  let request := authRequest authenticator
  Connection.encode request
  zoom (fun stream => ⟨stream, []⟩) (fun communicator _ => communicator.stream)
    authenticator.handle.run
  Connection.readResponse request.command

def auth [Host] (authenticator : Authenticator) : Exec Error (Client κ) Text := do
  checkClientState .authentication
  hasReadGreeting
  let response ← innerMut (dialog authenticator)
  let message ← expect Response.message? "auith response" response
  updateCapabilities
  setState .transaction
  return message

/-- The part of `login` after the SASL attempt. -/
def loginUserPass (user password : Bytes) : Exec Error (Client κ) (Text × Text) := do
  hasReadGreeting
  let userResponse ← sendRequest ((Request.ofCommand .user).addArg user)
  let passResponse ← sendRequest ((Request.ofCommand .pass).addArg password)
  updateCapabilities
  setState .transaction
  let userResponseStr ← expect Response.message? "user response" userResponse
  let passResponseStr ← expect Response.message? "pass response" passResponse
  return (userResponseStr, passResponseStr)

def login [Host] (user password : Bytes) : Exec Error (Client κ) (Text × Text) := do
  checkClientState .authentication
  if (← get).hasAuthMechanism (ascii "PLAIN") then
    match ← attempt (auth (.plain user password)) with
    | .ok text => return (text, ⟨[]⟩)
    | .error _ => loginUserPass user password
  else loginUserPass user password

def quit : Exec Error (Client κ) Text := do
  let response ← sendRequest (.ofCommand .quit)
  setState .update
  modify fun client => { client with inner := none }
  setState .none
  modify fun client => { client with greeted := false }
  modify fun client => { client with markedAsDel := [] }
  modify fun client => { client with capabilities := [] }
  expect Response.message? "quit response" response

/-! ## Connecting -/

def readGreeting : Exec Error (Client κ) Text := do
  if (← get).greeted then crash
  else
    let resp ← expect Response.message? "greeting" (← innerMut (Connection.readResponse .greet))
    modify fun client => { client with greeting := some resp, greeted := true }
    return resp

/-- The client that `create_client_from_socket` starts from. -/
def fresh (socket : κ) : Client κ :=
  { inner := some socket
    capabilities := []
    markedAsDel := []
    greeting := none
    greeted := false
    state := .authentication }

def createClient : Exec Error (Client κ) Unit := do
  let greeting ← readGreeting
  modify fun client => { client with greeting := some greeting }
  updateCapabilities

def createClientFromSocket (socket : κ) : EStateM.Result (Exit Error) (Client κ) Unit :=
  createClient (fresh socket)

end Client

/-- The function `new` of the crate. -/
def newClient [Host] (stream : Transport) : EStateM.Result (Exit Error) (Client PopStream) Unit :=
  Client.createClientFromSocket (PopStream.new stream)

end Pop
