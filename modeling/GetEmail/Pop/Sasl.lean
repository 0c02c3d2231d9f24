-- SUMMARY: SASL authenticators, and the handshake they hold over a connection.
import GetEmail.Pop.Stream

/-!
# SASL

An authenticator is given a communicator to talk to the server with. What it does
with it is up to its author, so a handshake is the tree of its calls: each node
is a call, with one branch for each result.
-/

namespace Pop

open Exec
open Nom (Bytes ascii)

/-- What the client needs of the connection it talks over. The client runs on
`PopStream`, whose history then has the lines as well; statements compare it with
other connections. -/
class Connection (κ : Type) where
  encode : Request → Exec Error κ Unit
  sendBytes : Bytes → Exec Error κ Unit
  readResponse : Command → Exec Error κ Response

instance [Host] : Connection PopStream where
  encode request := do
    PopStream.encode request
    PopStream.record (.line request.command request.display)
  sendBytes buf := do
    PopStream.sendBytes buf
    PopStream.record (.line .auth buf)
  readResponse := PopStream.readResponse

/-- Write a request and read the response to it. -/
def Connection.exchange {κ : Type} [Connection κ] (request : Request) : Exec Error κ Response := do
  Connection.encode request
  Connection.readResponse request.command

/-- The operations of the connection keep `R`. -/
structure Connection.Keep {κ : Type} [Connection κ] (counts : Exit Error → Prop) (R : κ → Prop) :
    Prop where
  encode (request : Request) : Keeps counts R (Connection.encode request)
  sendBytes (buf : Bytes) : Keeps counts R (Connection.sendBytes buf)
  readResponse (command : Command) : Keeps counts R (Connection.readResponse command)

theorem Connection.Keep.exchange {κ : Type} [Connection κ] {counts : Exit Error → Prop}
    {R : κ → Prop} (hR : Connection.Keep counts R) (request : Request) :
    Keeps counts R (Connection.exchange request) :=
  .bind (hR.encode request) fun _ => hR.readResponse request.command

/-! ## Communicator -/

structure Communicator (κ : Type) where
  stream : κ
  requests : List Request

namespace Communicator

variable {κ : Type} [Connection κ]

def onStream {α : Type} : Exec Error κ α → Exec Error (Communicator κ) α :=
  zoom stream fun stream c => { c with stream := stream }

def send (secret : Bytes) : Exec Error (Communicator κ) Unit := do
  let request : Request := .ofCommand (.base64 secret)
  onStream (Connection.encode request)
  modify fun c => { c with requests := c.requests ++ [request] }

/-- `requests.pop_front()`, as the command to read the next response with -/
def popFront : Exec Error (Communicator κ) Command := do
  match (← get).requests with
  | request :: requests =>
    modify fun c => { c with requests := requests }
    return request.command
  | [] => return .base64 []

def nextChallenge : Exec Error (Communicator κ) Text := do
  let command ← popFront
  match ← onStream (Connection.readResponse command) with
  | .challenge challenge => return challenge
  | _ => fail ⟨"Did not get a challenge as a response", .unexpectedResponse⟩

def stop : Exec Error (Communicator κ) Unit :=
  onStream (Connection.sendBytes (ascii "*"))

end Communicator

/-! ## Authenticators -/

/-- The calls that `Authenticator::handle` makes. -/
inductive Handshake where
  | finish (result : Except Error Unit)
  | send (secret : Bytes) (next : Except Error Unit → Handshake)
  | nextChallenge (next : Except Error Text → Handshake)
  | stop (next : Except Error Unit → Handshake)

def Handshake.run {κ : Type} [Connection κ] : Handshake → Exec Error (Communicator κ) Unit
  | .finish (.ok ()) => return ()
  | .finish (.error e) => fail e
  | .send secret next => do (next (← attempt (Communicator.send secret))).run
  | .nextChallenge next => do (next (← attempt Communicator.nextChallenge)).run
  | .stop next => do (next (← attempt Communicator.stop)).run

/-- A handshake writes the lines of an exchange only. -/
theorem Handshake.run_congr {κ : Type} {C C' : Connection κ}
    (hencode : ∀ secret,
      C'.encode (.ofCommand (.base64 secret)) = C.encode (.ofCommand (.base64 secret)))
    (hstop : C'.sendBytes (ascii "*") = C.sendBytes (ascii "*"))
    (hread : C'.readResponse = C.readResponse) (handshake : Handshake) :
    @Handshake.run κ C' handshake = @Handshake.run κ C handshake := by
  induction handshake with
  | finish result => cases result <;> rfl
  | send secret next ih =>
    have hsend : @Communicator.send κ C' secret = @Communicator.send κ C secret := by
      unfold Communicator.send
      simp only [hencode]
    simp only [Handshake.run, hsend, ih]
  | nextChallenge next ih =>
    have hnext : @Communicator.nextChallenge κ C' = @Communicator.nextChallenge κ C := by
      unfold Communicator.nextChallenge
      simp only [hread]
    simp only [Handshake.run, hnext, ih]
  | stop next ih =>
    have hstops : @Communicator.stop κ C' = @Communicator.stop κ C :=
      congrArg Communicator.onStream hstop
    simp only [Handshake.run, hstops, ih]

/-- A handshake keeps what its lines and its reads keep. -/
theorem Handshake.run_keeps {κ : Type} [Connection κ] {counts : Exit Error → Prop} {R : κ → Prop}
    (hcounts : ∀ e, counts (.error e))
    (hencode : ∀ secret, Keeps counts R (Connection.encode (.ofCommand (.base64 secret))))
    (hstop : Keeps counts R (Connection.sendBytes (ascii "*")))
    (hread : ∀ command, Keeps counts R (Connection.readResponse command)) (handshake : Handshake) :
    Keeps counts (fun communicator : Communicator κ => R communicator.stream) handshake.run := by
  have hstream {α : Type} {m : Exec Error κ α} (hm : Keeps counts R m) :
      Keeps counts (fun communicator : Communicator κ => R communicator.stream)
        (Communicator.onStream m) :=
    .zoom hm (fun _ hc => hc) fun _ _ _ ht => ht
  induction handshake with
  | finish result =>
    cases result with
    | ok u => exact .pure ()
    | error e => exact .fail e
  | send secret next ih =>
    refine .bind (.attempt hcounts ?_) ih
    exact .bind (hstream (hencode secret)) fun _ => .modify fun _ hc => hc
  | nextChallenge next ih =>
    refine .bind (.attempt hcounts ?_) ih
    refine .bind (.bind .get fun communicator => ?_) fun command =>
      .bind (hstream (hread command)) fun response => ?_
    · cases communicator.requests with
      | nil => exact .pure _
      | cons request requests => exact .bind (.modify fun _ hc => hc) fun _ => .pure _
    · cases response with
      | challenge challenge => exact .pure challenge
      | _ => exact .fail _
  | stop next ih => exact .bind (.attempt hcounts (hstream hstop)) ih

structure Authenticator where
  mechanism : Bytes
  auth : Option Bytes
  handle : Handshake

namespace Authenticator

/-- `PlainAuthenticator` -/
def plain (username password : Bytes) : Authenticator where
  mechanism := ascii "PLAIN"
  auth := some ([0] ++ username ++ [0] ++ password)
  handle := .finish (.ok ())

/-- `OAuth2Authenticator` -/
def oauth2 (user accessToken : Bytes) : Authenticator where
  mechanism := ascii "XOAUTH2"
  auth := some (ascii "user=" ++ user ++ [1] ++ ascii "auth=Bearer " ++ accessToken ++ [1, 1])
  handle := .finish (.ok ())

end Authenticator

end Pop
