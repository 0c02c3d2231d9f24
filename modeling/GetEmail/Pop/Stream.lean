-- SUMMARY: The buffered response stream of `stream.rs`.
import GetEmail.Pop.Parser
import GetEmail.Pop.Transport

/-!
# PopStream

Requests are written out line by line, and responses are parsed from the front
of the receive buffer under the commands in the queue. `history` is the only
field that is not in the source: it records the traffic and the answers, for
statements to refer to.
-/

namespace Pop

open Exec
open Nom (Bytes)

/-- What happened on a stream. -/
inductive Event where
  | sent (bytes : Bytes)
  /-- A line was written in full. Its answer is to be read with `command`. -/
  | line (command : Command) (bytes : Bytes)
  | received (bytes : Bytes)
  /-- `decode` returned the response to the command at the head of the queue. -/
  | answered (command : Command) (response : Response)
  deriving DecidableEq, Repr

/-- The bytes that came in. -/
def received (history : List Event) : Bytes :=
  history.flatMap fun
    | .received bytes => bytes
    | _ => []

/-- The bytes that went out. -/
def sent (history : List Event) : Bytes :=
  history.flatMap fun
    | .sent bytes => bytes
    | _ => []

@[simp] theorem received_append (h h' : List Event) :
    received (h ++ h') = received h ++ received h' := List.flatMap_append
@[simp] theorem received_received (bytes : Bytes) : received [.received bytes] = bytes := by
  simp [received]
@[simp] theorem received_line (command : Command) (bytes : Bytes) :
    received [.line command bytes] = [] := rfl
@[simp] theorem received_answered (command : Command) (response : Response) :
    received [.answered command response] = [] := rfl

structure PopStream where
  buffer : Buffer
  decodeNeeds : Nat
  queue : CommandQueue
  stream : Transport
  history : List Event
  deriving DecidableEq, Repr

namespace PopStream

def new (stream : Transport) : PopStream := ⟨.new, 0, [], stream, []⟩

def onBuffer {α : Type} : Exec Error Buffer α → Exec Error PopStream α :=
  zoom buffer fun b s => { s with buffer := b }

def onQueue {α : Type} : Exec Error CommandQueue α → Exec Error PopStream α :=
  zoom queue fun q s => { s with queue := q }

def onStream {α : Type} : Exec Error Transport α → Exec Error PopStream α :=
  zoom stream fun t s => { s with stream := t }

def record (e : Event) : Exec Error PopStream Unit :=
  modify fun s => { s with history := s.history ++ [e] }

def setDecodeNeeds (n : Nat) : Exec Error PopStream Unit :=
  modify fun s => { s with decodeNeeds := n }

/-! ## Sending -/

/-- One turn of `write_all`. -/
def writeTurn (buf : Bytes) : Exec Error PopStream (Bytes ⊕ Unit) := do
  if buf = [] then return .inr ()
  match ← onStream (Transport.pollWrite buf) with
  | none => return .inl buf
  | some 0 => fail (.ofIo .writeZero)
  | some n =>
    record (.sent (buf.take n))
    return .inl (buf.drop n)

def writeAll (buf : Bytes) : Exec Error PopStream Unit := do
  loop writeTurn ((← get).stream.writes.length + 1) buf

def flushTurn (_ : Unit) : Exec Error PopStream (Unit ⊕ Unit) := do
  match ← onStream (Transport.pollWrite []) with
  | none => return .inl ()
  | some _ => return .inr ()

def flush : Exec Error PopStream Unit := do
  loop flushTurn ((← get).stream.writes.length + 1) ()

/-- Send some bytes to the server. -/
def sendBytes (buf : Bytes) : Exec Error PopStream Unit := do
  writeAll buf
  writeAll endOfLine
  flush

variable [Host]

/-- Send a command to the server. -/
def encode (request : Request) : Exec Error PopStream Unit := sendBytes request.display

/-! ## Receiving -/

/-- The arguments of `trace!`, which are evaluated when the level is enabled. -/
def traceReceived (used : Bytes) : Exec Error PopStream Unit :=
  if Host.traceEnabled ∧ Utf8.valid used = false then crash else return ()

def decode : Exec Error PopStream (Option Response) := do
  let s ← get
  if s.buffer.cursor < s.decodeNeeds then return none
  let used ← onBuffer Buffer.take
  match s.queue.current with
  | some command =>
    match Parser.parse (← sliceTo used s.buffer.cursor) command with
    | .ok remaining response =>
      traceReceived used
      onQueue CommandQueue.markCurrentAsDone
      onBuffer (Buffer.resetWith remaining)
      record (.answered command response)
      return some response
    | .incomplete (.size n) => setDecodeNeeds (s.buffer.cursor + n)
    | .incomplete .unknown => setDecodeNeeds 0
    | .error other => fail (invalidResponse other)
  | none =>
    onBuffer (Buffer.returnTo used)
    fail ⟨"Trying to read a response without having sent a request", .missingRequest⟩
  onBuffer (Buffer.returnTo used)
  return none

/-- The read in the loop of `poll_next`. A task that was put to sleep has read
nothing when it is woken. -/
def receive : Exec Error PopStream Unit := do
  onBuffer (Buffer.ensureCapacity (← get).decodeNeeds)
  let buf ← onBuffer Buffer.unused
  if let some bytes ← onStream (Transport.pollRead buf.length) then
    record (.received bytes)
    onBuffer (Buffer.fill bytes)
    onBuffer (Buffer.moveCursor bytes.length)

/-- One turn of the loop of `poll_next`. A task that is woken polls again, from
the `decode` at the top. -/
def readTurn (_ : Unit) : Exec Error PopStream (Unit ⊕ Response) := do
  receive
  match ← decode with
  | some response => return .inr response
  | none => return .inl ()

/-- `next().await` -/
def next : Exec Error PopStream Response := do
  if let some response ← decode then return response
  loop readTurn ((← get).stream.readFuel + 1) ()

def readResponse (command : Command) : Exec Error PopStream Response := do
  onQueue (CommandQueue.add command)
  match ← next with
  | .err err => fail ⟨"Server error", .serverError err.display⟩
  | response => return response

end PopStream

end Pop
