-- SUMMARY: A server that answers line by line, and the connection that returns its answer to the last line.
import Mathlib.Data.List.Infix
import GetEmail.Pop.Operations
import GetEmail.Pop.ParserStable

/-!
# Server

A server gets lines, and answers each of them with one response, in order. The
paired connection is what a client wants to talk over: what a read returns is the
server's answer to the line that was written last.
-/

namespace Pop

open Exec
open Nom (Bytes cr lf)

/-! ## Lines and answers of a history -/

structure Line where
  command : Command
  bytes : Bytes
  deriving DecidableEq

/-- The lines that were written in full. -/
def linesOf (history : List Event) : List Line :=
  history.filterMap fun
    | .line command bytes => some ⟨command, bytes⟩
    | _ => none

/-- The responses that were read, with the commands they were read with. -/
def answersOf (history : List Event) : List (Command × Response) :=
  history.filterMap fun
    | .answered command response => some (command, response)
    | _ => none

def textsOf (history : List Event) : List Bytes := (linesOf history).map (·.bytes)

/-- Lines as they are sent. -/
def wire (texts : List Bytes) : Bytes := texts.flatMap (· ++ endOfLine)

/-- The command that the answer to the last line is to be read with. The greeting
answers no line. -/
def lastCommand (lines : List Line) : Command := (lines.getLast?.map (·.command)).getD .greet

/-! ## Server -/

/-- What the server answers to the last of these lines. Before the first line it sends
the greeting. -/
abbrev Server := List Bytes → Bytes

/-- The greeting and the answers to the lines, as far as there are `k` of them. -/
def Server.replies (server : Server) (texts : List Bytes) (k : Nat) : Bytes :=
  (List.range k).flatMap fun i => server (texts.take i)

variable [Host]

/-- The complete lines among the bytes, without their ends. `line` is what is there of the
line at hand. -/
def completeLines (line : Bytes) : Bytes → List Bytes
  | [] => []
  | c :: bytes =>
    if c = lf then
      (if line.getLast? = some cr then line.dropLast else line) :: completeLines [] bytes
    else completeLines (line ++ [c]) bytes

omit [Host] in
theorem completeLines_line (line : Bytes) {text : Bytes} (htext : lf ∉ text) (bytes : Bytes) :
    completeLines line (text ++ endOfLine ++ bytes) = (line ++ text) :: completeLines [] bytes := by
  induction text generalizing line with
  | nil => simp [completeLines, endOfLine, cr, lf]
  | cons c text ih =>
    obtain ⟨hc, htext⟩ := not_or.mp (List.mem_cons.not.mp htext)
    rw [List.cons_append, List.cons_append, completeLines, if_neg (Ne.symm hc), ih _ htext]
    simp

/-- What came in are the server's answers to the complete lines it was sent, in order. The
answer to each line of the client is one well-formed response. -/
structure Server.Behaves (server : Server) (history : List Event) : Prop where
  wellFormed : ∀ lines, lines <+: linesOf history →
    ∃ response, Parser.parse (server (lines.map (·.bytes))) (lastCommand lines) = .ok [] response
  traffic : received history <+: server.replies (completeLines [] (sent history))
    ((completeLines [] (sent history)).length + 1)

theorem Server.behaves_iff {server : Server} {history : List Event} :
    server.Behaves history ↔ (∀ lines ∈ (linesOf history).inits,
      (Parser.parse (server (lines.map (·.bytes))) (lastCommand lines)).rest? = some []) ∧
        received history <+: server.replies (completeLines [] (sent history))
          ((completeLines [] (sent history)).length + 1) := by
  refine ⟨fun h => ⟨fun lines hlines => ?_, h.traffic⟩, fun h => ⟨fun lines hlines => ?_, h.2⟩⟩
  · obtain ⟨response, hparse⟩ := h.wellFormed lines ((List.mem_inits _ _).mp hlines)
    rw [hparse]
    rfl
  · exact Nom.IResult.rest?_eq_some.mp (h.1 lines ((List.mem_inits _ _).mpr hlines))

instance (server : Server) (history : List Event) : Decidable (server.Behaves history) :=
  decidable_of_iff _ Server.behaves_iff.symm

namespace PopStream

/-- All lines that were begun are complete, and each is a single line. -/
def Lined (s : PopStream) : Prop :=
  sent s.history = wire (textsOf s.history) ∧ ∀ text ∈ textsOf s.history, lf ∉ text

/-- All lines that were begun are complete, and were answered. -/
def Settled (s : PopStream) : Prop :=
  Lined s ∧ (answersOf s.history).length = (linesOf s.history).length + 1

instance (s : PopStream) : Decidable (Lined s) := inferInstanceAs (Decidable (_ ∧ _))

instance (s : PopStream) : Decidable (Settled s) := inferInstanceAs (Decidable (_ ∧ _))

/-! ## Paired connection -/

/-- The answer of the server to the last line, if the server has behaved. -/
def ownAnswer (server : Server) (command : Command) (s : PopStream) : Option Response :=
  if server.Behaves s.history then
    match Parser.parse (server (textsOf s.history)) command with
    | .ok [] response => some response
    | _ => none
  else none

/-- The call got an answer of the server. -/
def hasAnswer : Outcome → Bool
  | .ok _ _ => true
  | .error (.error ⟨_, .serverError _⟩) _ => true
  | _ => false

/-- The outcome of a call, with what it returns replaced by the server's answer to the
last line. -/
def judged (server : Server) (command : Command) (r : Outcome) : Outcome :=
  if hasAnswer r then
    match ownAnswer server command (stateOf r) with
    | some response => finished (deliver response) (stateOf r)
    | none => r
  else r

@[reducible] def paired (server : Server) : Connection PopStream where
  encode := Connection.encode
  sendBytes := Connection.sendBytes
  readResponse command s := judged server command (readResponse command s)

end PopStream

/-! ## Authenticators in step -/

/-- A handshake reads a challenge after each line, and none otherwise. The answer to its
last line is left to `auth`, unless the handshake gives up. -/
def Handshake.InStep : Handshake → (awaited : Bool) → Prop
  | .finish (.ok ()), awaited => awaited = true
  | .finish (.error _), awaited => awaited = false
  | .send _ next, awaited =>
    awaited = false ∧ (next (.ok ())).InStep true ∧ ∀ e, (next (.error e)).InStep false
  | .nextChallenge next, awaited => awaited = true ∧ ∀ result, (next result).InStep false
  | .stop next, awaited =>
    awaited = false ∧ (next (.ok ())).InStep true ∧ ∀ e, (next (.error e)).InStep false

/-- The handshake starts when the line with the command has been written. -/
def Authenticator.InStep (authenticator : Authenticator) : Prop := authenticator.handle.InStep true

end Pop
