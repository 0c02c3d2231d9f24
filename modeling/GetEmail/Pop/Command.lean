-- SUMMARY: POP3 commands, and the requests that carry them with their arguments.
import GetEmail.Nom.Basic

/-!
# Commands and requests

A Rust `String` is modelled by its UTF-8 bytes, since that is all the client
does with one: write it out.
-/

namespace Pop

open Nom

/-- What other crates provide: the base64 engine and the log level. -/
class Host where
  base64Encode : Bytes → Bytes
  base64Decode : Bytes → Option Bytes
  /-- Whether `trace!` evaluates its arguments. -/
  traceEnabled : Bool

/-- A host for sessions without base64. -/
@[reducible] def Host.bare (traceEnabled : Bool) : Host := ⟨fun _ => [], fun _ => none, traceEnabled⟩

variable [Host]

/-! ## Constants -/

/-- `OK` -/
def okTag : Bytes := ascii "+OK"

/-- `ERR` -/
def errTag : Bytes := ascii "-ERR"

def endOfLine : Bytes := [cr, lf]

/-! ## Commands -/

inductive Command where
  | noop | uidl | top | dele | rset | retr | list | stat | apop | auth | user | pass | quit | capa
  | greet
  | base64 (secret : Bytes)
  deriving DecidableEq, Repr

namespace Command

def definitions : List (Bytes × Command) :=
  [(ascii "noop", .noop), (ascii "uidl", .uidl), (ascii "top", .top), (ascii "dele", .dele),
    (ascii "rset", .rset), (ascii "retr", .retr), (ascii "list", .list), (ascii "stat", .stat),
    (ascii "apop", .apop), (ascii "auth", .auth), (ascii "user", .user), (ascii "quit", .quit),
    (ascii "capa", .capa), (ascii "pass", .pass)]

def toAsciiUppercase (key : Bytes) : Bytes :=
  key.map fun c => if 0x61 ≤ c ∧ c ≤ 0x7A then c - 0x20 else c

/-- `Greet` has no definition, so it prints as nothing. -/
def display : Command → Bytes
  | .base64 other => Host.base64Encode other
  | command =>
    match definitions.find? fun entry => entry.2 == command with
    | some (key, _) => toAsciiUppercase key
    | none => []

end Command

/-! ## Requests -/

/-- What `add_arg` accepts: the types that can be written out. -/
class Display (α : Type) where
  display : α → Bytes

instance : Display Bytes := ⟨id⟩

/-- A number in decimal. -/
instance : Display Nat := ⟨fun n => (Nat.toDigits 10 n).map fun c => UInt8.ofNat c.toNat⟩

structure Request where
  command : Command
  args : List Bytes
  deriving DecidableEq, Repr

namespace Request

/-- `From<Command>` -/
def ofCommand (command : Command) : Request := ⟨command, []⟩

def addArg {α : Type} [Display α] (request : Request) (arg : α) : Request :=
  { request with args := request.args ++ [Display.display arg] }

def display (request : Request) : Bytes :=
  request.command.display ++ request.args.flatMap fun arg => 0x20 :: arg

end Request

end Pop
