-- SUMMARY: The errors of the client, and the text of a parse error.
import GetEmail.Nom.Basic

/-!
# Errors
-/

namespace Pop

open Nom

/-- Errors of the transport. `writeZero` is what `write_all` makes of a write
that accepts nothing. -/
inductive IoError where
  | writeZero
  | other (code : Nat)
  deriving DecidableEq, Repr

/-- `IntErrorKind`, as far as unsigned numbers have it. -/
inductive ParseIntError where
  | empty
  | invalidDigit
  | posOverflow
  deriving DecidableEq, Repr

inductive ErrorKind where
  | io (e : IoError)
  | parseInt (e : ParseIntError)
  | parseString
  | serverError (text : Bytes)
  | notConnected
  | shouldNotBeConnected
  | incorrectStateForCommand
  | messageIsDeleted
  | featureUnsupported
  | serverFailedToGreet
  | invalidResponse
  | responseTooLarge
  | missingRequest
  | parseCommand
  | unexpectedResponse
  deriving DecidableEq, Repr

structure Error where
  message : String
  kind : ErrorKind
  deriving DecidableEq, Repr

/-- `From<IoError>` -/
def Error.ofIo (e : IoError) : Error := ⟨"Error with connection to server", .io e⟩

/-- `From<ParseIntError>` -/
def Error.ofParseInt (e : ParseIntError) : Error := ⟨"Failed to parse int", .parseInt e⟩

/-- `From<Utf8Error>` -/
def Error.ofUtf8 : Error := ⟨"Failed to parse string", .parseString⟩

/-! ## The text of a parse error -/

/-- `Debug` of the combinator that rejected. -/
def errorKindName : Nom.ErrorKind → String
  | .tag => "Tag"
  | .digit => "Digit"
  | .space => "Space"
  | .crLf => "CrLf"
  | .char => "Char"
  | .oneOf => "OneOf"
  | .takeWhileMN => "TakeWhileMN"
  | .many1 => "Many1"
  | .manyTill => "ManyTill"
  | .separatedList => "SeparatedList"
  | .alt => "Alt"

/-- `Display` of `nom::Err::Error`. -/
def parseErrorText (e : ParseError) : String :=
  "Parsing Error: Error \x7b input: [" ++ ", ".intercalate (e.input.map fun c => toString c.toNat) ++
    "], code: " ++ errorKindName e.code ++ " \x7d"

def invalidResponse (e : ParseError) : Error :=
  ⟨"The server gave an invalid response: '" ++ parseErrorText e ++ "'", .invalidResponse⟩

end Pop
