-- SUMMARY: The response grammars of RFC 1939, RFC 2449 and RFC 1734, and their dispatch on the command.
import GetEmail.Pop.Command
import GetEmail.Pop.Response

/-!
# Response parser

One definition for each parser function of `response/parser`, in the order of
its files: `core.rs`, `rfc1939.rs`, `rfc2449.rs`, `rfc1734.rs`, `mod.rs`.
-/

namespace Pop.Parser

open Nom (Bytes Parser IResult ascii alt opt map value pair terminated preceded delimited tag
  tagNoCase char oneOf takeWhile takeWhileMN takeUntil digit1 space0 space1 lineEnding
  notLineEnding many1 manyTill separatedList0)

/-! ## Lines -/

def eol : Parser Unit := do
  let _ ← pair space0 lineEnding
  return ()

def endOfMultiline : Parser Unit := do
  let _ ← pair (tag (ascii ".")) lineEnding
  return ()

def messageParser : Parser (Option Bytes) :=
  terminated (opt notLineEnding) eol

/-! ## RFC 1939 -/

def status : Parser Status :=
  terminated (map (alt [value true (tag okTag), value false (tag errTag)]) Status.mk) space0

def stat : Parser Stat := do
  let count ← digit1
  let _ ← space1
  let size ← digit1
  let _ ← opt notLineEnding
  let _ ← eol
  return ⟨⟨count⟩, ⟨size⟩⟩

def statResponse : Parser Response := do
  let stats ← stat
  return .stat stats

def listStats : Parser Stat := do
  let count ← digit1
  let _ ← space1
  let _ ← takeWhile Nom.isAlphanumeric
  let _ ← space1
  let (size, _, _) ← delimited (char 0x28)
    (do
      let size ← digit1
      let space ← space1
      let word ← takeWhile Nom.isAlphanumeric
      return (size, space, word))
    (char 0x29)
  let _ ← eol
  return ⟨⟨count⟩, ⟨size⟩⟩

def listResponse : Parser Response := do
  let stats ← alt [map listStats some, map messageParser fun _ => none]
  let (items, _end) ← manyTill (preceded (opt (tag (ascii "."))) stat) endOfMultiline
  return .list ⟨stats, items⟩

/-- `UniqueIdParser::is_valid_char` -/
def isValidChar (c : UInt8) : Bool := 0x21 ≤ c && c ≤ 0x7E

/-- `UniqueIdParser::parse` -/
def uniqueId : Parser Bytes := takeWhileMN 1 70 isValidChar

def uidl : Parser UniqueId := do
  let index ← digit1
  let _ ← space1
  let id ← uniqueId
  let _ ← eol
  return ⟨⟨index⟩, ⟨id⟩⟩

def uidlListResponse : Parser Response := do
  let message ← messageParser
  let (list, _end) ← manyTill (preceded (opt (tag (ascii "."))) uidl) endOfMultiline
  return .uidl (.multiple ⟨message.map Text.mk, list⟩)

def uidlResponse : Parser Response := do
  let id ← uidl
  return .uidl (.single id)

/-- `"\r\n.\r\n"` -/
def terminator : Bytes := [Nom.cr, Nom.lf, 0x2e, Nom.cr, Nom.lf]

def rfc822Response : Parser Response := do
  let _message ← messageParser
  let content ← takeUntil terminator
  let _ ← eol
  let _ ← endOfMultiline
  return .bytes content

def errorResponse : Parser Response := do
  let message ← messageParser
  return .err ⟨message.getD []⟩

def stringResponse : Parser Response := do
  let message ← messageParser
  return .message ⟨message.getD []⟩

/-! ## RFC 2449 -/

def saslMechanism : Parser Bytes :=
  alt [tagNoCase (ascii "KERBEROS_V4"), tagNoCase (ascii "GSSAPI"), tagNoCase (ascii "SKEY"),
    tagNoCase (ascii "CRAM-MD5"), tagNoCase (ascii "PLAIN"), tagNoCase (ascii "XOAUTH2"),
    tagNoCase (ascii "OAUTHBEARER")]

def sasl : Parser Capability := do
  let _ ← tagNoCase (ascii "SASL")
  let _ ← space0
  let mechanisms ← separatedList0 space1 saslMechanism
  let _ ← eol
  return .sasl mechanisms

def loginDelay : Parser Capability := do
  let _ ← tagNoCase (ascii "LOGIN-DELAY")
  let _ ← space1
  let time ← digit1
  let _ ← eol
  return .loginDelay ⟨⟨time⟩, 1⟩

def expire : Parser Capability := do
  let _ ← tagNoCase (ascii "EXPIRE")
  let expiration ← opt (preceded space1 (alt [
    map digit1 fun time => Expiration.time ⟨⟨time⟩, 24 * 60 * 60⟩,
    value Expiration.never (tagNoCase (ascii "NEVER"))]))
  let _ ← eol
  return .expire (expiration.getD .never)

def implementation : Parser Capability := do
  let _ ← tagNoCase (ascii "IMPLEMENTATION")
  let message ← messageParser
  return .implementation ⟨message.getD []⟩

def unknownCapability : Parser Capability :=
  terminated (map (many1 (oneOf (ascii "ABCDEFGHIJKLMNOPQRSTUVWXYZ0123456789-")))
    fun other => .other ⟨other⟩) eol

/-- A capability that is a keyword alone on its line. -/
def keyword (word : String) (capa : Capability) : Parser Capability :=
  terminated (value capa (tagNoCase (ascii word))) eol

def capability : Parser Capability :=
  alt [keyword "TOP" .top, keyword "USER" .user, keyword "RESP-CODES" .respCodes, sasl,
    loginDelay, keyword "PIPELINING" .pipelining, expire, keyword "UIDL" .uidl, implementation,
    keyword "STLS" .stls, unknownCapability]

def capabilityResponse : Parser Response := do
  let _message ← messageParser
  let (capabilities, _end) ← manyTill capability endOfMultiline
  return .capability capabilities

/-! ## RFC 1734 -/

def auth : Parser Bytes := do
  let _ ← tag (ascii "+")
  let _ ← space1
  let content ← messageParser
  return content.getD []

/-! ## Dispatch -/

/-- What follows a positive status under each command. -/
def okResponse : Command → Parser Response
  | .stat => statResponse
  | .uidl => alt [uidlResponse, uidlListResponse]
  | .list => alt [statResponse, listResponse]
  | .retr | .top => rfc822Response
  | .capa => capabilityResponse
  | _ => stringResponse

def statusResponse (request : Command) : Parser Response := do
  let status ← status
  if status.success then okResponse request else errorResponse

variable [Host]

def parse (input : Bytes) (request : Command) : IResult Response :=
  if input = [] then .incomplete .unknown
  else
    match request with
    | .base64 _ | .auth =>
      match auth input with
      | .ok rest base64Challenge =>
        match Host.base64Decode base64Challenge with
        | some challenge => .ok rest (.challenge ⟨challenge⟩)
        | none => statusResponse request input
      | .incomplete needed => .incomplete needed
      | .error _ => statusResponse request input
    | _ => statusResponse request input

end Pop.Parser
