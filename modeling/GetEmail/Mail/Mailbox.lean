-- SUMMARY: Mailboxes with their credentials, and the errors of the crate.
import GetEmail.Pop.Error

/-!
# Mailboxes
-/

namespace Mail

/-- The UTF-8 bytes of a string. -/
def utf8 (s : String) : List UInt8 := s.toList.flatMap String.utf8EncodeChar

structure OAuthToken where
  token : String
  deriving DecidableEq, Repr

structure OAuthData where
  access : OAuthToken
  deriving DecidableEq, Repr

/-- `Mailbox` of the crate: the credentials of a mailbox. -/
structure Credentials where
  email : String
  password : String
  oauth2 : Option OAuthData
  deriving DecidableEq, Repr

/-- `str::split_once` -/
def splitOnce (delimiter : Char) : List Char → Option (List Char × List Char)
  | [] => none
  | c :: s =>
    if c = delimiter then some ([], s) else (splitOnce delimiter s).map fun (a, b) => (c :: a, b)

/-- The domain part of the user name. -/
def Credentials.getDomain (self : Credentials) : Option String :=
  (splitOnce '@' self.email.toList).map fun (_, domain) => String.ofList domain

/-- `Error` of the crate. The errors of the IMAP client are those of another crate. -/
inductive CrateError (ε : Type) where
  | mailboxInvalidDomain (login : String)
  | serverNotFound (domain : String)
  | messageParseFailed
  | imap (e : ε)
  | pop (e : Pop.Error)
  | proxy
  | resolveDns
  | socket (e : Pop.IoError)
  deriving DecidableEq, Repr

end Mail
