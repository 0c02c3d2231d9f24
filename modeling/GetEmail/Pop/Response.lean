-- SUMMARY: The values a server response is parsed into.
import GetEmail.Nom.Basic
import GetEmail.Utf8

/-!
# Responses

The payloads stay the bytes the server sent; they are read as numbers or
strings only on demand.
-/

namespace Pop

open Nom

structure Text where
  inner : Bytes
  deriving DecidableEq, Repr

/-- `Display for Text` -/
def Text.display (t : Text) : Bytes := Utf8.lossy t.inner

structure Number where
  inner : Bytes
  deriving DecidableEq, Repr

structure Duration where
  inner : Number
  toSecsMultiplier : Nat
  deriving DecidableEq, Repr

structure Stat where
  messageCount : Number
  size : Number
  deriving DecidableEq, Repr

/-- `List` of `list.rs` -/
structure StatList where
  stats : Option Stat
  items : List Stat
  deriving DecidableEq, Repr

inductive ListResponse where
  | multiple (list : StatList)
  | single (item : Stat)
  deriving DecidableEq, Repr

structure UniqueId where
  index : Number
  id : Text
  deriving DecidableEq, Repr

structure Uidl where
  message : Option Text
  items : List UniqueId
  deriving DecidableEq, Repr

inductive UidlResponse where
  | multiple (list : Uidl)
  | single (id : UniqueId)
  deriving DecidableEq, Repr

inductive Expiration where
  | never
  | time (duration : Duration)
  deriving DecidableEq, Repr

inductive Capability where
  | top
  | user
  | sasl (mechanisms : List Bytes)
  | respCodes
  | loginDelay (delay : Duration)
  | pipelining
  | expire (expiration : Expiration)
  | uidl
  | implementation (text : Text)
  | stls
  | other (name : Text)
  deriving DecidableEq, Repr

structure Status where
  success : Bool
  deriving DecidableEq, Repr

inductive Response where
  | stat (stat : Stat)
  | list (list : StatList)
  | bytes (bytes : Bytes)
  | uidl (uidl : UidlResponse)
  | capability (capabilities : List Capability)
  | message (text : Text)
  | challenge (text : Text)
  | err (text : Text)
  deriving DecidableEq, Repr

end Pop
