-- SUMMARY: Streaming parser combinators over byte strings, as published by nom 7.1.3.
import Mathlib.Data.List.Basic

/-!
# Streaming parser combinators

A parser reads a prefix of its input and leaves the rest. Because the input may
be the beginning of a longer one, there are three outcomes: the parser accepts,
it rejects, or it asks for more input. Only the combinators in use by the
response grammars are here, each with the outcome of the streaming version.
-/

namespace Nom

abbrev Bytes := List UInt8

/-- The bytes of an ASCII literal. -/
def ascii (s : String) : Bytes := s.toList.map fun c => UInt8.ofNat c.toNat

/-- How much more input a parser asks for. -/
inductive Needed where
  | unknown
  | size (n : Nat)
  deriving DecidableEq, Repr

/-- The combinator that rejected an input. -/
inductive ErrorKind where
  | tag | digit | space | crLf | char | oneOf | takeWhileMN | many1 | manyTill | separatedList | alt
  deriving DecidableEq, Repr

/-- A rejection: the input at which the parser stood, and the combinator. -/
structure ParseError where
  input : Bytes
  code : ErrorKind
  deriving DecidableEq, Repr

inductive IResult (α : Type) where
  | ok (rest : Bytes) (value : α)
  | incomplete (needed : Needed)
  | error (e : ParseError)
  deriving DecidableEq, Repr

def Parser (α : Type) := Bytes → IResult α

variable {α β : Type}

namespace IResult

/-- What an accepted value leaves. -/
def rest? : IResult α → Option Bytes
  | .ok rest _ => some rest
  | _ => none

theorem rest?_eq_some {r : IResult α} {rest : Bytes} :
    r.rest? = some rest ↔ ∃ a, r = .ok rest a := by
  cases r <;> simp [rest?]

/-- How much more input is asked for, if the input is neither accepted nor rejected. -/
def needed? : IResult α → Option Needed
  | .incomplete needed => some needed
  | _ => none

theorem needed?_eq_some {r : IResult α} {needed : Needed} :
    r.needed? = some needed ↔ r = .incomplete needed := by
  cases r <;> simp [needed?]

/-- Continue with an accepted value; the other outcomes pass through. -/
def bind (r : IResult α) (f : Bytes → α → IResult β) : IResult β :=
  match r with
  | .ok rest a => f rest a
  | .incomplete n => .incomplete n
  | .error e => .error e

@[simp] theorem bind_ok (rest : Bytes) (a : α) (f : Bytes → α → IResult β) :
    (IResult.ok rest a).bind f = f rest a := rfl
@[simp] theorem bind_incomplete (n : Needed) (f : Bytes → α → IResult β) :
    (IResult.incomplete n).bind f = .incomplete n := rfl
@[simp] theorem bind_error (e : ParseError) (f : Bytes → α → IResult β) :
    (IResult.error e).bind f = .error e := rfl

theorem bind_eq_ok {r : IResult α} {f : Bytes → α → IResult β} {rest : Bytes} {b : β} :
    r.bind f = .ok rest b ↔ ∃ mid a, r = .ok mid a ∧ f mid a = .ok rest b := by
  cases r <;> simp

theorem bind_eq_error {r : IResult α} {f : Bytes → α → IResult β} {e : ParseError} :
    r.bind f = .error e ↔ r = .error e ∨ ∃ mid a, r = .ok mid a ∧ f mid a = .error e := by
  cases r <;> simp

end IResult

/-! ## Sequencing -/

instance : Monad Parser where
  pure a := fun input => .ok input a
  bind p f := fun input => (p input).bind fun rest a => f a rest

@[simp] theorem pure_apply (a : α) (input : Bytes) :
    (pure a : Parser α) input = .ok input a := rfl

@[simp] theorem bind_apply (p : Parser α) (f : α → Parser β) (input : Bytes) :
    (p >>= f) input = (p input).bind fun rest a => f a rest := rfl

@[simp] theorem map_apply (f : α → β) (p : Parser α) (input : Bytes) :
    (f <$> p) input = (p input).bind fun rest a => .ok rest (f a) := rfl

def map (p : Parser α) (f : α → β) : Parser β := do
  return f (← p)

def value (b : β) (p : Parser α) : Parser β := map p fun _ => b

def pair (p : Parser α) (q : Parser β) : Parser (α × β) := do
  let a ← p
  let b ← q
  return (a, b)

def terminated (p : Parser α) (q : Parser β) : Parser α := do
  let a ← p
  let _ ← q
  return a

def preceded (p : Parser α) (q : Parser β) : Parser β := do
  let _ ← p
  q

def delimited {γ : Type} (p : Parser α) (q : Parser β) (r : Parser γ) : Parser β := do
  let _ ← p
  let b ← q
  let _ ← r
  return b

/-! ## Choice -/

/-- Ordered choice. Only a rejection moves on to the next alternative, and the
last rejection is the one reported. -/
def alt : List (Parser α) → Parser α
  | [], input => .error ⟨input, .alt⟩
  | [p], input => p input
  | p :: q :: ps, input =>
    match p input with
    | .error _ => alt (q :: ps) input
    | r => r

def opt (p : Parser α) : Parser (Option α) := fun input =>
  match p input with
  | .ok rest a => .ok rest (some a)
  | .error _ => .ok input none
  | .incomplete n => .incomplete n

/-! ## Literals -/

inductive CompareResult where
  | ok | incomplete | error
  deriving DecidableEq, Repr

/-- Compare the input with a literal, byte by byte up to `same`. -/
def compareBy (same : UInt8 → UInt8 → Bool) : Bytes → Bytes → CompareResult
  | _, [] => .ok
  | [], _ :: _ => .incomplete
  | a :: input, b :: t => if same a b then compareBy same input t else .error

def compare (input t : Bytes) : CompareResult := compareBy (· == ·) input t

def lowercaseByte (c : UInt8) : UInt8 := if 0x41 ≤ c ∧ c ≤ 0x5A then c + 0x20 else c

def compareNoCase (input t : Bytes) : CompareResult :=
  compareBy (fun a b => lowercaseByte a == lowercaseByte b) input t

/-- Split the literal `t` off the input, given how the two compare. -/
def takeTag (t : Bytes) (cmp : CompareResult) (input : Bytes) : IResult Bytes :=
  match cmp with
  | .ok => .ok (input.drop t.length) (input.take t.length)
  | .incomplete => .incomplete (.size (t.length - input.length))
  | .error => .error ⟨input, .tag⟩

def tag (t : Bytes) : Parser Bytes := fun input => takeTag t (compare input t) input

def tagNoCase (t : Bytes) : Parser Bytes := fun input => takeTag t (compareNoCase input t) input

/-- The next byte, if it satisfies `p`. -/
def satisfyByte (kind : ErrorKind) (p : UInt8 → Bool) : Parser UInt8
  | [] => .incomplete (.size 1)
  | c :: rest => if p c then .ok rest c else .error ⟨c :: rest, kind⟩

def char (c : UInt8) : Parser UInt8 := satisfyByte .char (· == c)

def oneOf (cs : Bytes) : Parser UInt8 := satisfyByte .oneOf (cs.contains ·)

/-! ## Runs of bytes -/

/-- The longest run of bytes that satisfy `p`. It is complete only once a byte
that does not satisfy `p` has been seen. -/
def takeWhile (p : UInt8 → Bool) : Parser Bytes := fun input =>
  match input.dropWhile p with
  | [] => .incomplete (.size 1)
  | c :: rest => .ok (c :: rest) (input.takeWhile p)

/-- As `takeWhile`, and the run may not be empty. -/
def takeWhile1 (kind : ErrorKind) (p : UInt8 → Bool) : Parser Bytes := fun input =>
  match input.dropWhile p with
  | [] => .incomplete (.size 1)
  | c :: rest =>
    if input.takeWhile p = [] then .error ⟨input, kind⟩ else .ok (c :: rest) (input.takeWhile p)

/-- Between `m` and `n` bytes that satisfy `p`, as many as there are. -/
def takeWhileMN (m n : Nat) (p : UInt8 → Bool) : Parser Bytes := fun input =>
  let idx := (input.takeWhile p).length
  if idx < input.length then
    if m ≤ idx then
      if idx ≤ n then .ok (input.drop idx) (input.take idx)
      else .ok (input.drop n) (input.take n)
    else .error ⟨input, .takeWhileMN⟩
  else if n ≤ input.length then .ok (input.drop n) (input.take n)
  else .incomplete (.size (if input.length < m then m - input.length else 1))

def isDigit (c : UInt8) : Bool := 0x30 ≤ c && c ≤ 0x39

def isAlphanumeric (c : UInt8) : Bool :=
  (0x41 ≤ c && c ≤ 0x5A) || (0x61 ≤ c && c ≤ 0x7A) || isDigit c

def isSpace (c : UInt8) : Bool := c == 0x20 || c == 0x09

def digit1 : Parser Bytes := takeWhile1 .digit isDigit

def space0 : Parser Bytes := takeWhile isSpace

def space1 : Parser Bytes := takeWhile1 .space isSpace

/-! ## Lines -/

/-- `\n` -/
def lf : UInt8 := 0x0a
/-- `\r` -/
def cr : UInt8 := 0x0d

def crlf : Bytes := [cr, lf]

/-- A line ending, `\n` or `\r\n`. -/
def lineEnding : Parser Bytes := fun input =>
  match compare input [lf] with
  | .ok => .ok (input.drop 1) (input.take 1)
  | .incomplete => .incomplete (.size 1)
  | .error =>
    match compare input crlf with
    | .ok => .ok (input.drop 2) (input.take 2)
    | .incomplete => .incomplete (.size 2)
    | .error => .error ⟨input, .crLf⟩

def isLineByte (c : UInt8) : Bool := c != cr && c != lf

/-- The bytes up to a line ending, which is left in the input. -/
def notLineEnding : Parser Bytes := fun input =>
  match input.dropWhile isLineByte with
  | [] => .incomplete .unknown
  | c :: rest =>
    if c = cr then
      match compare (c :: rest) crlf with
      | .incomplete => .incomplete .unknown
      | .error => .error ⟨input, .tag⟩
      | .ok => .ok (c :: rest) (input.takeWhile isLineByte)
    else .ok (c :: rest) (input.takeWhile isLineByte)

/-- The position of the first occurrence of `pat`. -/
def findSubstring (pat : Bytes) : Bytes → Option Nat
  | [] => if pat = [] then some 0 else none
  | c :: input =>
    if pat.isPrefixOf (c :: input) then some 0 else (findSubstring pat input).map (· + 1)

/-- The bytes before the first occurrence of `pat`, which is left in the input. -/
def takeUntil (pat : Bytes) : Parser Bytes := fun input =>
  match findSubstring pat input with
  | none => .incomplete .unknown
  | some index => .ok (input.drop index) (input.take index)

/-! ## Repetition

The loops of `many1`, `manyTill` and `separatedList0` end because a round that
consumes nothing is an error. `fuel` bounds the rounds by the length of the
input, so it never runs out. -/

/-- Reject when `p` accepts without consuming. -/
def consuming (kind : ErrorKind) (p : Parser α) : Parser α := fun input =>
  match p input with
  | .ok rest a => if rest.length = input.length then .error ⟨rest, kind⟩ else .ok rest a
  | r => r

def many1Loop (p : Parser α) : Nat → Parser (List α)
  | 0, input => .error ⟨input, .many1⟩
  | fuel + 1, input =>
    match p input with
    | .error _ => .ok input []
    | .incomplete n => .incomplete n
    | .ok rest a =>
      if rest.length = input.length then .error ⟨input, .many1⟩
      else (many1Loop p fuel rest).bind fun rest as => .ok rest (a :: as)

/-- One or more `p`. -/
def many1 (p : Parser α) : Parser (List α) := do
  let a ← p
  let as ← fun input => many1Loop p (input.length + 1) input
  return a :: as

def manyTillLoop (f : Parser α) (g : Parser β) : Nat → Parser (List α × β)
  | 0, input => .error ⟨input, .manyTill⟩
  | fuel + 1, input =>
    alt [map g fun b => ([], b), do
      let a ← consuming .manyTill f
      let (as, b) ← manyTillLoop f g fuel
      return (a :: as, b)] input

/-- `f` again and again until `g` accepts. -/
def manyTill (f : Parser α) (g : Parser β) : Parser (List α × β) := fun input =>
  manyTillLoop f g (input.length + 1) input

def separatedLoop (sep : Parser β) (p : Parser α) : Nat → Parser (List α)
  | 0, input => .error ⟨input, .separatedList⟩
  | fuel + 1, input =>
    match sep input with
    | .error _ => .ok input []
    | .incomplete n => .incomplete n
    | .ok mid _ =>
      if mid.length = input.length then .error ⟨mid, .separatedList⟩
      else
        match p mid with
        | .error _ => .ok input []
        | .incomplete n => .incomplete n
        | .ok rest a => (separatedLoop sep p fuel rest).bind fun rest as => .ok rest (a :: as)

/-- Zero or more `p`, separated by `sep`. -/
def separatedList0 (sep : Parser β) (p : Parser α) : Parser (List α) := fun input =>
  match p input with
  | .error _ => .ok input []
  | .incomplete n => .incomplete n
  | .ok rest a =>
    (separatedLoop sep p (rest.length + 1) rest).bind fun rest as => .ok rest (a :: as)

end Nom
