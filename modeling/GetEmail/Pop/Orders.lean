-- SUMMARY: The lines of a client as a server reads them, and that it reads what the client asks for.
import GetEmail.Pop.Decimals

/-!
# Orders

A server of RFC 1939 takes a line apart at its spaces. The keyword is read in any letter
case, numbers are decimal, and a name or a password is all that is left of the line.
-/

namespace Pop

open Nom (Bytes ascii isDigit Run)

inductive Order where
  | noop
  | rset
  | quit
  | stat
  | capa
  | uidl (number : Option Nat)
  | list (number : Option Nat)
  | top (number lines : Nat)
  | dele (number : Nat)
  | retr (number : Nat)
  | user (name : Bytes)
  | pass (password : Bytes)
  | authPlain (response : Bytes)
  | unknown
  deriving DecidableEq, Repr

namespace Order

def keywords : List (Bytes × Command) :=
  [(ascii "NOOP", .noop), (ascii "RSET", .rset), (ascii "QUIT", .quit), (ascii "STAT", .stat),
    (ascii "CAPA", .capa), (ascii "UIDL", .uidl), (ascii "LIST", .list), (ascii "TOP", .top),
    (ascii "DELE", .dele), (ascii "RETR", .retr), (ascii "USER", .user), (ascii "PASS", .pass),
    (ascii "AUTH", .auth)]

/-- A number in decimal -/
def number? (digits : Bytes) : Option Nat :=
  if digits ≠ [] ∧ digits.all isDigit then some (decimal digits) else none

/-- What is in front of the first space, and what is behind it. -/
def cut (line : Bytes) : Bytes × Option Bytes :=
  match line.dropWhile (· ≠ 0x20) with
  | [] => (line, none)
  | _ :: rest => (line.takeWhile (· ≠ 0x20), some rest)

/-- An order with one number -/
def numbered (order : Nat → Order) (argument : Bytes) : Order :=
  ((number? argument).map order).getD .unknown

def ofTop (argument : Bytes) : Order :=
  match cut argument with
  | (number, some lines) =>
    match number? number, number? lines with
    | some number, some lines => .top number lines
    | _, _ => .unknown
  | (_, none) => .unknown

def ofAuth (argument : Bytes) : Order :=
  match cut argument with
  | (mechanism, some response) =>
    if Command.toAsciiUppercase mechanism = ascii "PLAIN" then .authPlain response else .unknown
  | (_, none) => .unknown

/-- The order of a keyword that stands alone, or with an argument -/
def ofKeyword : Command → Option Bytes → Order
  | .noop, none => .noop
  | .rset, none => .rset
  | .quit, none => .quit
  | .stat, none => .stat
  | .capa, none => .capa
  | .uidl, none => .uidl none
  | .list, none => .list none
  | .uidl, some argument => numbered (.uidl ∘ some) argument
  | .list, some argument => numbered (.list ∘ some) argument
  | .dele, some argument => numbered .dele argument
  | .retr, some argument => numbered .retr argument
  | .top, some argument => ofTop argument
  | .user, some argument => .user argument
  | .pass, some argument => .pass argument
  | .auth, some argument => ofAuth argument
  | _, _ => .unknown

def ofLine (line : Bytes) : Order :=
  match keywords.lookup (Command.toAsciiUppercase (cut line).1) with
  | some command => ofKeyword command (cut line).2
  | none => .unknown

/-! ## Reading -/

theorem cut_word {word : Bytes} (h : 0x20 ∉ word) : cut word = (word, none) := by
  have hdrop : word.dropWhile (· ≠ 0x20) = [] := by
    rw [List.dropWhile_eq_nil_iff]
    rintro c hc
    simpa using fun hspace : c = 0x20 => h (hspace ▸ hc)
  rw [cut, hdrop]

theorem cut_space {word : Bytes} (h : 0x20 ∉ word) (rest : Bytes) :
    cut (word ++ 0x20 :: rest) = (word, some rest) := by
  have hall : ∀ c ∈ word, decide (c ≠ 0x20) = true :=
    fun c hc => by simpa using fun hspace : c = 0x20 => h (hspace ▸ hc)
  rw [cut, List.dropWhile_append_of_pos hall, List.takeWhile_append_of_pos hall]
  simp

@[simp] theorem number?_display (n : Nat) : number? (Display.display n) = some n := by
  have hrun := display_run n
  have hall : (Display.display n : Bytes).all isDigit = true := List.all_eq_true.mpr hrun.all
  rw [number?, if_pos ⟨hrun.ne_nil, hall⟩, decimal_display]

theorem space_not_digit {d : Bytes} (h : Run isDigit d) : 0x20 ∉ d := by
  intro hspace
  exact absurd (h.all _ hspace) (by decide)

@[simp] theorem numbered_display (order : Nat → Order) (n : Nat) :
    numbered order (Display.display n) = order n := by
  simp [numbered]

@[simp] theorem ofTop_display (number lines : Nat) :
    ofTop (Display.display number ++ 0x20 :: Display.display lines) = .top number lines := by
  rw [ofTop, cut_space (space_not_digit (display_run number))]
  simp

theorem keywords_lookup : ∀ entry ∈ keywords,
    keywords.lookup (Command.toAsciiUppercase entry.1) = some entry.2 ∧ 0x20 ∉ entry.1 := by
  decide +kernel

variable [Host]

theorem keywords_display : ∀ entry ∈ keywords, entry.2.display = entry.1 := by
  simp only [keywords, List.forall_mem_cons, List.not_mem_nil, false_implies, implies_true, and_true]
  exact ⟨rfl, rfl, rfl, rfl, rfl, rfl, rfl, rfl, rfl, rfl, rfl, rfl, rfl⟩

/-- A command is the keyword of its lines. -/
theorem keyword_display {command : Command} (h : command ∈ keywords.map Prod.snd) :
    keywords.lookup (Command.toAsciiUppercase command.display) = some command ∧
      0x20 ∉ command.display := by
  obtain ⟨entry, hentry, rfl⟩ := List.mem_map.mp h
  rw [keywords_display entry hentry]
  exact keywords_lookup entry hentry

/-- The line of a request is read by its keyword. -/
theorem ofLine_request (command : Command) (h : command ∈ keywords.map Prod.snd)
    (arg : Bytes) (args : List Bytes) :
    ofLine (Request.display ⟨command, []⟩) = ofKeyword command none ∧
      ofLine (Request.display ⟨command, arg :: args⟩) =
        ofKeyword command (some (arg ++ args.flatMap (0x20 :: ·))) := by
  obtain ⟨hlookup, hspace⟩ := keyword_display h
  constructor
  · simp [ofLine, Request.display, cut_word hspace, hlookup]
  · simp only [ofLine, Request.display, List.flatMap_cons, List.cons_append, cut_space hspace, hlookup]

end Order

end Pop
