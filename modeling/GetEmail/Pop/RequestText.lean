-- SUMMARY: Requests read from a text, and what becomes of a request that was printed.
import GetEmail.Nom.Accepted
import GetEmail.Pop.Command
import GetEmail.Pop.Error

/-!
# Requests as text

`Display for Request` writes the command and its arguments, and `FromStr` reads a
text as a command. The two share the table of the commands' names.
-/

namespace Pop

open Nom (Bytes ascii lowercaseByte SameLetters)

/-! ## Letter case -/

/-- `str::to_lowercase`. Letters of ASCII have the usual lower case; what becomes of the
byte at position `i` of `s`, where it belongs to another character, is `unicode s i`. -/
def toLowercase (unicode : Bytes → Nat → Bytes) (s : Bytes) : Bytes :=
  s.zipIdx.flatMap fun (c, i) => if c < 0x80 then [lowercaseByte c] else unicode s i

variable (unicode : Bytes → Nat → Bytes)

theorem toLowercase_ascii {s : Bytes} (hs : ∀ c ∈ s, c < 0x80) :
    toLowercase unicode s = s.map lowercaseByte := by
  have hmap : toLowercase unicode s = s.zipIdx.flatMap fun entry => [lowercaseByte entry.1] :=
    List.flatMap_congr fun entry hentry => if_pos (hs _ (List.fst_mem_of_mem_zipIdx hentry))
  rw [hmap, ← List.map_eq_flatMap, ← Function.comp_def lowercaseByte, ← List.map_map,
    List.zipIdx_map_fst]

/-- A space stays a space. -/
theorem mem_toLowercase_space {s : Bytes} (hs : 0x20 ∈ s) : 0x20 ∈ toLowercase unicode s := by
  obtain ⟨i, hi, hget⟩ := List.mem_iff_getElem.mp hs
  refine List.mem_flatMap.mpr ⟨(0x20, i), ?_, List.mem_singleton.mpr rfl⟩
  exact List.mem_zipIdx_iff_getElem?.mpr (by simp [hget, hi])

/-! ## Reading -/

/-- The text of a Rust string. -/
def textOf (s : Bytes) : String := (String.fromUTF8? ⟨s.toArray⟩).getD ""

/-- `Command::from_str` -/
def Command.fromStr [Host] (s : Bytes) : Except Error Command :=
  let toMatch := toLowercase unicode s
  match Command.definitions.find? fun entry => entry.1 == toMatch with
  | some (_, command) => .ok command
  | none =>
    .error ⟨"Could not recognize '" ++ textOf toMatch ++ "' as a valid POP command", .parseCommand⟩

/-- `Request::from_str` -/
def Request.fromStr [Host] (s : Bytes) : Except Error Request := do
  let command ← Command.fromStr unicode s
  return .ofCommand command

/-! ## Reading what was printed -/

/-- No name of a command has a space. -/
theorem definitions_no_space : ∀ entry ∈ Command.definitions, (0x20 : UInt8) ∉ entry.1 := by
  decide

/-- A name is printed in upper case, and belongs to one command. -/
theorem definitions_names : ∀ entry ∈ Command.definitions,
    (∀ c ∈ Command.toAsciiUppercase entry.1, c < 0x80) ∧
      Command.definitions.find? (fun entry' =>
        entry'.1 == (Command.toAsciiUppercase entry.1).map lowercaseByte) = some entry := by
  decide +kernel

variable [Host]

/-- A text with a space is no command. -/
theorem Command.fromStr_space {s : Bytes} (hs : 0x20 ∈ s) :
    ∃ e, Command.fromStr unicode s = .error e := by
  have hnone : Command.definitions.find? (fun entry => entry.1 == toLowercase unicode s) = none := by
    refine List.find?_eq_none.mpr fun entry hentry heq => ?_
    rw [beq_iff_eq] at heq
    exact definitions_no_space entry hentry (heq ▸ mem_toLowercase_space unicode hs)
  simp only [Command.fromStr, hnone]
  exact ⟨_, rfl⟩

/-- The commands that have a name. -/
def Command.Named (command : Command) : Prop := command ≠ .greet ∧ ∀ secret, command ≠ .base64 secret

theorem Command.Named.definition {command : Command} (h : command.Named) :
    ∃ entry ∈ definitions, entry.2 = command ∧ command.display = toAsciiUppercase entry.1 := by
  obtain ⟨entry, hfind⟩ : ∃ entry, definitions.find? (fun entry => entry.2 == command) =
      some entry := by
    cases command with
    | greet => exact absurd rfl h.1
    | base64 secret => exact absurd rfl (h.2 secret)
    | _ => exact ⟨_, rfl⟩
  refine ⟨entry, List.mem_of_find?_eq_some hfind, by simpa using List.find?_some hfind, ?_⟩
  cases command with
  | base64 secret => exact absurd rfl (h.2 secret)
  | _ => simp only [display, hfind]

/-- A name is read as its command, in whatever letter case it stands. -/
theorem Command.fromStr_display {command : Command} (hcommand : command.Named) {word : Bytes}
    (hword : SameLetters word command.display) : Command.fromStr unicode word = .ok command := by
  obtain ⟨entry, hentry, rfl, hdisplay⟩ := hcommand.definition
  obtain ⟨hascii, hfind⟩ := definitions_names entry hentry
  rw [hdisplay] at hword
  have hword_ascii : ∀ c ∈ word, c < 0x80 := by
    simpa using hword.all (p := fun c => decide (c < 0x80)) (by simp [Nom.lowercaseByte_lt])
      (by simpa using hascii)
  simp only [Command.fromStr, toLowercase_ascii unicode hword_ascii, hword.eq, hfind]

/-- A printed request, in whatever letter case its command stands, is read as the request
exactly when it has no arguments. -/
theorem fromStr_display_iff {command : Command} (hcommand : command.Named) (args : List Bytes)
    {word : Bytes} (hword : SameLetters word command.display) :
    Request.fromStr unicode (word ++ args.flatMap fun arg => 0x20 :: arg) = .ok ⟨command, args⟩ ↔
      args = [] := by
  cases args with
  | nil =>
    have hread := Command.fromStr_display unicode hcommand hword
    simp [Request.fromStr, hread, Request.ofCommand, pure, Except.pure, bind, Except.bind]
  | cons arg args =>
    obtain ⟨e, herror⟩ := Command.fromStr_space unicode
      (s := word ++ (arg :: args).flatMap fun arg => 0x20 :: arg) (by simp)
    simp only [Request.fromStr, herror]
    exact iff_of_false nofun (List.cons_ne_nil _ _)

omit [Host] in
theorem fromStr_display_iff_stat :
    @Request.fromStr (fun _ _ => []) (.bare false) (ascii "sTaT" ++ [].flatMap fun arg => 0x20 :: arg) =
      .ok ⟨.stat, []⟩ :=
  let host : Host := .bare false
  have hstat : Command.Named .stat := ⟨nofun, nofun⟩
  (fromStr_display_iff (fun _ _ => []) hstat [] (by decide)).mpr rfl

omit [Host] in
/-- The text of a request with an argument is not the name of a command. -/
theorem list_not_read :
    let request : Request := ⟨.list, [ascii "1"]⟩
    @Request.display (.bare false) request = ascii "LIST 1" ∧
      (@Request.fromStr (fun _ _ => []) (.bare false) (ascii "LIST 1")).toOption = none ∧
      @Request.fromStr (fun _ _ => []) (.bare false) (@Request.display (.bare false) request) ≠
        .ok request := by
  have hdisplay : @Request.display (.bare false) ⟨.list, [ascii "1"]⟩ = ascii "LIST 1" := by
    decide
  obtain ⟨e, herror⟩ := @Command.fromStr_space (fun _ _ => []) (.bare false) (ascii "LIST 1")
    (by decide)
  refine ⟨hdisplay, ?_, ?_⟩
  · simp only [Request.fromStr, herror]
    rfl
  · simp only [hdisplay, Request.fromStr, herror]
    exact nofun

end Pop
