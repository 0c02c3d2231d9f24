-- SUMMARY: Lines that a client has not written to their end, and what a server takes them for.
import Mathlib.Computability.Language
import GetEmail.Pop.Orders
import GetEmail.Pop.SingleLines

/-!
# Torn lines

A call that is dropped may leave the beginning of a line on the wire, and the next line is
then read as its continuation. No keyword ends in another one, so a server takes such a
line for an order that concerns no message.
-/

namespace Pop

open Exec Computability
open Nom (Bytes ascii isDigit cr lf)

/-- The beginnings of the lines with these texts -/
def torn (texts : Set Bytes) : Language UInt8 :=
  {piece | ∃ text ∈ texts, piece <+: text ++ endOfLine}

variable {texts : Set Bytes}

/-! ## Completed lines -/

theorem completeLines_unbroken (line : Bytes) {piece : Bytes} (hpiece : lf ∉ piece)
    (bytes : Bytes) : completeLines line (piece ++ bytes) = completeLines (line ++ piece) bytes := by
  induction piece generalizing line with
  | nil => simp
  | cons c piece ih =>
    obtain ⟨hc, hpiece⟩ := not_or.mp (List.mem_cons.not.mp hpiece)
    rw [List.cons_append, completeLines, if_neg (Ne.symm hc), ih _ hpiece, List.append_assoc,
      List.singleton_append]

/-- A beginning of a line is all of it, or breaks no line. -/
theorem torn_cases {piece : Bytes} (htexts : ∀ text ∈ texts, lf ∉ text) (h : piece ∈ torn texts) :
    (∃ text ∈ texts, piece = text ++ endOfLine) ∨ lf ∉ piece := by
  obtain ⟨text, htext, hpiece⟩ := h
  have hend : text ++ endOfLine = (text ++ [cr]) ++ [lf] := by simp [endOfLine]
  rw [hend, List.prefix_concat_iff] at hpiece
  rcases hpiece with hwhole | hpart
  · exact .inl ⟨text, htext, hwhole.trans hend.symm⟩
  · refine .inr fun hmem => ?_
    rcases List.mem_append.mp (hpart.subset hmem) with hmem | hmem
    · exact htexts text htext hmem
    · simp [cr, lf] at hmem

/-- Every complete line ends in one that was written to its end. -/
theorem completeLines_torn (htexts : ∀ text ∈ texts, lf ∉ text) {pieces : List Bytes}
    (hpieces : ∀ piece ∈ pieces, piece ∈ torn texts) (pending : Bytes) :
    ∀ line ∈ completeLines pending pieces.flatten, ∃ front, ∃ text ∈ texts, line = front ++ text := by
  induction pieces generalizing pending with
  | nil => simp [completeLines]
  | cons piece pieces ih =>
    obtain ⟨hpiece, hrest⟩ := List.forall_mem_cons.mp hpieces
    rw [List.flatten_cons]
    rcases torn_cases htexts hpiece with ⟨text, htext, rfl⟩ | hunbroken
    · rw [completeLines_line pending (htexts text htext)]
      exact List.forall_mem_cons.mpr ⟨⟨pending, text, htext, rfl⟩, ih hrest []⟩
    · rw [completeLines_unbroken pending hunbroken]
      exact ih hrest _

/-! ## Orders -/

namespace Order

/-- The words that the client begins its lines with -/
def words : List Bytes := keywords.map Prod.fst ++ [ascii "APOP"]

/-- The text begins with one of the words. -/
def Worded (text : Bytes) : Prop :=
  ∃ word ∈ words, text = word ∨ ∃ rest, text = word ++ 0x20 :: rest

/-- The order concerns no message, and does not end the session. -/
def Idle : Order → Prop
  | .user _ | .pass _ | .authPlain _ | .unknown => True
  | _ => False

/-- No keyword ends in another word. -/
theorem words_spec : ∀ word ∈ words, Command.toAsciiUppercase word = word ∧ 0x20 ∉ word ∧
    word.any (fun c => !isDigit c) = true ∧
      ∀ entry ∈ keywords, word <:+ entry.1 → entry.1.length = word.length := by
  decide +kernel

theorem number?_word {argument : Bytes} (h : argument.any (fun c => !isDigit c) = true) :
    number? argument = none := by
  refine if_neg fun hdigits => ?_
  obtain ⟨c, hc, hdigit⟩ := List.any_eq_true.mp h
  simp [List.all_eq_true.mp hdigits.2 c hc] at hdigit

theorem mem_cut {c : UInt8} {line : Bytes} (hc : c ∈ line) (hspace : c ≠ 0x20) :
    c ∈ (cut line).1 ∨ ∃ rest, (cut line).2 = some rest ∧ c ∈ rest := by
  have hsplit := List.takeWhile_append_dropWhile (p := (· ≠ 0x20)) (l := line)
  unfold cut
  cases hdrop : line.dropWhile (· ≠ 0x20) with
  | nil => exact .inl hc
  | cons b rest =>
    rw [← hsplit, hdrop, List.mem_append, List.mem_cons] at hc
    have hb : b = 0x20 := by
      have hhead := List.head?_dropWhile_not (fun c : UInt8 => decide (c ≠ 0x20)) line
      rw [hdrop] at hhead
      simpa using hhead
    rcases hc with hc | rfl | hc
    · exact .inl hc
    · exact absurd hb hspace
    · exact .inr ⟨rest, rfl, hc⟩

theorem idle_numbered (order : Nat → Order) {argument : Bytes}
    (h : argument.any (fun c => !isDigit c) = true) : (numbered order argument).Idle := by
  rw [numbered, number?_word h]
  trivial

theorem idle_ofTop {argument : Bytes} {c : UInt8} (hc : c ∈ argument) (hdigit : isDigit c = false)
    (hspace : c ≠ 0x20) : (ofTop argument).Idle := by
  have hword {bytes : Bytes} (h : c ∈ bytes) : number? bytes = none :=
    number?_word (List.any_eq_true.mpr ⟨c, h, by simp [hdigit]⟩)
  have hcut := mem_cut hc hspace
  unfold ofTop
  generalize cut argument = parts at hcut
  obtain ⟨number, lines⟩ := parts
  cases lines with
  | none => trivial
  | some lines =>
    dsimp only
    rcases hcut with hnumber | ⟨rest, hrest, hlines⟩
    · rw [hword hnumber]
      trivial
    · cases hrest
      rw [hword hlines]
      cases number? number <;> trivial

/-- An argument with a letter in it names no message. -/
theorem idle_ofKeyword (command : Command) {argument : Bytes} {c : UInt8} (hc : c ∈ argument)
    (hdigit : isDigit c = false) (hspace : c ≠ 0x20) : (ofKeyword command (some argument)).Idle := by
  have hword : argument.any (fun c => !isDigit c) = true :=
    List.any_eq_true.mpr ⟨c, hc, by simp [hdigit]⟩
  cases command with
  | uidl => exact idle_numbered _ hword
  | list => exact idle_numbered _ hword
  | dele => exact idle_numbered _ hword
  | retr => exact idle_numbered _ hword
  | top => exact idle_ofTop hc hdigit hspace
  | auth =>
    simp only [ofKeyword, ofAuth]
    split
    · split <;> trivial
    · trivial
  | _ => trivial

/-- What a torn line makes of the next one -/
theorem idle_joined {front text : Bytes} (hfront : front ≠ []) (htext : Worded text) :
    (ofLine (front ++ text)).Idle := by
  obtain ⟨word, hword, htext⟩ := htext
  obtain ⟨hupper, hspace, hletters, hkeywords⟩ := words_spec word hword
  have hsub : word ⊆ text := by
    rcases htext with rfl | ⟨rest, rfl⟩ <;> simp
  by_cases hfrontSpace : 0x20 ∈ front
  · -- the keyword is in the torn line, and the next line is in its argument
    obtain ⟨first, second, rfl, hfirst⟩ := List.eq_append_cons_of_mem hfrontSpace
    obtain ⟨c, hc, hdigit⟩ := List.any_eq_true.mp hletters
    rw [List.append_assoc, List.cons_append, ofLine, cut_space hfirst]
    dsimp only
    cases keywords.lookup (Command.toAsciiUppercase first) with
    | none => trivial
    | some command =>
      refine idle_ofKeyword command (List.mem_append_right second (hsub hc)) (by simpa using hdigit) ?_
      exact fun h => hspace (h ▸ hc)
  · -- the keyword of the next line is continued to the left
    have hjoined : 0x20 ∉ front ++ word := by simp [hfrontSpace, hspace]
    have hfirst : (cut (front ++ text)).1 = front ++ word := by
      rcases htext with rfl | ⟨rest, rfl⟩
      · rw [cut_word hjoined]
      · rw [← List.append_assoc, cut_space hjoined]
    have hlookup : keywords.lookup (Command.toAsciiUppercase (front ++ word)) = none := by
      rw [Option.eq_none_iff_forall_ne_some]
      intro command hcommand
      obtain ⟨before, after, hentries, -⟩ := List.lookup_eq_some_iff.mp hcommand
      have hentry : (Command.toAsciiUppercase (front ++ word), command) ∈ keywords :=
        hentries ▸ List.mem_append_right before List.mem_cons_self
      have hupperJoined : Command.toAsciiUppercase (front ++ word) =
          Command.toAsciiUppercase front ++ word := by
        rw [Command.toAsciiUppercase, List.map_append]
        exact congrArg _ hupper
      rw [hupperJoined] at hentry
      have hlength : (Command.toAsciiUppercase front ++ word).length = word.length :=
        hkeywords _ hentry (List.suffix_append ..)
      rw [List.length_append, Command.toAsciiUppercase, List.length_map] at hlength
      exact hfront (List.length_eq_zero_iff.mp (by omega))
    rw [ofLine, hfirst, hlookup]
    trivial

end Order

end Pop
