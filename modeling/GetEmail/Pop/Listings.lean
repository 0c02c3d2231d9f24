-- SUMMARY: Scan listings and unique-id listings are read to their terminator, except behind a status line that reads as a single answer.
import GetEmail.Pop.ParserLines

/-!
# Listings

The answer to LIST and to UIDL is one line when the request names a message and
a listing when it does not. The parser is told the command only, and tries the
single line first. The grammars of the single lines are written out here as
relations, so that the status texts they claim can be named.
-/

namespace Pop.Parser

open Nom

/-! ## Lines that answer for one message -/

/-- Two numbers and any further text, as in the answer to STAT. -/
inductive StatLine : Bytes → Stat → Prop where
  | intro {count blank size more : Bytes} (hcount : Run isDigit count) (hblank : Run isSpace blank)
      (hsize : Run isDigit size) (hmore : ∀ c ∈ more.head?, isDigit c = false) :
      StatLine (count ++ (blank ++ (size ++ more))) ⟨⟨count⟩, ⟨size⟩⟩

/-- A number and a unique-id, with nothing but blanks behind them. -/
inductive UidlLine : Bytes → UniqueId → Prop where
  | intro {index blank id trail : Bytes} (hindex : Run isDigit index) (hblank : Run isSpace blank)
      (hid : Run isValidChar id) (hlength : id.length ≤ 70) (htrail : ∀ c ∈ trail, isSpace c = true) :
      UidlLine (index ++ (blank ++ (id ++ trail))) ⟨⟨index⟩, ⟨id⟩⟩

/-! ## Reading one line -/

theorem isDigit_of_isSpace (c : UInt8) (hc : isSpace c) : isDigit c = false := by
  rcases (by simpa [isSpace] using hc : c = 0x20 ∨ c = 0x09) with rfl | rfl <;> rfl

theorem isValidChar_of_isSpace (c : UInt8) (hc : isSpace c) : isValidChar c = false := by
  rcases (by simpa [isSpace] using hc : c = 0x20 ∨ c = 0x09) with rfl | rfl <;> rfl

theorem isSpace_of_isDigit (c : UInt8) (hc : isDigit c) : isSpace c = false := by
  by_contra h
  simp [isDigit_of_isSpace c (by simpa using h)] at hc

theorem isSpace_of_isValidChar (c : UInt8) (hc : isValidChar c) : isSpace c = false := by
  by_contra h
  simp [isValidChar_of_isSpace c (by simpa using h)] at hc

theorem ended_head {p : UInt8 → Bool} (hp : p cr = false) {l : Bytes} (z : Bytes) :
    Ended p (l ++ (crlf ++ z)) ↔ ∀ c ∈ l.head?, p c = false := by
  cases l with
  | nil => simpa using ended_crlf hp z
  | cons c l => simp [Ended]

section Numbered

variable {α : Type} (f : Bytes → Parser α)

/-- Both single lines start with a number and blanks. -/
theorem numbered {count blank x : Bytes} (hcount : Run isDigit count) (hblank : Run isSpace blank)
    (hx : Ended isSpace x) :
    (do let count ← digit1; let _ ← space1; f count) (count ++ (blank ++ x)) = f count x := by
  have h₁ := takeWhile1_run hcount.all (hblank.ended isDigit_of_isSpace x) .digit
  have h₂ := takeWhile1_run hblank.all hx .space
  rw [if_neg hcount.ne_nil] at h₁
  rw [if_neg hblank.ne_nil] at h₂
  simp only [digit1, space1, bind_apply, h₁, h₂, IResult.bind_ok]

theorem numbered_line (l z : Bytes) :
    (∃ e, (do let count ← digit1; let _ ← space1; f count) (l ++ (crlf ++ z)) = .error e) ∨
      ∃ count blank l', l = count ++ (blank ++ l') ∧ Run isDigit count ∧ Run isSpace blank ∧
        (do let count ← digit1; let _ ← space1; f count) (l ++ (crlf ++ z)) =
          f count (l' ++ (crlf ++ z)) := by
  obtain ⟨count, l₁, rfl, hcount, hended₁⟩ := exists_run l (ended_crlf (p := isDigit) rfl z)
  obtain ⟨blank, l', rfl, hblank, hended₂⟩ := exists_run l₁ (ended_crlf (p := isSpace) rfl z)
  have h₁ := takeWhile1_run hcount hended₁ .digit
  have h₂ := takeWhile1_run hblank hended₂ .space
  simp only [List.append_assoc] at h₁ ⊢
  simp only [digit1, space1, bind_apply, h₁]
  split
  · exact .inl ⟨_, rfl⟩
  next hne₁ =>
    simp only [IResult.bind_ok, h₂]
    split
    · exact .inl ⟨_, rfl⟩
    next hne₂ => exact .inr ⟨count, blank, l', rfl, ⟨hne₁, hcount⟩, ⟨hne₂, hblank⟩, rfl⟩

end Numbered

/-- The line of a drop listing is read as its numbers. -/
theorem StatLine.parse {l : Bytes} {s : Stat} (h : StatLine l s) (hl : IsLine l) (z : Bytes) :
    stat (l ++ (crlf ++ z)) = .ok z s := by
  obtain ⟨hcount, hblank, hsize, hmore⟩ := h
  next count blank size more =>
  have hmoreLine : IsLine more :=
    (IsLine.append.mp (IsLine.append.mp (IsLine.append.mp hl).2).2).2
  have hread := takeWhile1_run hsize.all ((ended_head rfl z).mpr hmore) .digit
  rw [if_neg hsize.ne_nil] at hread
  unfold stat
  simp only [List.append_assoc]
  rw [numbered _ hcount hblank (hsize.ended isSpace_of_isDigit _)]
  simp only [digit1, bind_apply, hread, IResult.bind_ok, opt, notLineEnding_line hmoreLine,
    eol_crlf, pure_apply]

/-- Any other line is rejected. -/
theorem stat_line {l : Bytes} (hl : IsLine l) (h : ¬ ∃ s, StatLine l s) (z : Bytes) :
    ∃ e, stat (l ++ (crlf ++ z)) = .error e := by
  rcases numbered_line _ l z with herror | ⟨count, blank, l', rfl, hcount, hblank, hrest⟩
  · exact herror
  obtain ⟨size, more, rfl, hsize, hended⟩ := exists_run l' (ended_crlf (p := isDigit) rfl z)
  have hread := takeWhile1_run hsize hended .digit
  simp only [List.append_assoc] at hrest
  unfold stat
  simp only [List.append_assoc]
  rw [hrest]
  simp only [digit1, bind_apply, hread]
  split
  · exact ⟨_, rfl⟩
  next hne =>
    exact absurd ⟨_, .intro hcount hblank ⟨hne, hsize⟩ ((ended_head rfl z).mp hended)⟩ h

/-- The line of a unique-id listing is read as its number and its id. -/
theorem UidlLine.parse {l : Bytes} {u : UniqueId} (h : UidlLine l u) (z : Bytes) :
    uidl (l ++ (crlf ++ z)) = .ok z u := by
  obtain ⟨hindex, hblank, hid, hlength, htrail⟩ := h
  next index blank id trail =>
  have hended : Ended isValidChar (trail ++ (crlf ++ z)) := by
    refine (ended_head rfl z).mpr fun c hc => isValidChar_of_isSpace c (htrail c ?_)
    exact List.mem_of_mem_head? hc
  have hread := takeWhileMN_run hid.all hended (m := 1) (n := 70)
  have hpos : 1 ≤ id.length := List.length_pos_iff.mpr hid.ne_nil
  rw [if_pos hpos, List.drop_of_length_le hlength,
    List.take_of_length_le hlength] at hread
  unfold uidl
  simp only [List.append_assoc]
  rw [numbered _ hindex hblank (hid.ended isSpace_of_isValidChar _)]
  simp only [uniqueId, bind_apply, hread, IResult.bind_ok, List.nil_append, eol_blank htrail,
    pure_apply]

/-- Any other line is rejected. -/
theorem uidl_line {l : Bytes} (hl : IsLine l) (h : ¬ ∃ u, UidlLine l u) (z : Bytes) :
    ∃ e, uidl (l ++ (crlf ++ z)) = .error e := by
  rcases numbered_line _ l z with herror | ⟨index, blank, l', rfl, hindex, hblank', hrest⟩
  · exact herror
  obtain ⟨id, trail, rfl, hid, hended⟩ := exists_run l' (ended_crlf (p := isValidChar) rfl z)
  have hread := takeWhileMN_run hid hended (m := 1) (n := 70)
  have hrestLine : IsLine (id.drop 70 ++ trail) := by
    have hid := (IsLine.append.mp (IsLine.append.mp (IsLine.append.mp hl).2).2)
    exact IsLine.append.mpr ⟨fun c hc => hid.1 c (List.mem_of_mem_drop hc), hid.2⟩
  simp only [List.append_assoc] at hrest
  unfold uidl
  simp only [List.append_assoc]
  rw [hrest]
  simp only [uniqueId, bind_apply, hread]
  split
  · next hpos =>
    rcases eol_line hrestLine z with hblank | ⟨e, he⟩
    -- nothing but blanks behind the id, so it has no seventy-first byte
    · have hover : id.drop 70 = [] := by
        refine List.eq_nil_iff_forall_not_mem.mpr fun c hc => ?_
        have hvalid := isValidChar_of_isSpace c (hblank c (by simp [hc]))
        simp [hid c (List.mem_of_mem_drop hc)] at hvalid
      refine absurd ⟨_, .intro hindex hblank' ⟨List.length_pos_iff.mp hpos, hid⟩ ?_ ?_⟩ h
      · exact List.drop_eq_nil_iff.mp hover
      · exact fun c hc => hblank c (by simp [hc])
    · rw [List.append_assoc] at he
      exact ⟨e, by simp only [IResult.bind_ok, he, IResult.bind_error]⟩
  · exact ⟨_, rfl⟩

/-! ## Reading the status line -/

theorem finishesLine_listStats : FinishesLine listStats := by
  have hdigit : WithinLine digit1 := withinLine_takeWhile1 rfl _
  have hspace : WithinLine space1 := withinLine_takeWhile1 rfl _
  have hword : WithinLine (takeWhile isAlphanumeric) := withinLine_takeWhile rfl
  refine hdigit.finishes fun _ => hspace.finishes fun _ => hword.finishes fun _ =>
    hspace.finishes fun _ => WithinLine.finishes ?_ fun _ => finishesLine_eol.map _
  refine (withinLine_char (by decide)).bind fun _ => WithinLine.bind ?_ fun _ =>
    (withinLine_char (by decide)).bind fun _ => withinLine_pure _
  exact hdigit.bind fun _ => hspace.bind fun _ => hword.bind fun _ => withinLine_pure _

/-- Whether or not it announces numbers, the status line of a scan listing is
read whole. -/
theorem listHeader_line {l : Bytes} (hl : IsLine l) (z : Bytes) :
    ∃ stats, alt [map listStats some, map messageParser fun _ => none] (l ++ (crlf ++ z)) =
      .ok z stats := by
  rcases finishesLine_listStats hl z with ⟨e, he⟩ | ⟨s, hs⟩
  · exact ⟨none, by simp [alt, map, he, messageParser_line hl]⟩
  · exact ⟨some s, by simp [alt, map, hs]⟩

/-! ## Reading the listing -/

/-- A positive answer of several lines, as a server sends it. -/
def listing (text : Bytes) (lines : List Bytes) : Bytes :=
  okTag ++ (0x20 :: text ++ (crlf ++ (lines.flatMap (· ++ crlf) ++ (ascii "." ++ crlf))))

theorem endOfMultiline_terminator (z : Bytes) :
    endOfMultiline (ascii "." ++ (crlf ++ z)) = .ok z () := by
  simp [endOfMultiline, pair, tag_append, lineEnding, crlf, Nom.compare, compareBy, cr, lf]

theorem tag_dot_of_isDigit {c : UInt8} (hc : isDigit c) (x : Bytes) :
    ∃ e, tag (ascii ".") (c :: x) = .error e := by
  have hne : c ≠ 0x2e := by rintro rfl; simp [isDigit] at hc
  exact ⟨⟨c :: x, .tag⟩, by simp [tag, takeTag, Nom.compare, compareBy, ascii, hne]⟩

/-- A repetition over the lines of a listing, each of which starts with a digit
and is read by `item`, stops behind the terminator. -/
theorem manyTill_lines {ε α : Type} {line : ε → Bytes} {value : ε → α} {item : Parser α}
    (hitem : ∀ e z, item (line e ++ (crlf ++ z)) = .ok z (value e))
    (hdigit : ∀ e, ∃ c l, line e = c :: l ∧ isDigit c) (entries : List ε) (z : Bytes) :
    manyTill (preceded (opt (tag (ascii "."))) item) endOfMultiline
      ((entries.map line).flatMap (· ++ crlf) ++ (ascii "." ++ (crlf ++ z))) =
        .ok z (entries.map value, ()) := by
  have hdot : ∀ e z, ∃ err, tag (ascii ".") (line e ++ (crlf ++ z)) = .error err := by
    intro e z
    obtain ⟨c, l, hcons, hc⟩ := hdigit e
    rw [hcons]
    exact tag_dot_of_isDigit hc _
  have hitems : Items (preceded (opt (tag (ascii "."))) item) endOfMultiline
      (entries.map fun e => (line e ++ crlf, value e)) := by
    refine ⟨?_, ?_, ?_⟩ <;> rintro _ hmem <;> obtain ⟨e, -, rfl⟩ := List.mem_map.mp hmem
    · intro z
      obtain ⟨err, herr⟩ := hdot e z
      simp [preceded, opt, herr, hitem]
    · intro z
      obtain ⟨err, herr⟩ := hdot e z
      exact ⟨err, by simp [endOfMultiline, pair, herr]⟩
    · simp [crlf]
  have hread := hitems.manyTill (endOfMultiline_terminator z)
  simpa [List.flatMap_map, Function.comp_def] using hread

/-- An entry of a scan listing: two numbers and, behind a space, further text. -/
structure ScanEntry where
  number : Bytes
  size : Bytes
  more : Option Bytes
  number_run : Run isDigit number
  size_run : Run isDigit size
  more_line : ∀ text ∈ more, IsLine text

namespace ScanEntry

def line (e : ScanEntry) : Bytes :=
  e.number ++ (0x20 :: (e.size ++ (e.more.map (0x20 :: ·)).getD []))

def stat (e : ScanEntry) : Stat := ⟨⟨e.number⟩, ⟨e.size⟩⟩

end ScanEntry

/-- An entry of a unique-id listing: a number and between 1 and 70 printable bytes. -/
structure IdEntry where
  index : Bytes
  id : Bytes
  index_run : Run isDigit index
  id_run : Run isValidChar id
  id_length : id.length ≤ 70

namespace IdEntry

def line (e : IdEntry) : Bytes := e.index ++ (0x20 :: e.id)

def uniqueId (e : IdEntry) : UniqueId := ⟨⟨e.index⟩, ⟨e.id⟩⟩

end IdEntry

theorem run_space : Run isSpace [0x20] := ⟨by simp, by simp [isSpace]⟩

theorem ScanEntry.line_isLine (e : ScanEntry) : IsLine e.line := by
  have hmore : IsLine ((e.more.map (0x20 :: ·)).getD []) := by
    cases hm : e.more with
    | none => simp [IsLine]
    | some text =>
      have := e.more_line text hm
      simpa [IsLine, isLineByte, cr, lf] using this
  have hdigit : isDigit cr = false ∧ isDigit lf = false := by decide
  have hspace : IsLine [0x20] := by decide
  exact IsLine.append.mpr ⟨isLine_of_run hdigit e.number_run.all,
    (IsLine.append (a := [0x20])).mpr ⟨hspace,
      IsLine.append.mpr ⟨isLine_of_run hdigit e.size_run.all, hmore⟩⟩⟩

theorem ScanEntry.statLine (e : ScanEntry) : StatLine e.line e.stat := by
  refine (.intro e.number_run run_space e.size_run ?_ :
    StatLine (e.number ++ ([0x20] ++ (e.size ++ _))) e.stat)
  cases e.more with
  | none => simp
  | some text => simp [isDigit]

theorem IdEntry.uidlLine (e : IdEntry) : UidlLine e.line e.uniqueId := by
  have h : UidlLine (e.index ++ ([0x20] ++ (e.id ++ []))) e.uniqueId :=
    .intro e.index_run run_space e.id_run e.id_length (by simp)
  rwa [List.append_nil] at h

theorem listResponse_listing {text : Bytes} (htext : IsLine text) (entries : List ScanEntry)
    (z : Bytes) : ∃ stats, listResponse (text ++ (crlf ++
      ((entries.map ScanEntry.line).flatMap (· ++ crlf) ++ (ascii "." ++ (crlf ++ z))))) =
        .ok z (.list ⟨stats, entries.map ScanEntry.stat⟩) := by
  obtain ⟨stats, hheader⟩ := listHeader_line htext
    ((entries.map ScanEntry.line).flatMap (· ++ crlf) ++ (ascii "." ++ (crlf ++ z)))
  have hlines := manyTill_lines (fun e z => e.statLine.parse e.line_isLine z)
    (fun e => e.number_run.head _) entries z
  refine ⟨stats, ?_⟩
  simp only [listResponse, bind_apply, hheader, IResult.bind_ok, hlines, pure_apply]

theorem uidlListResponse_listing {text : Bytes} (htext : IsLine text) (entries : List IdEntry)
    (z : Bytes) : uidlListResponse (text ++ (crlf ++
      ((entries.map IdEntry.line).flatMap (· ++ crlf) ++ (ascii "." ++ (crlf ++ z))))) =
        .ok z (.uidl (.multiple ⟨some ⟨text⟩, entries.map IdEntry.uniqueId⟩)) := by
  have hlines := manyTill_lines (fun e z => e.uidlLine.parse z) (fun e => e.index_run.head _)
    entries z
  simp only [uidlListResponse, bind_apply, messageParser_line htext, IResult.bind_ok, hlines,
    pure_apply, Option.map_some]

variable [Host]

/-! ## The whole answer -/

/-- The answer to a listing under the command, once its status is read. -/
theorem parse_listing {request : Command} (hrequest : takesChallenge request = false)
    (text : Bytes) (lines : List Bytes) (rest : Bytes) :
    parse (listing text lines ++ rest) request =
      okResponse request (text.dropWhile isSpace ++ (crlf ++
        (lines.flatMap (· ++ crlf) ++ (ascii "." ++ (crlf ++ rest))))) := by
  have hne : listing text lines ++ rest ≠ [] := by simp [listing, okTag, ascii]
  have hstatus := status_okTag (l := 0x20 :: text)
    (lines.flatMap (· ++ crlf) ++ (ascii "." ++ (crlf ++ rest)))
  rw [parse_eq, if_neg hne, hrequest]
  simp only [Bool.false_eq_true, if_false, statusResponse, bind_apply]
  simp only [listing, List.append_assoc, List.cons_append] at hstatus ⊢
  rw [hstatus]
  rfl

/-- A status text that reads as the answer to STAT is the whole response. The
listing behind it is left for the next command. -/
theorem scanListing_single {text : Bytes} (htext : IsLine text) {s : Stat}
    (hs : StatLine (text.dropWhile isSpace) s) (lines : List Bytes) (rest : Bytes) :
    parse (listing text lines ++ rest) .list =
      .ok (lines.flatMap (· ++ crlf) ++ (ascii "." ++ (crlf ++ rest))) (.stat s) := by
  rw [parse_listing rfl]
  simp [okResponse, alt, statResponse, hs.parse (htext.dropWhile isSpace)]

/-- A scan listing is read to its terminator exactly when its status text does
not read as the answer to STAT. -/
theorem scanListing_iff {text : Bytes} (htext : IsLine text) (entries : List ScanEntry)
    (rest : Bytes) :
    (∃ list, parse (listing text (entries.map ScanEntry.line) ++ rest) .list =
        .ok rest (.list list) ∧ list.items = entries.map ScanEntry.stat) ↔
      ¬ ∃ s, StatLine (text.dropWhile isSpace) s := by
  constructor
  · rintro ⟨list, hlist, -⟩ ⟨s, hs⟩
    simp [scanListing_single htext hs] at hlist
  · intro h
    have hline := htext.dropWhile isSpace
    obtain ⟨e, he⟩ := stat_line hline h ((entries.map ScanEntry.line).flatMap (· ++ crlf) ++
      (ascii "." ++ (crlf ++ rest)))
    obtain ⟨stats, hstats⟩ := listResponse_listing hline entries rest
    refine ⟨⟨stats, entries.map ScanEntry.stat⟩, ?_, rfl⟩
    rw [parse_listing rfl]
    simp only [okResponse, alt, statResponse, bind_apply, he, IResult.bind_error, hstats]

omit [Host] in
theorem scanListing_iff_messages : ¬ ∃ s, StatLine (ascii "2 messages (320 bytes)") s :=
  let host : Host := .bare false
  have htext : IsLine (ascii "2 messages (320 bytes)") := by decide
  (scanListing_iff htext
    [⟨ascii "1", ascii "120", some (ascii "more info"), by decide, by decide,
        by decide⟩,
      ⟨ascii "2", ascii "200", none, by decide, by decide, by decide⟩]
    (ascii "+OK")).mp
    ⟨⟨some ⟨⟨ascii "2"⟩, ⟨ascii "320"⟩⟩, _⟩, by decide, rfl⟩

omit [Host] in
/-- `2 320` is a permitted status text. -/
theorem scanListing_two_numbers :
    ¬ ∃ list, @parse (.bare false) (listing (ascii "2 320")
        ([⟨ascii "1", ascii "120", none, by decide, by decide, by decide⟩,
          ⟨ascii "2", ascii "200", none, by decide, by decide, by decide⟩].map
            ScanEntry.line)) .list =
      .ok [] (.list list) := by
  rintro ⟨list, hlist⟩
  have hstat : @parse (.bare false) (listing (ascii "2 320")
      [ascii "1 120", ascii "2 200"]) .list =
        .ok (ascii "1 120" ++ crlf ++ ascii "2 200" ++ crlf ++ ascii "." ++ crlf)
          (.stat ⟨⟨ascii "2"⟩, ⟨ascii "320"⟩⟩) := by decide
  cases hlist.symm.trans hstat

/-- A status text that reads as a number and a unique-id is the whole response. -/
theorem idListing_single {text : Bytes} {u : UniqueId}
    (hu : UidlLine (text.dropWhile isSpace) u) (lines : List Bytes) (rest : Bytes) :
    parse (listing text lines ++ rest) .uidl =
      .ok (lines.flatMap (· ++ crlf) ++ (ascii "." ++ (crlf ++ rest))) (.uidl (.single u)) := by
  rw [parse_listing rfl]
  simp [okResponse, alt, uidlResponse, hu.parse]

/-- A unique-id listing is read to its terminator exactly when its status text
does not read as a number and a unique-id. -/
theorem idListing_iff {text : Bytes} (htext : IsLine text) (entries : List IdEntry)
    (rest : Bytes) :
    (∃ list, parse (listing text (entries.map IdEntry.line) ++ rest) .uidl =
        .ok rest (.uidl (.multiple list)) ∧ list.items = entries.map IdEntry.uniqueId) ↔
      ¬ ∃ u, UidlLine (text.dropWhile isSpace) u := by
  constructor
  · rintro ⟨list, hlist, -⟩ ⟨u, hu⟩
    simp [idListing_single hu] at hlist
  · intro h
    have hline := htext.dropWhile isSpace
    obtain ⟨e, he⟩ := uidl_line hline h ((entries.map IdEntry.line).flatMap (· ++ crlf) ++
      (ascii "." ++ (crlf ++ rest)))
    refine ⟨⟨some ⟨text.dropWhile isSpace⟩, entries.map IdEntry.uniqueId⟩, ?_, rfl⟩
    rw [parse_listing rfl]
    simp only [okResponse, alt, uidlResponse, bind_apply, he, IResult.bind_error]
    exact uidlListResponse_listing hline entries rest

omit [Host] in
theorem idListing_iff_follows : ¬ ∃ u, UidlLine (ascii "unique-id listing follows") u :=
  let host : Host := .bare false
  have htext : IsLine (ascii "unique-id listing follows") := by decide
  (idListing_iff htext
    [⟨ascii "1", ascii "whqtswO00WBw418f9t5JxYwZ", by decide, by decide,
        by decide⟩,
      ⟨ascii "2", ascii "QhdPYR:00WBw1Ph7x7", by decide, by decide,
        by decide⟩]
    (ascii "+OK")).mp
    ⟨⟨some ⟨ascii "unique-id listing follows"⟩, _⟩, by decide, rfl⟩

omit [Host] in
/-- `2 messages` is a permitted status text. -/
theorem idListing_messages :
    ¬ ∃ list, @parse (.bare false) (listing (ascii "2 messages")
        ([⟨ascii "1", ascii "whqtswO00WBw418f9t5JxYwZ", by decide, by decide,
            by decide⟩,
          ⟨ascii "2", ascii "QhdPYR:00WBw1Ph7x7", by decide, by decide,
            by decide⟩].map IdEntry.line)) .uidl =
      .ok [] (.uidl (.multiple list)) := by
  rintro ⟨list, hlist⟩
  have hsingle : @parse (.bare false) (listing (ascii "2 messages")
      [ascii "1 whqtswO00WBw418f9t5JxYwZ", ascii "2 QhdPYR:00WBw1Ph7x7"]) .uidl =
        .ok (ascii "1 whqtswO00WBw418f9t5JxYwZ" ++ crlf ++ ascii "2 QhdPYR:00WBw1Ph7x7" ++ crlf ++
          ascii "." ++ crlf) (.uidl (.single ⟨⟨ascii "2"⟩, ⟨ascii "messages"⟩⟩)) := by
    decide
  cases hlist.symm.trans hsingle

end Pop.Parser
