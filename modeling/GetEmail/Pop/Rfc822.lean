-- SUMMARY: The multi-line reply to RETR and TOP against the message that a server stores.
import GetEmail.Pop.ParserLines

/-!
# Messages on the wire

RFC 1939 section 3 sends a message line by line, with one more `.` before a line
that starts with one, and ends it with a line `.`. The parser cuts the reply at
the first CRLF `.` CRLF. It leaves the extra dots in, and it does not see the
terminator of a message without lines, whose CRLF belongs to the status line.
-/

namespace Pop.Parser

open Nom

/-! ## The encoding of RFC 1939 -/

/-- `.` -/
def dot : UInt8 := 0x2e

/-- Byte-stuff one line. -/
def stuff (line : Bytes) : Bytes := if line.head? = some dot then dot :: line else line

/-- The lines of a message as a multi-line response. -/
def wire (lines : List Bytes) : Bytes := lines.flatMap (fun l => stuff l ++ crlf) ++ dot :: crlf

/-- The message: its lines joined by CRLF. -/
def message (lines : List Bytes) : Bytes := crlf.intercalate lines

theorem stuff_isLine {l : Bytes} (h : IsLine l) : IsLine (stuff l) := by
  unfold stuff
  split
  · intro c hc
    rcases List.mem_cons.mp hc with rfl | hc
    · decide
    · exact h c hc
  · exact h

theorem stuff_ne_dot (l : Bytes) : stuff l ≠ [dot] := by
  unfold stuff
  split
  · next h => rintro heq; simp_all
  · next h => rintro rfl; simp at h

theorem stuff_length (l : Bytes) :
    (stuff l).length = l.length + if l.head? = some dot then 1 else 0 := by
  unfold stuff
  split <;> simp

theorem message_cons (l : Bytes) (ls : List Bytes) :
    message (l :: ls) = l ++ ls.flatMap fun l' => crlf ++ l' := by
  induction ls generalizing l with
  | nil => simp [message]
  | cons l' ls ih => simp [message, List.intercalate_cons_cons] at ih ⊢; simp [ih]

/-- Lines, each with its ending, and the line `.` are the joined lines and the terminator. -/
theorem flatMap_crlf_cons (l : Bytes) (ls : List Bytes) :
    (l :: ls).flatMap (· ++ crlf) ++ dot :: crlf = message (l :: ls) ++ terminator := by
  have hjoin : ∀ ls : List Bytes, crlf ++ (ls.flatMap (· ++ crlf) ++ dot :: crlf) =
      ls.flatMap (fun l => crlf ++ l) ++ terminator := by
    intro ls
    induction ls with
    | nil => rfl
    | cons l ls ih => simp [List.flatMap_cons, ← ih]
  simp only [List.flatMap_cons, message_cons, List.append_assoc]
  rw [hjoin]

/-- A message with lines is the joined stuffed lines up to the terminator. -/
theorem wire_cons (l : Bytes) (ls : List Bytes) :
    wire (l :: ls) = message ((l :: ls).map stuff) ++ terminator := by
  rw [List.map_cons, ← flatMap_crlf_cons, ← List.map_cons, List.flatMap_map, wire]

/-- Byte-stuffing shows in the length of the message. -/
theorem message_map_stuff_length (lines : List Bytes) :
    (message (lines.map stuff)).length =
      (message lines).length + lines.countP fun l => l.head? = some dot := by
  have htail : ∀ ls : List Bytes, ((ls.map stuff).flatMap fun l => crlf ++ l).length =
      (ls.flatMap fun l => crlf ++ l).length + ls.countP fun l => l.head? = some dot := by
    intro ls
    induction ls with
    | nil => rfl
    | cons l ls ih =>
      simp only [List.map_cons, List.flatMap_cons, List.length_append, ih, stuff_length,
        List.countP_cons, decide_eq_true_eq]
      omega
  cases lines with
  | nil => rfl
  | cons l ls =>
    simp only [List.map_cons, message_cons, List.length_append, htail, stuff_length,
      List.countP_cons, decide_eq_true_eq]
    omega

theorem message_map_stuff_eq {lines : List Bytes} :
    message (lines.map stuff) = message lines ↔ ∀ l ∈ lines, l.head? ≠ some dot := by
  constructor
  · intro h
    have hlen := message_map_stuff_length lines
    rw [h] at hlen
    have hcount : lines.countP (fun l => l.head? = some dot) = 0 := by omega
    simpa [List.countP_eq_zero] using hcount
  · intro h
    have hmap : lines.map stuff = lines.map id := List.map_congr_left fun l hl => if_neg (h l hl)
    rw [hmap, List.map_id]

/-! ## The search for the terminator -/

theorem findSubstring_cons_of_ne {c d : UInt8} (pat x : Bytes) (h : c ≠ d) :
    findSubstring (d :: pat) (c :: x) = (findSubstring (d :: pat) x).map (· + 1) := by
  simp [findSubstring, List.isPrefixOf, Ne.symm h]

/-- The terminator does not start within a line. -/
theorem findSubstring_line {l : Bytes} (hl : IsLine l) (z : Bytes) :
    findSubstring terminator (l ++ z) = (findSubstring terminator z).map (· + l.length) := by
  induction l with
  | nil => simp
  | cons c l ih =>
    have hc := (hl.ne (c := c) (by simp)).1
    rw [List.cons_append, terminator, findSubstring_cons_of_ne _ _ hc, ← terminator, ih hl.tail]
    cases findSubstring terminator z <;> simp [Nat.add_assoc]

/-- It does not start at a CRLF before a line other than `.`, either. -/
theorem findSubstring_crlf {l : Bytes} (hl : IsLine l) (hne : l ≠ [dot]) (z : Bytes) :
    findSubstring terminator (crlf ++ (l ++ (crlf ++ z))) =
      (findSubstring terminator (l ++ (crlf ++ z))).map (· + 2) := by
  have hpre : ¬ terminator.isPrefixOf (crlf ++ (l ++ (crlf ++ z))) := by
    intro h
    cases l with
    | nil => simp [terminator, crlf, cr] at h
    | cons c l =>
      cases l with
      | nil => simp_all [terminator, crlf, dot]
      | cons d l =>
        have := (hl.ne (c := d) (by simp)).1
        simp_all [terminator, crlf]
  have hskip : findSubstring terminator (crlf ++ (l ++ (crlf ++ z))) =
      (findSubstring terminator (lf :: (l ++ (crlf ++ z)))).map (· + 1) :=
    if_neg hpre
  rw [hskip, terminator, findSubstring_cons_of_ne _ _ (by decide), ← terminator]
  cases findSubstring terminator (l ++ (crlf ++ z)) <;> simp

/-- The first terminator after a message whose lines are not `.` is the one that
ends it. -/
theorem findSubstring_message {l : Bytes} {ls : List Bytes} (hline : ∀ l' ∈ l :: ls, IsLine l')
    (hne : ∀ l' ∈ l :: ls, l' ≠ [dot]) (z : Bytes) :
    findSubstring terminator (message (l :: ls) ++ (terminator ++ z)) =
      some (message (l :: ls)).length := by
  have htail : ∀ ls : List Bytes, (∀ l' ∈ ls, IsLine l') → (∀ l' ∈ ls, l' ≠ [dot]) →
      findSubstring terminator (ls.flatMap (fun l' => crlf ++ l') ++ (terminator ++ z)) =
        some (ls.flatMap fun l' => crlf ++ l').length := by
    intro ls hline hne
    induction ls with
    | nil => simp [terminator, findSubstring, List.isPrefixOf]
    | cons l' ls ih =>
      have ih := ih (fun l h => hline l (by simp [h])) fun l h => hne l (by simp [h])
      -- What follows the line starts with CRLF, whether or not it is the last one.
      obtain ⟨z', hz'⟩ : ∃ z', ls.flatMap (fun l' => crlf ++ l') ++ (terminator ++ z) =
          crlf ++ z' := by
        cases ls with
        | nil => exact ⟨_, rfl⟩
        | cons l'' ls =>
          simp only [List.flatMap_cons, List.append_assoc]
          exact ⟨_, rfl⟩
      have hl' := hline l' (by simp)
      rw [List.flatMap_cons, List.append_assoc, List.append_assoc, hz',
        findSubstring_crlf hl' (hne l' (by simp)), findSubstring_line hl', ← hz', ih]
      simp only [Option.map_some, List.length_append, crlf, List.length_cons, List.length_nil]
      congr 1
      omega
  rw [message_cons, List.append_assoc, findSubstring_line (hline l (by simp)),
    htail ls (fun l' h => hline l' (by simp [h])) fun l' h => hne l' (by simp [h])]
  simp [Nat.add_comm]

/-! ## The parser on the reply -/

theorem endOfMultiline_dot (z : Bytes) : endOfMultiline (dot :: (crlf ++ z)) = .ok z () := by
  simp [endOfMultiline, pair, tag, takeTag, ascii, lineEnding, crlf, dot, Nom.compare, compareBy,
    cr, lf]

/-- Lines other than `.` come back up to the terminator. -/
theorem rfc822Response_lines {text l : Bytes} {ls : List Bytes} (htext : IsLine text)
    (hline : ∀ l' ∈ l :: ls, IsLine l') (hne : ∀ l' ∈ l :: ls, l' ≠ [dot]) (z : Bytes) :
    rfc822Response (text ++ (crlf ++ (message (l :: ls) ++ (terminator ++ z)))) =
      .ok z (.bytes (message (l :: ls))) := by
  have hcontent : takeUntil terminator (message (l :: ls) ++ (terminator ++ z)) =
      .ok (crlf ++ (dot :: (crlf ++ z))) (message (l :: ls)) := by
    rw [takeUntil, findSubstring_message hline hne]
    simp [terminator, crlf, dot]
  simp only [rfc822Response, bind_apply, pure_apply, IResult.bind_ok, messageParser_line htext,
    hcontent, eol_crlf, endOfMultiline_dot]

/-- A message with at least one line comes back with its stuffing. -/
theorem rfc822Response_message {text l : Bytes} {ls : List Bytes} (htext : IsLine text)
    (hline : ∀ l' ∈ l :: ls, IsLine l') (z : Bytes) :
    rfc822Response (text ++ (crlf ++ (wire (l :: ls) ++ z))) =
      .ok z (.bytes (message ((l :: ls).map stuff))) := by
  have hstuff : ∀ l' ∈ stuff l :: ls.map stuff, IsLine l' ∧ l' ≠ [dot] := by
    intro l' hl'
    rw [← List.map_cons] at hl'
    obtain ⟨l'', hl'', rfl⟩ := List.mem_map.mp hl'
    exact ⟨stuff_isLine (hline l'' hl''), stuff_ne_dot l''⟩
  rw [wire_cons, List.append_assoc, List.map_cons]
  exact rfc822Response_lines htext (fun l' h => (hstuff l' h).1) (fun l' h => (hstuff l' h).2) z

/-- The terminator of a message without lines is not found where it stands. -/
theorem rfc822Response_empty {text : Bytes} (htext : IsLine text) (z : Bytes) :
    rfc822Response (text ++ (crlf ++ (wire [] ++ z))) ≠ .ok z (.bytes (message [])) := by
  intro h
  simp only [rfc822Response, bind_apply, IResult.bind_ok, messageParser_line htext] at h
  obtain ⟨_, content, htake, h⟩ := IResult.bind_eq_ok.mp h
  obtain ⟨_, _, _, h⟩ := IResult.bind_eq_ok.mp h
  obtain ⟨_, _, _, h⟩ := IResult.bind_eq_ok.mp h
  have hnil : content = [] := by
    cases h
    rfl
  have hfind : findSubstring terminator (wire [] ++ z) =
      (findSubstring terminator (crlf ++ z)).map (· + 1) :=
    findSubstring_cons_of_ne _ _ (by decide)
  rw [takeUntil, hfind] at htake
  cases hf : findSubstring terminator (crlf ++ z) with
  | none => simp [hf] at htake
  | some k =>
    simp only [hf, Option.map_some, IResult.ok.injEq] at htake
    simp [wire, hnil] at htake

/-! ## The framing of a reply -/

/-- The reply to RETR or TOP: the status line in its parts, the content, the first
terminator behind it, and what follows. -/
structure Framed (input blank text lineEnd content rest : Bytes) : Prop where
  cut : input = okTag ++ (blank ++ (text ++ (lineEnd ++ (content ++ (terminator ++ rest)))))
  isBlank : Blank blank
  isLine : IsLine text
  head : ∀ c ∈ text.head?, isSpace c = false
  isLineEnd : LineEnd lineEnd
  first : ∀ i < content.length, ¬ terminator <+: (content ++ terminator).drop i

/-- Up to the first terminator nothing depends on what follows it. -/
theorem terminator_first {content rest : Bytes} :
    (∀ i < content.length, ¬ terminator <+: (content ++ (terminator ++ rest)).drop i) ↔
      ∀ i < content.length, ¬ terminator <+: (content ++ terminator).drop i := by
  refine forall₂_congr fun i hi => not_congr ?_
  rw [← List.append_assoc, List.drop_append_of_le_length (by simp; omega)]
  constructor
  · intro h
    exact List.prefix_of_prefix_length_le h (List.prefix_append _ _) (by simp; omega)
  · exact fun h => h.trans (List.prefix_append _ _)

/-- What ends the content and the line `.` is the terminator. -/
theorem terminator_cut {b e e' y z : Bytes} (hb : Blank b) (he : LineEnd e) (he' : LineEnd e')
    (h : terminator ++ y = b ++ (e ++ (ascii "." ++ (e' ++ z)))) : z = y := by
  have hempty : IsLine [] := by simp [IsLine]
  have hdot : IsLine (ascii ".") := by decide
  obtain ⟨-, -, hrest⟩ := isLine_unique (l := []) (e := crlf) (z := ascii "." ++ (crlf ++ y)) hempty
    hb.isLine (.inr rfl) he h
  exact (isLine_unique hdot hdot (.inr rfl) he' hrest).2.2.symm

theorem rfc822Response_eq_ok {x z content : Bytes} : rfc822Response x = .ok z (.bytes content) ↔
    ∃ text e, x = text ++ (e ++ (content ++ (terminator ++ z))) ∧ IsLine text ∧ LineEnd e ∧
      ∀ i < content.length, ¬ terminator <+: (content ++ terminator).drop i := by
  simp only [rfc822Response, bind_apply, IResult.bind_eq_ok, messageParser_eq_ok, takeUntil_eq_ok,
    eol_eq_ok, endOfMultiline_eq_ok, pure_apply, IResult.ok.injEq, Response.bytes.injEq]
  constructor
  · rintro ⟨_, _, ⟨text, e, rfl, htext, he, -⟩, _, _, ⟨rfl, ⟨y, rfl⟩, hfirst⟩, _, -,
      ⟨b, e', hcut, hb, he'⟩, _, -, ⟨e'', rfl, he''⟩, rfl, rfl⟩
    obtain rfl := terminator_cut hb he' he'' hcut
    exact ⟨text, e, rfl, htext, he, terminator_first.mp hfirst⟩
  · rintro ⟨text, e, rfl, htext, he, hfirst⟩
    exact ⟨_, some text, ⟨text, e, rfl, htext, he, rfl⟩, _, content,
      ⟨rfl, List.prefix_append _ _, terminator_first.mpr hfirst⟩, ascii "." ++ (crlf ++ z), (),
      ⟨[], crlf, rfl, by simp [Blank], .inr rfl⟩, z, (), ⟨crlf, rfl, .inr rfl⟩, rfl, rfl⟩

/-- The blanks of a status line end where its text starts, or its ending. -/
theorem ended_text {t e : Bytes} (hhead : ∀ c ∈ t.head?, isSpace c = false) (he : LineEnd e)
    (z : Bytes) : Ended isSpace (t ++ (e ++ z)) := by
  cases t with
  | nil => exact he.ended rfl rfl z
  | cons c t => exact ⟨c, t ++ (e ++ z), rfl, hhead c rfl⟩

theorem Framed.unique {input b t e c r b' t' e' c' r' : Bytes} (h : Framed input b t e c r)
    (h' : Framed input b' t' e' c' r') : b = b' ∧ t = t' ∧ e = e' ∧ c = c' ∧ r = r' := by
  have hcut := List.append_cancel_left (h.cut.symm.trans h'.cut)
  have hblank : b = b' := by
    have htake := congrArg (List.takeWhile isSpace) hcut
    rwa [takeWhile_prefix_run h.isBlank (ended_text h.head h.isLineEnd _),
      takeWhile_prefix_run h'.isBlank (ended_text h'.head h'.isLineEnd _)] at htake
  subst hblank
  obtain ⟨rfl, rfl, hrest⟩ :=
    isLine_unique h.isLine h'.isLine h.isLineEnd h'.isLineEnd (List.append_cancel_left hcut)
  have hfind {c r : Bytes} (hfirst : ∀ i < c.length, ¬ terminator <+: (c ++ terminator).drop i) :
      takeUntil terminator (c ++ (terminator ++ r)) = .ok (terminator ++ r) c :=
    takeUntil_eq_ok.mpr ⟨rfl, List.prefix_append _ _, terminator_first.mpr hfirst⟩
  have hcontent := hfind (r := r) h.first
  rw [hrest, hfind h'.first] at hcontent
  cases hcontent
  exact ⟨rfl, rfl, rfl, rfl, List.append_cancel_left (List.append_cancel_left hrest)⟩

variable [Host]

/-- RETR and TOP take no challenge. -/
theorem parse_message_request {request : Command} (hrequest : request = .retr ∨ request = .top) :
    okResponse request = rfc822Response ∧
      ∀ {x : Bytes}, x ≠ [] → parse x request = statusResponse request x := by
  have htakes : takesChallenge request = false := by
    rcases hrequest with rfl | rfl <;> rfl
  refine ⟨by rcases hrequest with rfl | rfl <;> rfl, fun hne => ?_⟩
  rw [parse_eq, if_neg hne, htakes]
  simp

/-- The framing is exact: a body is parsed exactly where the input is cut into a status
line, the content up to the first terminator, and the rest, and there is one such cut. -/
theorem parse_framed {request : Command} (hrequest : request = .retr ∨ request = .top)
    (input : Bytes) :
    (∀ rest content, parse input request = .ok rest (.bytes content) ↔
        ∃ blank text lineEnd, Framed input blank text lineEnd content rest) ∧
      ∀ b t e c r b' t' e' c' r', Framed input b t e c r → Framed input b' t' e' c' r' →
        b = b' ∧ t = t' ∧ e = e' ∧ c = c' ∧ r = r' := by
  refine ⟨fun rest content => ?_, fun _ _ _ _ _ _ _ _ _ _ => Framed.unique⟩
  obtain ⟨hok, hstatus⟩ := parse_message_request hrequest
  have hparse : parse input request = .ok rest (.bytes content) ↔
      statusResponse request input = .ok rest (.bytes content) := by
    by_cases hnil : input = []
    · subst hnil
      exact iff_of_false nofun nofun
    · rw [hstatus hnil]
  rw [hparse]
  simp only [statusResponse, bind_apply, IResult.bind_eq_ok, status_ok_iff]
  constructor
  · rintro ⟨_, s, ⟨b, rfl, hb, hended⟩, hbranch⟩
    cases hs : s.success with
    | false =>
      simp only [hs, Bool.false_eq_true, if_false] at hbranch
      obtain ⟨_, _, _, hresponse⟩ := IResult.bind_eq_ok.mp hbranch
      cases hresponse
    | true =>
      simp only [hs, if_true, hok] at hbranch
      obtain ⟨text, e, rfl, htext, he, hfirst⟩ := rfc822Response_eq_ok.mp hbranch
      refine ⟨b, text, e, by simp, hb, htext, fun c hc => ?_, he, hfirst⟩
      obtain ⟨d, y, hcons, hd⟩ := hended
      cases text with
      | nil => cases hc
      | cons c' text =>
        cases hc
        rwa [(List.cons.inj hcons).1]
  · rintro ⟨b, text, e, h⟩
    refine ⟨_, ⟨true⟩, ⟨b, h.cut, h.isBlank, ended_text h.head h.isLineEnd _⟩, ?_⟩
    simp only [if_true, hok]
    exact rfc822Response_eq_ok.mpr ⟨text, e, rfl, h.isLine, h.isLineEnd, h.first⟩

omit [Host] in
theorem parse_framed_twice : ∃ blank text lineEnd,
    Framed (ascii "+OK \nhi\r\n.\r\n\r\n.\r\n") blank text lineEnd (ascii "hi") (ascii "\r\n.\r\n") :=
  ((@parse_framed (.bare false) .retr (.inl rfl) _).1 (ascii "\r\n.\r\n") (ascii "hi")).mp
    (by decide)

/-- The reply to RETR and TOP gives back the stored message exactly when it has a
line and none of its lines starts with a dot. -/
theorem parse_message {request : Command} (hrequest : request = .retr ∨ request = .top)
    {text : Bytes} (htext : IsLine text) {lines : List Bytes} (hlines : ∀ l ∈ lines, IsLine l)
    (rest : Bytes) :
    parse (okTag ++ text ++ crlf ++ wire lines ++ rest) request =
        .ok rest (.bytes (message lines)) ↔
      lines ≠ [] ∧ ∀ l ∈ lines, l.head? ≠ some dot := by
  have hparse : parse (okTag ++ text ++ crlf ++ wire lines ++ rest) request =
      rfc822Response (text.dropWhile isSpace ++ (crlf ++ (wire lines ++ rest))) := by
    obtain ⟨hok, hstatus⟩ := parse_message_request hrequest
    rw [hstatus (by simp [okTag, ascii])]
    simp only [List.append_assoc, statusResponse, bind_apply, status_okTag, IResult.bind_ok, hok,
      if_true]
  rw [hparse]
  cases lines with
  | nil => simpa using rfc822Response_empty (htext.dropWhile _) rest
  | cons l ls =>
    rw [rfc822Response_message (htext.dropWhile _) hlines, ← message_map_stuff_eq]
    simp

omit [Host] in
theorem parse_message_lines :
    @parse (.bare false) (okTag ++ ascii " 2" ++ crlf ++ wire [ascii "hi", []] ++ ascii "+OK") .retr =
      .ok (ascii "+OK") (.bytes (message [ascii "hi", []])) :=
  (@parse_message (.bare false) .retr (.inl rfl) (ascii " 2") (by decide)
    [ascii "hi", []] (by decide) (ascii "+OK")).mpr (by decide)

omit [Host] in
/-- The dot that the server put before a line is in the message that comes back. -/
theorem parse_message_dotted :
    IsLine (ascii " 3") ∧ (∀ l ∈ [ascii ".hi"], IsLine l) ∧
      @parse (.bare false) (okTag ++ ascii " 3" ++ crlf ++ wire [ascii ".hi"] ++ []) .retr =
        .ok [] (.bytes (ascii "..hi")) ∧
      @parse (.bare false) (okTag ++ ascii " 3" ++ crlf ++ wire [ascii ".hi"] ++ []) .retr ≠
        .ok [] (.bytes (message [ascii ".hi"])) := by
  decide

end Pop.Parser
