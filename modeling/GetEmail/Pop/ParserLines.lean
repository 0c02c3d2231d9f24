-- SUMMARY: What the line parsers give on a status line and on a line of text.
import GetEmail.Nom.Accepted
import GetEmail.Pop.ParserStable

/-!
# Lines on the wire

A line is a run of bytes other than CR and LF, and ends with CRLF.
-/

namespace Pop.Parser

open Nom

/-- The bytes of one line, without its ending. -/
def IsLine (l : Bytes) : Prop := ∀ c ∈ l, isLineByte c = true

instance (l : Bytes) : Decidable (IsLine l) := List.decidableBAll _ l

theorem IsLine.tail {c : UInt8} {l : Bytes} (h : IsLine (c :: l)) : IsLine l :=
  fun d hd => h d (by simp [hd])

theorem IsLine.dropWhile {l : Bytes} (h : IsLine l) (p : UInt8 → Bool) : IsLine (l.dropWhile p) :=
  fun c hc => h c ((List.dropWhile_suffix p).subset hc)

theorem IsLine.ne {l : Bytes} (h : IsLine l) {c : UInt8} (hc : c ∈ l) : c ≠ cr ∧ c ≠ lf := by
  simpa [isLineByte] using h c hc

theorem isLine_of_run {p : UInt8 → Bool} (hp : p cr = false ∧ p lf = false) {a : Bytes}
    (ha : ∀ c ∈ a, p c = true) : IsLine a := by
  intro c hc
  have := ha c hc
  simp only [isLineByte, Bool.and_eq_true, bne_iff_ne]
  constructor <;> rintro rfl <;> simp_all

/-- Spaces before the rest of a line are skipped, and no more. -/
theorem dropWhile_isSpace_line {l : Bytes} (z : Bytes) :
    (l ++ (crlf ++ z)).dropWhile isSpace = l.dropWhile isSpace ++ (crlf ++ z) := by
  induction l with
  | nil => rfl
  | cons c l ih =>
    simp only [List.cons_append, List.dropWhile_cons]
    split
    · exact ih
    · rfl

theorem space0_line {l : Bytes} (z : Bytes) : ∃ spaces,
    space0 (l ++ (crlf ++ z)) = .ok (l.dropWhile isSpace ++ (crlf ++ z)) spaces := by
  simp only [space0, takeWhile, dropWhile_isSpace_line]
  split
  · next h => simp [crlf] at h
  · next h => exact ⟨_, congrArg (IResult.ok · _) h.symm⟩

theorem tag_append (t z : Bytes) : tag t (t ++ z) = .ok z t := by
  have hcompare : ∀ t : Bytes, compareBy (· == ·) (t ++ z) t = .ok := by
    intro t
    induction t with
    | nil => simp [compareBy]
    | cons c t ih => simpa [compareBy] using ih
  simp [tag, takeTag, Nom.compare, hcompare]

theorem status_okTag {l : Bytes} (z : Bytes) :
    status (okTag ++ (l ++ (crlf ++ z))) =
      .ok (l.dropWhile isSpace ++ (crlf ++ z)) ⟨true⟩ := by
  obtain ⟨spaces, hspaces⟩ := space0_line (l := l) z
  have htag : alt [value true (tag okTag), value false (tag errTag)]
      (okTag ++ (l ++ (crlf ++ z))) = .ok (l ++ (crlf ++ z)) true := by
    simp only [alt, value, map, bind_apply, pure_apply, IResult.bind_ok, tag_append]
  simp only [status, terminated, map, bind_apply, pure_apply, IResult.bind_ok, htag, hspaces]

theorem eol_crlf (z : Bytes) : eol (crlf ++ z) = .ok z () := by
  simp [eol, pair, space0, takeWhile, lineEnding, crlf, Nom.compare, compareBy, isSpace, cr, lf]

theorem notLineEnding_line {l : Bytes} (hl : IsLine l) (z : Bytes) :
    notLineEnding (l ++ (crlf ++ z)) = .ok (crlf ++ z) l := by
  have hended : Ended isLineByte (crlf ++ z) := ⟨cr, lf :: z, rfl, rfl⟩
  unfold notLineEnding
  rw [dropWhile_run hl hended, takeWhile_prefix_run hl hended]
  simp [crlf, Nom.compare, compareBy]

theorem messageParser_line {l : Bytes} (hl : IsLine l) (z : Bytes) :
    messageParser (l ++ (crlf ++ z)) = .ok z (some l) := by
  simp only [messageParser, terminated, opt, bind_apply, pure_apply, notLineEnding_line hl,
    eol_crlf, IResult.bind_ok]

/-! ## Parsers on a line

A parser that works through a line either rejects it or stops within it; one that
finishes the line stops behind its CRLF. Neither ever asks for more. -/

theorem IsLine.append {a l : Bytes} : IsLine (a ++ l) ↔ IsLine a ∧ IsLine l := by
  simp [IsLine, or_imp, forall_and]

theorem ended_crlf {p : UInt8 → Bool} (hp : p cr = false) (z : Bytes) : Ended p (crlf ++ z) :=
  ⟨cr, lf :: z, rfl, hp⟩

/-- Stops within the line. -/
def WithinLine {α : Type} (p : Parser α) : Prop :=
  ∀ ⦃l : Bytes⦄, IsLine l → ∀ z, (∃ e, p (l ++ (crlf ++ z)) = .error e) ∨
    ∃ l' a, IsLine l' ∧ p (l ++ (crlf ++ z)) = .ok (l' ++ (crlf ++ z)) a

/-- Stops behind the line. -/
def FinishesLine {α : Type} (p : Parser α) : Prop :=
  ∀ ⦃l : Bytes⦄, IsLine l → ∀ z, (∃ e, p (l ++ (crlf ++ z)) = .error e) ∨
    ∃ a, p (l ++ (crlf ++ z)) = .ok z a

section Rules

variable {α β : Type} {p : Parser α} {f : α → Parser β}

theorem WithinLine.bind (hp : WithinLine p) (hf : ∀ a, WithinLine (f a)) :
    WithinLine (p >>= f) := by
  intro l hl z
  rcases hp hl z with ⟨e, he⟩ | ⟨l', a, hl', hok⟩
  · exact .inl ⟨e, by simp [he]⟩
  · simpa [hok] using hf a hl' z

theorem WithinLine.finishes (hp : WithinLine p) (hf : ∀ a, FinishesLine (f a)) :
    FinishesLine (p >>= f) := by
  intro l hl z
  rcases hp hl z with ⟨e, he⟩ | ⟨l', a, hl', hok⟩
  · exact .inl ⟨e, by simp [he]⟩
  · simpa [hok] using hf a hl' z

theorem FinishesLine.map (hp : FinishesLine p) (g : α → β) :
    FinishesLine (p >>= fun a => pure (g a)) := by
  intro l hl z
  rcases hp hl z with ⟨e, he⟩ | ⟨a, hok⟩
  · exact .inl ⟨e, by simp [he]⟩
  · exact .inr ⟨g a, by simp [hok]⟩

theorem withinLine_pure (a : α) : WithinLine (pure a : Parser α) :=
  fun _ hl _ => .inr ⟨_, a, hl, rfl⟩

theorem withinLine_takeWhile {p : UInt8 → Bool} (hp : p cr = false) :
    WithinLine (takeWhile p) := by
  intro l hl z
  obtain ⟨a, l', rfl, ha, hended⟩ := exists_run l (ended_crlf hp z)
  exact .inr ⟨l', a, (IsLine.append.mp hl).2, by rw [List.append_assoc, takeWhile_run ha hended]⟩

theorem withinLine_takeWhile1 {p : UInt8 → Bool} (hp : p cr = false) (kind : Nom.ErrorKind) :
    WithinLine (takeWhile1 kind p) := by
  intro l hl z
  obtain ⟨a, l', rfl, ha, hended⟩ := exists_run l (ended_crlf hp z)
  rw [List.append_assoc, takeWhile1_run ha hended]
  split
  · exact .inl ⟨_, rfl⟩
  · exact .inr ⟨l', a, (IsLine.append.mp hl).2, rfl⟩

theorem withinLine_satisfyByte {p : UInt8 → Bool} (hp : p cr = false) (kind : Nom.ErrorKind) :
    WithinLine (satisfyByte kind p) := by
  intro l hl z
  cases l with
  | nil => exact .inl ⟨_, by simp [satisfyByte, crlf, hp]; rfl⟩
  | cons d l =>
    simp only [satisfyByte, List.cons_append]
    split
    · exact .inr ⟨l, d, hl.tail, rfl⟩
    · exact .inl ⟨_, rfl⟩

theorem withinLine_char {c : UInt8} (hc : c ≠ cr) : WithinLine (char c) :=
  withinLine_satisfyByte (by simpa using hc.symm) .char

theorem withinLine_many1 {p : UInt8 → Bool} (hp : p cr = false) (kind : Nom.ErrorKind) :
    WithinLine (many1 (satisfyByte kind p)) := by
  have hmany : many1 (satisfyByte kind p) = do
      let c ← satisfyByte kind p
      let cs ← takeWhile p
      return c :: cs := funext fun x => many1_satisfyByte kind p
  rw [hmany]
  exact (withinLine_satisfyByte hp kind).bind fun _ => (withinLine_takeWhile hp).bind fun _ =>
    withinLine_pure _

/-- A literal is not compared with more than the line. -/
theorem withinLine_tagNoCase {t : Bytes} (ht : ∀ d ∈ t, lowercaseByte d ≠ cr) :
    WithinLine (tagNoCase t) := by
  intro l hl z
  have hcompare : ∀ {t : Bytes} (l : Bytes), (∀ d ∈ t, lowercaseByte d ≠ cr) →
      compareNoCase (l ++ (crlf ++ z)) t = .error ∨
        t.length ≤ l.length ∧ compareNoCase (l ++ (crlf ++ z)) t = .ok := by
    intro t
    induction t with
    | nil => exact fun l _ => .inr ⟨Nat.zero_le _, by simp [compareNoCase, compareBy]⟩
    | cons d t ih =>
      intro l ht
      rw [List.forall_mem_cons] at ht
      cases l with
      | nil =>
        have hcr : lowercaseByte cr = cr := rfl
        exact .inl (by simp [compareNoCase, compareBy, crlf, hcr, ht.1.symm])
      | cons c l =>
        simp only [compareNoCase, compareBy, List.cons_append]
        split
        · simpa [compareNoCase] using ih l ht.2
        · exact .inl rfl
  rcases hcompare l ht with h | ⟨hlength, h⟩
  · exact .inl ⟨_, by simp only [tagNoCase, takeTag, h]; rfl⟩
  · refine .inr ⟨l.drop t.length, l.take t.length, fun c hc => hl c (List.mem_of_mem_drop hc), ?_⟩
    simp only [tagNoCase, takeTag, h, List.drop_append_of_le_length hlength,
      List.take_append_of_le_length hlength]

theorem WithinLine.opt (hp : WithinLine p) : WithinLine (opt p) := by
  intro l hl z
  rcases hp hl z with ⟨e, he⟩ | ⟨l', a, hl', hok⟩
  · exact .inr ⟨l, none, hl, by simp [Nom.opt, he]⟩
  · exact .inr ⟨l', some a, hl', by simp [Nom.opt, hok]⟩

theorem withinLine_alt {ps : List (Parser α)} (h : ∀ p ∈ ps, WithinLine p) : WithinLine (alt ps) := by
  intro l hl z
  induction ps with
  | nil => exact .inl ⟨_, rfl⟩
  | cons p ps ih =>
    rw [List.forall_mem_cons] at h
    cases ps with
    | nil => exact h.1 hl z
    | cons q ps =>
      rcases h.1 hl z with ⟨e, he⟩ | ⟨l', a, hl', hok⟩
      · simpa [alt, he] using ih h.2
      · exact .inr ⟨l', a, hl', by simp [alt, hok]⟩

theorem finishesLine_alt {ps : List (Parser α)} (h : ∀ p ∈ ps, FinishesLine p) :
    FinishesLine (alt ps) := by
  intro l hl z
  induction ps with
  | nil => exact .inl ⟨_, rfl⟩
  | cons p ps ih =>
    rw [List.forall_mem_cons] at h
    cases ps with
    | nil => exact h.1 hl z
    | cons q ps =>
      rcases h.1 hl z with ⟨e, he⟩ | ⟨a, hok⟩
      · simpa [alt, he] using ih h.2
      · exact .inr ⟨a, by simp [alt, hok]⟩

theorem WithinLine.separatedList0 {q : Parser β} (hq : WithinLine q) (hp : WithinLine p) :
    WithinLine (separatedList0 q p) := by
  have hloop : ∀ fuel, WithinLine (separatedLoop q p fuel) := by
    intro fuel
    induction fuel with
    | zero => exact fun l _ z => .inl ⟨_, rfl⟩
    | succ fuel ih =>
      intro l hl z
      simp only [separatedLoop]
      rcases hq hl z with ⟨e, he⟩ | ⟨l₁, b, hl₁, hsep⟩
      · exact .inr ⟨l, [], hl, by simp [he]⟩
      simp only [hsep]
      split
      · exact .inl ⟨_, rfl⟩
      rcases hp hl₁ z with ⟨e, he⟩ | ⟨l₂, a, hl₂, hitem⟩
      · exact .inr ⟨l, [], hl, by simp [he]⟩
      simp only [hitem]
      rcases ih hl₂ z with ⟨e, he⟩ | ⟨l₃, as, hl₃, hrest⟩
      · exact .inl ⟨e, by simp [he]⟩
      · exact .inr ⟨l₃, a :: as, hl₃, by simp [hrest]⟩
  intro l hl z
  simp only [Nom.separatedList0]
  rcases hp hl z with ⟨e, he⟩ | ⟨l₁, a, hl₁, hitem⟩
  · exact .inr ⟨l, [], hl, by simp [he]⟩
  simp only [hitem]
  rcases hloop _ hl₁ z with ⟨e, he⟩ | ⟨l₂, as, hl₂, hrest⟩
  · exact .inl ⟨e, by rw [he, IResult.bind_error]⟩
  · exact .inr ⟨l₂, a :: as, hl₂, by rw [hrest, IResult.bind_ok]⟩

end Rules

theorem eol_blank {l : Bytes} (hl : ∀ c ∈ l, isSpace c = true) (z : Bytes) :
    eol (l ++ (crlf ++ z)) = .ok z () := by
  have hspace : space0 (l ++ (crlf ++ z)) = .ok (crlf ++ z) l :=
    takeWhile_run hl (ended_crlf rfl z)
  simp only [eol, pair, bind_apply, hspace, IResult.bind_ok]
  simp [lineEnding, crlf, Nom.compare, compareBy, cr, lf]

/-- The end of a line has nothing but blanks in front of it. -/
theorem eol_line {l : Bytes} (hl : IsLine l) (z : Bytes) :
    (∀ c ∈ l, isSpace c = true) ∨ ∃ e, eol (l ++ (crlf ++ z)) = .error e := by
  obtain ⟨a, l', rfl, ha, hended⟩ := exists_run l (ended_crlf (p := isSpace) rfl z)
  cases l' with
  | nil => exact .inl (by simpa using ha)
  | cons c l' =>
    obtain ⟨hcr, hlf⟩ := (IsLine.append.mp hl).2.ne (c := c) (by simp)
    have hspace := takeWhile_run ha hended
    refine .inr ⟨⟨c :: (l' ++ (crlf ++ z)), .crLf⟩, ?_⟩
    simp only [eol, pair, bind_apply, space0, List.append_assoc, hspace, IResult.bind_ok]
    simp [lineEnding, crlf, Nom.compare, compareBy, hcr, hlf]

theorem finishesLine_eol : FinishesLine eol := by
  intro l hl z
  rcases eol_line hl z with hblank | herror
  · exact .inr ⟨(), eol_blank hblank z⟩
  · exact .inl herror

theorem finishesLine_messageParser : FinishesLine messageParser :=
  fun l hl z => .inr ⟨some l, messageParser_line hl z⟩

/-! ## Accepted lines -/

/-- Spaces and tabs. -/
def Blank (b : Bytes) : Prop := ∀ c ∈ b, isSpace c = true

instance (b : Bytes) : Decidable (Blank b) := List.decidableBAll _ b

theorem Blank.isLine {b : Bytes} (h : Blank b) : IsLine b := isLine_of_run ⟨rfl, rfl⟩ h

theorem Blank.ended {b : Bytes} (h : Blank b) {p : UInt8 → Bool}
    (hp : ∀ c, isSpace c = true → p c = false) (hcr : p cr = false) (hlf : p lf = false) {e : Bytes}
    (he : LineEnd e) (z : Bytes) : Ended p (b ++ (e ++ z)) := by
  cases b with
  | nil => exact he.ended hcr hlf z
  | cons c b => exact ⟨c, b ++ (e ++ z), rfl, hp c (h c (by simp))⟩

theorem eol_eq_ok {x z : Bytes} {u : Unit} :
    eol x = .ok z u ↔ ∃ b e, x = b ++ (e ++ z) ∧ Blank b ∧ LineEnd e := by
  simp only [eol, pair, bind_apply, IResult.bind_eq_ok, space0, takeWhile_eq_ok, lineEnding_eq_ok,
    pure_apply, IResult.ok.injEq]
  constructor
  · rintro ⟨_, _, ⟨_, b, ⟨rfl, hblank, -⟩, _, e, ⟨rfl, hend⟩, rfl, -⟩, rfl, -⟩
    exact ⟨b, e, rfl, hblank, hend⟩
  · rintro ⟨b, e, rfl, hblank, hend⟩
    exact ⟨z, _, ⟨_, b, ⟨rfl, hblank, hend.ended rfl rfl z⟩, z, e, ⟨rfl, hend⟩, rfl, rfl⟩, rfl, trivial⟩

theorem endOfMultiline_eq_ok {x z : Bytes} {u : Unit} :
    endOfMultiline x = .ok z u ↔ ∃ e, x = ascii "." ++ (e ++ z) ∧ LineEnd e := by
  simp only [endOfMultiline, pair, bind_apply, IResult.bind_eq_ok, tag_eq_ok, lineEnding_eq_ok,
    pure_apply, IResult.ok.injEq]
  constructor
  · rintro ⟨_, _, ⟨_, _, ⟨rfl, rfl⟩, _, e, ⟨rfl, hend⟩, rfl, -⟩, rfl, -⟩
    exact ⟨e, rfl, hend⟩
  · rintro ⟨e, rfl, hend⟩
    exact ⟨z, _, ⟨_, _, ⟨rfl, rfl⟩, z, e, ⟨rfl, hend⟩, rfl, rfl⟩, rfl, trivial⟩

/-- A line without CR and LF ends where it is cut. -/
theorem isLine_unique {l l' e e' z z' : Bytes} (hl : IsLine l) (hl' : IsLine l') (he : LineEnd e)
    (he' : LineEnd e') (h : l ++ (e ++ z) = l' ++ (e' ++ z')) : l = l' ∧ e = e' ∧ z = z' := by
  have hline : l = l' := by
    have htake := congrArg (List.takeWhile isLineByte) h
    rwa [takeWhile_prefix_run hl (he.ended rfl rfl z),
      takeWhile_prefix_run hl' (he'.ended rfl rfl z')] at htake
  subst hline
  have hrest := List.append_cancel_left h
  rcases he with rfl | rfl <;> rcases he' with rfl | rfl <;> simp_all [crlf, cr, lf]

/-- A line and its ending. -/
def lineBytes (i : Bytes × Bytes) : Bytes := i.1 ++ i.2

/-- A line other than `.`, and its ending. -/
def IsTextLine (i : Bytes × Bytes) : Prop := IsLine i.1 ∧ i.1 ≠ ascii "." ∧ LineEnd i.2

/-- The lines up to the terminator are where they are cut. -/
theorem lines_unique {ls ls' : List (Bytes × Bytes)} {e e' z z' : Bytes}
    (hls : ∀ i ∈ ls, IsTextLine i) (hls' : ∀ i ∈ ls', IsTextLine i) (he : LineEnd e)
    (he' : LineEnd e') (h : ls.flatMap lineBytes ++ (ascii "." ++ (e ++ z)) =
      ls'.flatMap lineBytes ++ (ascii "." ++ (e' ++ z'))) : ls = ls' ∧ e = e' ∧ z = z' := by
  have hdot : IsLine (ascii ".") := by decide
  induction ls generalizing ls' with
  | nil =>
    cases ls' with
    | nil =>
      obtain ⟨-, he, hz⟩ := isLine_unique hdot hdot he he' h
      exact ⟨rfl, he, hz⟩
    | cons i' ls' =>
      obtain ⟨hl, hne, hi⟩ := hls' i' (by simp)
      simp only [List.flatMap_cons, lineBytes, List.append_assoc] at h
      exact absurd (isLine_unique hdot hl he hi h).1.symm hne
  | cons i ls ih =>
    obtain ⟨hl, hne, hi⟩ := hls i (by simp)
    cases ls' with
    | nil =>
      simp only [List.flatMap_cons, lineBytes, List.append_assoc] at h
      exact absurd (isLine_unique hl hdot hi he' h).1 hne
    | cons i' ls' =>
      obtain ⟨hl', -, hi'⟩ := hls' i' (by simp)
      simp only [List.flatMap_cons, lineBytes, List.append_assoc] at h
      obtain ⟨hline, hend, hrest⟩ := isLine_unique hl hl' hi hi' h
      obtain ⟨rfl, he, hz⟩ := ih (fun i h => hls i (by simp [h])) (fun i h => hls' i (by simp [h])) hrest
      exact ⟨by rw [Prod.ext hline hend], he, hz⟩

theorem messageParser_eq_ok {x z : Bytes} {m : Option Bytes} : messageParser x = .ok z m ↔
    ∃ l e, x = l ++ (e ++ z) ∧ IsLine l ∧ LineEnd e ∧ m = some l := by
  simp only [messageParser, terminated, bind_apply, IResult.bind_eq_ok, opt_eq_ok,
    notLineEnding_eq_ok, eol_eq_ok, pure_apply, IResult.ok.injEq]
  constructor
  · rintro ⟨y, m', hopt, y', -, ⟨b, e, rfl, hblank, hend⟩, rfl, rfl⟩
    rcases hopt with ⟨l, ⟨rfl, hl, e', z', hend', hy⟩, rfl⟩ | ⟨⟨err, herr⟩, hx, -⟩
    · -- the blanks would be part of the text
      have hempty : IsLine [] := by simp [IsLine]
      obtain ⟨rfl, rfl, rfl⟩ := isLine_unique hblank.isLine hempty hend hend' hy
      exact ⟨l, e, rfl, hl, hend, rfl⟩
    · subst hx
      have hok : notLineEnding (b ++ (e ++ y')) = .ok (e ++ y') b :=
        notLineEnding_eq_ok.mpr ⟨rfl, hblank.isLine, e, y', hend, rfl⟩
      rw [hok] at herr
      cases herr
  · rintro ⟨l, e, rfl, hl, hend, rfl⟩
    exact ⟨e ++ z, _, .inl ⟨l, ⟨rfl, hl, e, z, hend, rfl⟩, rfl⟩, z, (), ⟨[], e, rfl,
      by simp [Blank], hend⟩, rfl, rfl⟩

/-- What `p` accepts is a line of the form, with its ending. -/
def ReadsLine {α : Type} (p : Parser α) (form : Bytes → α → Prop) : Prop :=
  ∀ ⦃x z : Bytes⦄ ⦃v : α⦄, p x = .ok z v → ∃ l e, x = l ++ (e ++ z) ∧ LineEnd e ∧ form l v

/-- A status and the blanks behind it. -/
theorem status_ok_iff {x z : Bytes} {s : Status} : status x = .ok z s ↔
    ∃ b, x = (if s.success then okTag else errTag) ++ (b ++ z) ∧ Blank b ∧ Ended isSpace z := by
  have htag {y : Bytes} {success : Bool} :
      alt [value true (tag okTag), value false (tag errTag)] x = .ok y success ↔
        x = (if success then okTag else errTag) ++ y := by
    simp only [alt_eq_ok, alt_singleton, value, map, bind_apply, IResult.bind_eq_ok,
      IResult.bind_eq_error, pure_apply, tag_eq_ok, IResult.ok.injEq]
    constructor
    · rintro (⟨_, _, ⟨rfl, rfl⟩, rfl, rfl⟩ | ⟨-, _, _, ⟨rfl, rfl⟩, rfl, rfl⟩) <;> rfl
    · rintro rfl
      cases success with
      | true => exact .inl ⟨y, okTag, ⟨rfl, rfl⟩, rfl, rfl⟩
      | false =>
        have hok : tag okTag (errTag ++ y) = .error ⟨errTag ++ y, .tag⟩ := rfl
        exact .inr ⟨⟨_, .inl hok⟩, y, errTag, ⟨rfl, rfl⟩, rfl, rfl⟩
  simp only [status, terminated, bind_apply, IResult.bind_eq_ok, map, htag, space0,
    takeWhile_eq_ok, pure_apply, IResult.ok.injEq]
  constructor
  · rintro ⟨_, _, ⟨_, success, rfl, rfl, rfl⟩, _, b, ⟨rfl, hblank, hended⟩, rfl, rfl⟩
    exact ⟨b, rfl, hblank, hended⟩
  · rintro ⟨b, rfl, hblank, hended⟩
    exact ⟨b ++ z, s, ⟨_, s.success, rfl, rfl, rfl⟩, z, b, ⟨rfl, hblank, hended⟩, rfl, rfl⟩

end Pop.Parser
