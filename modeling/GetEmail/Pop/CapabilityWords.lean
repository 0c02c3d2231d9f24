-- SUMMARY: What the parser reports of a capability line, against the words on the line.
import GetEmail.Pop.Capabilities

/-!
# The words of a capability line

A capability line is a list of words, and its first word says what it announces. The
parser matches keywords as prefixes of the line, and the separators it wants behind
them differ.
-/

namespace Pop.Parser

open Nom

/-! ## Words -/

/-- The bytes up to the first blank. -/
def firstWord (l : Bytes) : Bytes := l.takeWhile fun c => !isSpace c

/-- What follows the first word. -/
def afterWord (l : Bytes) : Bytes := l.dropWhile fun c => !isSpace c

/-- The words, as blanks separate them. -/
def words (l : Bytes) : List Bytes := (l.splitOnP isSpace).filter (· ≠ [])

/-- A word of a line. -/
abbrev Word (w : Bytes) : Prop := Run (fun c => !isSpace c) w

theorem words_nil : words [] = [] := by simp [words]

theorem words_blank_cons {c : UInt8} (hc : isSpace c = true) (l : Bytes) : words (c :: l) = words l := by
  simp [words, List.splitOnP_cons_eq_if_modifyHead, hc]

theorem words_blank {b : Bytes} (hb : Blank b) (l : Bytes) : words (b ++ l) = words l := by
  induction b with
  | nil => rfl
  | cons c b ih =>
    rw [List.cons_append, words_blank_cons (hb c (by simp)), ih fun d hd => hb d (by simp [hd])]

/-- Nothing, or a blank. -/
def AtBlank (l : Bytes) : Prop := ∀ c ∈ l.head?, isSpace c = true

theorem Blank.atBlank {b : Bytes} (hb : Blank b) : AtBlank b := by
  cases b with
  | nil => simp [AtBlank]
  | cons c b => simpa [AtBlank] using hb c (by simp)

theorem atBlank_append {b : Bytes} (hb : Run isSpace b) (l : Bytes) : AtBlank (b ++ l) := by
  obtain ⟨c, rest, hcons, hc⟩ := hb.head l
  simpa [AtBlank, hcons] using hc

theorem words_word {w : Bytes} (hw : Word w) {l : Bytes} (hl : AtBlank l) :
    words (w ++ l) = w :: words l := by
  have hnone : ∀ c ∈ w, isSpace c = false := by simpa using hw.all
  cases l with
  | nil =>
    rw [List.append_nil, words_nil, words, List.splitOnP_eq_singleton hnone]
    simp [hw.ne_nil]
  | cons c l =>
    have hc : isSpace c = true := hl c rfl
    rw [words_blank_cons hc]
    simp [words, List.splitOnP_append_cons_of_forall_mem hnone c hc, hw.ne_nil]

theorem firstWord_append {w l : Bytes} (hw : ∀ c ∈ w, isSpace c = false) (hl : AtBlank l) :
    firstWord (w ++ l) = w ∧ afterWord (w ++ l) = l := by
  have hword : ∀ c ∈ w, (!isSpace c) = true := by simpa using hw
  rw [firstWord, afterWord, List.takeWhile_append_of_pos hword, List.dropWhile_append_of_pos hword]
  cases l with
  | nil => simp
  | cons c l =>
    have hc : isSpace c = true := hl c rfl
    simp [hc]

/-! ## What a line says -/

/-- What the words behind EXPIRE say. -/
def ReportedExpiration (ws : List Bytes) : Expiration → Prop
  | .never => ws = [] ∨ ∃ w, ws = [w] ∧ SameLetters w (ascii "NEVER")
  | .time duration => ws = [duration.inner.inner] ∧ duration.toSecsMultiplier = 24 * 60 * 60

/-- The capability is the one of the line's first word, with what follows as its content. -/
def Reported (l : Bytes) : Capability → Prop
  | .top => SameLetters (firstWord l) (ascii "TOP")
  | .user => SameLetters (firstWord l) (ascii "USER")
  | .sasl mechanisms =>
    SameLetters (firstWord l) (ascii "SASL") ∧ mechanisms = words (afterWord l)
  | .respCodes => SameLetters (firstWord l) (ascii "RESP-CODES")
  | .loginDelay delay => SameLetters (firstWord l) (ascii "LOGIN-DELAY") ∧
    words (afterWord l) = [delay.inner.inner] ∧ delay.toSecsMultiplier = 1
  | .pipelining => SameLetters (firstWord l) (ascii "PIPELINING")
  | .expire expiration => SameLetters (firstWord l) (ascii "EXPIRE") ∧
    ReportedExpiration (words (afterWord l)) expiration
  | .uidl => SameLetters (firstWord l) (ascii "UIDL")
  | .implementation text => SameLetters (firstWord l) (ascii "IMPLEMENTATION") ∧
    text.inner = (afterWord l).dropWhile isSpace
  | .stls => SameLetters (firstWord l) (ascii "STLS")
  | .other name => name.inner = firstWord l ∧ ∀ t ∈ keywords, ¬ SameLetters (firstWord l) t

/-- None of the lines whose first word the parser does not take as a whole, or whose text
it takes with the blank in front: a mechanism right behind `SASL`, anything behind
`IMPLEMENTATION`, and `LOGIN-DELAY` without a number. -/
structure Plain (l : Bytes) : Prop where
  sasl : ∀ m ∈ mechanismNames, ¬ SameLetters (firstWord l) (ascii "SASL" ++ m)
  implementation : SameLetters ((firstWord l).take 14) (ascii "IMPLEMENTATION") → l.length = 14
  loginDelay : SameLetters (firstWord l) (ascii "LOGIN-DELAY") → words (afterWord l) ≠ []

theorem keyword_literal {t : Bytes} (ht : t ∈ keywords) : t ∈ literals :=
  List.mem_append_left _ (List.mem_append_left _ ht)

/-- A keyword is not one of the words that make a line unlike its words. -/
theorem plain_of_keyword {k t l : Bytes} (h : SameLetters k t) (ht : t ∈ keywords)
    (hfirst : firstWord l = k) (himplementation : t = ascii "IMPLEMENTATION" → l.length = 14)
    (hloginDelay : t = ascii "LOGIN-DELAY" → words (afterWord l) ≠ []) : Plain l := by
  have hsasl : ∀ t ∈ keywords, ∀ m ∈ mechanismNames, ¬ SameLetters t (ascii "SASL" ++ m) := by
    decide
  have hlong : ∀ t ∈ keywords, SameLetters (t.take 14) (ascii "IMPLEMENTATION") →
      t = ascii "IMPLEMENTATION" := by decide
  have hdelay : ∀ t ∈ keywords, SameLetters t (ascii "LOGIN-DELAY") → t = ascii "LOGIN-DELAY" := by
    decide
  refine ⟨fun m hm hletters => ?_, fun hletters => ?_, fun hletters => ?_⟩
  · exact hsasl t ht m hm (h.symm.trans (hfirst ▸ hletters))
  · refine himplementation (hlong t ht ?_)
    rw [hfirst] at hletters
    exact SameLetters.trans (h.symm.take 14) hletters
  · exact hloginDelay (hdelay t ht (h.symm.trans (hfirst ▸ hletters)))

theorem words_of_blank {b : Bytes} (hb : Blank b) : words b = [] := by
  simpa [words_nil] using words_blank hb []

theorem isSpace_word {w : Bytes} (h : ∀ c ∈ w, isSpace c = false) (hne : w ≠ []) : Word w :=
  ⟨hne, by simpa using h⟩

theorem words_mechanisms {more : List (Bytes × Bytes)}
    (hmore : ∀ i ∈ more, Run isSpace i.1 ∧ Mechanism i.2) {b : Bytes} (hb : Blank b) :
    AtBlank (more.flatMap (fun i => i.1 ++ i.2) ++ b) ∧
      words (more.flatMap (fun i => i.1 ++ i.2) ++ b) = more.map Prod.snd := by
  induction more with
  | nil => exact ⟨hb.atBlank, words_of_blank hb⟩
  | cons i more ih =>
    obtain ⟨⟨hblank, hm⟩, hmore⟩ := List.forall_mem_cons.mp hmore
    obtain ⟨hat, hwords⟩ := ih hmore
    simp only [List.flatMap_cons, List.append_assoc, List.map_cons]
    refine ⟨atBlank_append hblank _, ?_⟩
    rw [words_blank hblank.all, words_word (isSpace_word hm.no_blank hm.ne_nil) hat, hwords]

/-- One word between blanks. -/
theorem words_single {b w b' : Bytes} (hb : Blank b) (hw : Word w) (hb' : Blank b') :
    words (b ++ (w ++ b')) = [w] := by
  rw [words_blank hb, words_word hw hb'.atBlank, words_of_blank hb']

/-- A mechanism right behind `SASL` is part of the first word. -/
theorem sasl_glued {k m y : Bytes} (hk : SameLetters k (ascii "SASL")) (hm : Mechanism m)
    (hy : AtBlank y) : ¬ SameLetters (firstWord (k ++ (m ++ y))) (ascii "SASL") ∧
      ¬ Plain (k ++ (m ++ y)) := by
  have hkblank := no_blank_of_literal hk (by decide)
  have hword : ∀ c ∈ k ++ m, isSpace c = false := fun c hc =>
    (List.mem_append.mp hc).elim (hkblank c) (hm.no_blank c)
  have hfirst := (firstWord_append hword hy).1
  rw [List.append_assoc] at hfirst
  have hne := hm.ne_nil
  obtain ⟨name, hname, hletters⟩ := hm
  refine ⟨fun h => hne ?_, fun h => h.sasl name hname ?_⟩
  · have hlength := h.length_eq
    rw [hfirst, List.length_append, hk.length_eq] at hlength
    exact List.length_eq_zero_iff.mp (by omega)
  · rw [hfirst]
    exact hk.append hletters

/-- Behind `IMPLEMENTATION` nothing may follow. -/
theorem implementation_reported {k text : Bytes} (hk : SameLetters k (ascii "IMPLEMENTATION")) :
    Reported (k ++ text) (.implementation ⟨text⟩) ↔ Plain (k ++ text) := by
  have hmem : ascii "IMPLEMENTATION" ∈ keywords := by decide
  have hkblank := no_blank_of_literal hk (keyword_literal hmem)
  have hlength : k.length = 14 := hk.length_eq
  cases text with
  | nil =>
    obtain ⟨hfirst, hafter⟩ := firstWord_append hkblank (l := []) (by simp [AtBlank])
    refine iff_of_true ⟨by rwa [hfirst], by rw [hafter]; rfl⟩
      (plain_of_keyword hk hmem hfirst (by simp [hlength]) fun h => ?_)
    exact absurd h (by decide)
  | cons c text =>
    refine iff_of_false (fun h => ?_) fun h => ?_
    · obtain ⟨hletters, htext⟩ := h
      cases hc : isSpace c with
      | true =>
        have hafter := (firstWord_append hkblank (l := c :: text) (by simp [AtBlank, hc])).2
        have hdrop := (List.dropWhile_suffix isSpace (l := text)).length_le
        rw [hafter, List.dropWhile_cons_of_pos hc] at htext
        have := congrArg List.length htext
        simp only [List.length_cons] at this
        omega
      | false =>
        have hlong : k ++ [c] <+: firstWord (k ++ c :: text) := by
          have hkword : ∀ d ∈ k, (!isSpace d) = true := by simpa using hkblank
          rw [firstWord, List.takeWhile_append_of_pos hkword, List.takeWhile_cons_of_pos (by simp [hc])]
          exact ⟨text.takeWhile fun c => !isSpace c, by simp⟩
        have := hlong.length_le
        rw [hletters.length_eq, ← hk.length_eq, List.length_append, List.length_singleton] at this
        omega
    · have htake : (firstWord (k ++ c :: text)).take 14 = k := by
        have hkword : ∀ d ∈ k, (!isSpace d) = true := by simpa using hkblank
        rw [firstWord, List.takeWhile_append_of_pos hkword, ← hlength, List.take_left]
      have := h.implementation (by rwa [htake])
      simp only [List.length_append, List.length_cons, hlength] at this
      omega

/-- A known line reports its words exactly when it is plain. -/
theorem KnownLine.reported_iff {l : Bytes} {c : Capability} (h : KnownLine l c) :
    Reported l c ↔ Plain l := by
  -- a keyword with a blank behind it is the first word
  have hfirst {k t y : Bytes} (hk : SameLetters k t) (ht : t ∈ keywords) (hy : AtBlank y) :
      firstWord (k ++ y) = k ∧ afterWord (k ++ y) = y :=
    firstWord_append (no_blank_of_literal hk (keyword_literal ht)) hy
  have hdigits {d : Bytes} (hd : Run isDigit d) : Word d :=
    isSpace_word (fun c hc => isSpace_of_isDigit c (hd.all c hc)) hd.ne_nil
  cases h with
  | @bare k b t c ht hk hb =>
    have hmem : t ∈ keywords := by simpa [keywords] using .inl ⟨_, ht⟩
    obtain ⟨hword, hafter⟩ := hfirst hk hmem hb.atBlank
    have htable : ∀ entry ∈ bareKeywords, entry.1 ≠ ascii "IMPLEMENTATION" ∧
        entry.1 ≠ ascii "LOGIN-DELAY" := by decide
    refine iff_of_true ?_ (plain_of_keyword hk hmem hword (fun h => absurd h (htable _ ht).1)
      fun h => absurd h (htable _ ht).2)
    have hwords : words (afterWord (k ++ b)) = [] := by rw [hafter, words_of_blank hb]
    simp only [bareKeywords, List.mem_cons, Prod.mk.injEq, List.not_mem_nil, or_false] at ht
    rcases ht with ⟨rfl, rfl⟩ | ⟨rfl, rfl⟩ | ⟨rfl, rfl⟩ | ⟨rfl, rfl⟩ | ⟨rfl, rfl⟩ | ⟨rfl, rfl⟩ |
      ⟨rfl, rfl⟩ | ⟨rfl, rfl⟩ <;> simp [Reported, ReportedExpiration, hword, hk, hwords]
  | @sasl k b m b' more hk hb hm hmore hb' =>
    obtain ⟨hat, hwords⟩ := words_mechanisms hmore hb'
    cases b with
    | nil =>
      obtain ⟨hword, hplain⟩ := sasl_glued hk hm hat
      exact iff_of_false (fun h => hword h.1) hplain
    | cons d b =>
      have hmem : ascii "SASL" ∈ keywords := by decide
      obtain ⟨hword, hafter⟩ := hfirst hk hmem (atBlank_append ⟨List.cons_ne_nil d b, hb⟩
        (m ++ (more.flatMap (fun i => i.1 ++ i.2) ++ b')))
      refine iff_of_true ⟨by rwa [hword], ?_⟩ (plain_of_keyword hk hmem hword
        (fun h => absurd h (by decide)) fun h => absurd h (by decide))
      rw [hafter, words_blank hb, words_word (isSpace_word hm.no_blank hm.ne_nil) hat, hwords]
  | @loginDelay k b d b' hk hb hd hb' =>
    have hmem : ascii "LOGIN-DELAY" ∈ keywords := by decide
    obtain ⟨hword, hafter⟩ := hfirst hk hmem (atBlank_append hb (d ++ b'))
    have hwords := words_single hb.all (hdigits hd) hb'
    exact iff_of_true ⟨by rwa [hword], by rw [hafter, hwords], rfl⟩
      (plain_of_keyword hk hmem hword (fun h => absurd h (by decide)) fun _ => by simp [hafter, hwords])
  | @expire k b d b' hk hb hd hb' =>
    have hmem : ascii "EXPIRE" ∈ keywords := by decide
    obtain ⟨hword, hafter⟩ := hfirst hk hmem (atBlank_append hb (d ++ b'))
    have hwords := words_single hb.all (hdigits hd) hb'
    exact iff_of_true ⟨by rwa [hword], by rw [hafter, hwords], rfl⟩
      (plain_of_keyword hk hmem hword (fun h => absurd h (by decide)) fun h => absurd h (by decide))
  | @never k b n b' hk hb hn hb' =>
    have hmem : ascii "EXPIRE" ∈ keywords := by decide
    have hnever : ascii "NEVER" ∈ literals := by decide
    have hnword : Word n := isSpace_word (no_blank_of_literal hn hnever) (ne_nil_of_literal hn hnever)
    obtain ⟨hword, hafter⟩ := hfirst hk hmem (atBlank_append hb (n ++ b'))
    have hwords := words_single hb.all hnword hb'
    exact iff_of_true ⟨by rwa [hword], .inr ⟨n, by rw [hafter, hwords], hn⟩⟩
      (plain_of_keyword hk hmem hword (fun h => absurd h (by decide)) fun h => absurd h (by decide))
  | implementation hk htext => exact implementation_reported hk

/-- The first word of a line that announces another capability is the whole tag. -/
theorem OtherLine.reported_iff {l : Bytes} {c : Capability} (h : OtherLine l c)
    (hunknown : ¬ ∃ c', KnownLine l c') : Reported l c ↔ Plain l := by
  obtain ⟨hw, hb⟩ := h
  rename_i w b
  have hblank : ∀ c ∈ w, isSpace c = false := by
    intro c hc
    by_contra hspace
    have := hw.all c hc
    simp [isOtherByte_of_isSpace c (by simpa using hspace)] at this
  obtain ⟨hword, hafter⟩ := firstWord_append hblank hb.atBlank
  have hwords : words (afterWord (w ++ b)) = [] := by rw [hafter, words_of_blank hb]
  have himplementation : ¬ SameLetters (w.take 14) (ascii "IMPLEMENTATION") := fun hletters =>
    hunknown ⟨_, by
      rw [← List.take_append_drop 14 w, List.append_assoc]
      exact .implementation hletters (IsLine.append.mpr
        ⟨fun c hc => isLine_of_run (by decide) hw.all c (List.mem_of_mem_drop hc), hb.isLine⟩)⟩
  have hbare : ∀ entry ∈ bareKeywords, ¬ SameLetters w entry.1 := fun entry hentry hletters =>
    hunknown ⟨_, .bare hentry hletters hb⟩
  constructor
  · rintro ⟨-, hkeywords⟩
    refine ⟨fun m hm hletters => ?_, fun hletters => ?_, fun hletters => ?_⟩
    · rw [hword] at hletters
      have hcut : w = w.take 4 ++ w.drop 4 := (List.take_append_drop 4 w).symm
      have hsasl : SameLetters (w.take 4) (ascii "SASL") := by
        simpa [ascii] using hletters.take 4
      have hmechanism : SameLetters (w.drop 4) m := by
        have := congrArg (List.drop 4) hletters.eq
        simpa [SameLetters, ascii] using this
      have hknown : KnownLine (w.take 4 ++ ([] ++ (w.drop 4 ++ (([] : List (Bytes × Bytes)).flatMap
          (fun i => i.1 ++ i.2) ++ b)))) (.sasl (w.drop 4 :: ([] : List (Bytes × Bytes)).map Prod.snd)) :=
        .sasl hsasl (by simp [Blank]) ⟨m, hm, hmechanism⟩ (by simp) hb
      exact hunknown ⟨_, by simpa [← List.append_assoc] using hknown⟩
    · exact absurd (hword ▸ hletters) himplementation
    · exact absurd hletters (hkeywords _ (by decide))
  · intro hplain
    refine ⟨hword.symm, fun t ht hletters => ?_⟩
    rw [hword] at hletters
    simp only [keywords, List.mem_append, List.mem_map, List.mem_cons, List.not_mem_nil, or_false] at ht
    rcases ht with ⟨entry, hentry, rfl⟩ | rfl | rfl
    · exact hbare entry hentry hletters
    · exact hplain.loginDelay (by rwa [hword]) hwords
    · exact himplementation (hletters.take 14)

theorem CapabilityLine.reported_iff {l : Bytes} {c : Capability} (h : CapabilityLine l c) :
    Reported l c ↔ Plain l :=
  h.elim KnownLine.reported_iff fun ⟨hunknown, hother⟩ => hother.reported_iff hunknown

/-! ## A listing -/

/-- An accepted listing has a line for each capability, and the capabilities are the ones
on the lines exactly when all lines are plain. -/
theorem capabilityResponse_reported {input rest : Bytes} {cs : List Capability}
    (h : capabilityResponse input = .ok rest (.capability cs)) :
    (∃ listing : CapabilityListing, input = listing.bytes ++ rest) ∧
      ∀ listing : CapabilityListing, input = listing.bytes ++ rest →
        listing.lines.length = cs.length ∧
          (List.Forall₂ Reported (listing.lines.map Prod.fst) cs ↔
            ∀ i ∈ listing.lines, Plain i.1) := by
  obtain ⟨listing, cs', hbytes, hcs, hlines⟩ := capabilityResponse_ok h
  cases hcs
  refine ⟨⟨listing, hbytes⟩, fun listing' hbytes' => ?_⟩
  obtain ⟨rfl, -⟩ := CapabilityListing.unique (hbytes.symm.trans hbytes')
  refine ⟨by simpa using hlines.length_eq, ?_⟩
  have hiff : ∀ {ls : List Bytes} {cs : List Capability}, List.Forall₂ CapabilityLine ls cs →
      (List.Forall₂ Reported ls cs ↔ ∀ l ∈ ls, Plain l) := by
    intro ls cs hlines
    induction hlines with
    | nil => simp
    | cons hline _ ih => simp [hline.reported_iff, ih]
  simpa using hiff hlines

theorem capabilityResponse_reported_top : ∃ listing : CapabilityListing,
    ascii " capabilities\r\nTOP\r\nSASL PLAIN\r\n.\r\n+OK" = listing.bytes ++ ascii "+OK" :=
  have hparse : capabilityResponse (ascii " capabilities\r\nTOP\r\nSASL PLAIN\r\n.\r\n+OK") =
      .ok (ascii "+OK") (.capability [.top, .sasl [ascii "PLAIN"]]) := by decide
  (capabilityResponse_reported hparse).1

/-- The text of the implementation has the blank in front, and a word that starts with
`SASL` is taken for it. -/
theorem capabilityResponse_unlike :
    capabilityResponse (ascii "\r\nIMPLEMENTATION Dovecot\r\nSASLPLAIN\r\n.\r\n") =
        .ok [] (.capability [.implementation ⟨ascii " Dovecot"⟩, .sasl [ascii "PLAIN"]]) ∧
      ¬ Reported (ascii "IMPLEMENTATION Dovecot") (.implementation ⟨ascii " Dovecot"⟩) ∧
      ¬ Reported (ascii "SASLPLAIN") (.sasl [ascii "PLAIN"]) := by
  refine ⟨by decide, fun ⟨_, htext⟩ => ?_, fun ⟨hword, _⟩ => ?_⟩
  · exact absurd htext (by decide)
  · exact absurd hword (by decide)

end Pop.Parser
