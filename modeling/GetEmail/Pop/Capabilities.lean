-- SUMMARY: The lines that a capability listing may have, and what the parser reports of each.
import GetEmail.Pop.Listings

/-!
# Capability listings

RFC 2449 leaves the tags of a capability listing open. The parser tries ten known
lines, each by the keyword at its front, and takes what is left for the tag of another
capability if it is written in upper case letters, digits and `-`.
-/

namespace Pop.Parser

open Nom

/-! ## The grammar -/

/-- The keywords that announce something with nothing behind them. -/
def bareKeywords : List (Bytes × Capability) :=
  [(ascii "TOP", .top), (ascii "USER", .user), (ascii "RESP-CODES", .respCodes),
    (ascii "SASL", .sasl []), (ascii "PIPELINING", .pipelining), (ascii "EXPIRE", .expire .never),
    (ascii "UIDL", .uidl), (ascii "STLS", .stls)]

/-- The keywords of the known lines. -/
def keywords : List Bytes :=
  bareKeywords.map Prod.fst ++ [ascii "LOGIN-DELAY", ascii "IMPLEMENTATION"]

def mechanismNames : List Bytes :=
  [ascii "KERBEROS_V4", ascii "GSSAPI", ascii "SKEY", ascii "CRAM-MD5", ascii "PLAIN",
    ascii "XOAUTH2", ascii "OAUTHBEARER"]

def Mechanism (m : Bytes) : Prop := ∃ name ∈ mechanismNames, SameLetters m name

/-- The lines that start with a keyword, and what they announce. -/
inductive KnownLine : Bytes → Capability → Prop where
  | bare {k b t : Bytes} {c : Capability} : (t, c) ∈ bareKeywords → SameLetters k t → Blank b →
      KnownLine (k ++ b) c
  | sasl {k b m b' : Bytes} {more : List (Bytes × Bytes)} : SameLetters k (ascii "SASL") →
      Blank b → Mechanism m → (∀ i ∈ more, Run isSpace i.1 ∧ Mechanism i.2) → Blank b' →
      KnownLine (k ++ (b ++ (m ++ (more.flatMap (fun i => i.1 ++ i.2) ++ b'))))
        (.sasl (m :: more.map Prod.snd))
  | loginDelay {k b d b' : Bytes} : SameLetters k (ascii "LOGIN-DELAY") → Run isSpace b →
      Run isDigit d → Blank b' → KnownLine (k ++ (b ++ (d ++ b'))) (.loginDelay ⟨⟨d⟩, 1⟩)
  | expire {k b d b' : Bytes} : SameLetters k (ascii "EXPIRE") → Run isSpace b →
      Run isDigit d → Blank b' →
      KnownLine (k ++ (b ++ (d ++ b'))) (.expire (.time ⟨⟨d⟩, 24 * 60 * 60⟩))
  | never {k b n b' : Bytes} : SameLetters k (ascii "EXPIRE") → Run isSpace b →
      SameLetters n (ascii "NEVER") → Blank b' → KnownLine (k ++ (b ++ (n ++ b'))) (.expire .never)
  | implementation {k text : Bytes} : SameLetters k (ascii "IMPLEMENTATION") → IsLine text →
      KnownLine (k ++ text) (.implementation ⟨text⟩)

/-- The bytes of the tags of other capabilities. -/
def isOtherByte (c : UInt8) : Bool := (ascii "ABCDEFGHIJKLMNOPQRSTUVWXYZ0123456789-").contains c

/-- A tag alone on its line. -/
inductive OtherLine : Bytes → Capability → Prop where
  | intro {w b : Bytes} : Run isOtherByte w → Blank b → OtherLine (w ++ b) (.other ⟨w⟩)

/-- A line of a capability listing, and what the parser reports. -/
def CapabilityLine (l : Bytes) (c : Capability) : Prop :=
  KnownLine l c ∨ (¬ ∃ c', KnownLine l c') ∧ OtherLine l c

/-! ## Bytes of keywords -/

theorem isLineByte_lowercaseByte (c : UInt8) : isLineByte (lowercaseByte c) = isLineByte c := by
  refine lowercaseByte_of_letters (v := true) (fun c hc _ => ?_) c
  have hcr : c ≠ cr := by rintro rfl; exact absurd hc (by decide)
  have hlf : c ≠ lf := by rintro rfl; exact absurd hc (by decide)
  simp [isLineByte, hcr, hlf]

theorem isSpace_lowercaseByte (c : UInt8) : isSpace (lowercaseByte c) = isSpace c := by
  refine lowercaseByte_of_letters (v := false) (fun c hc _ => ?_) c
  have hspace : c ≠ 0x20 := by rintro rfl; exact absurd hc (by decide)
  have htab : c ≠ 0x09 := by rintro rfl; exact absurd hc (by decide)
  simp [isSpace, hspace, htab]

theorem isDigit_lowercaseByte (c : UInt8) : isDigit (lowercaseByte c) = isDigit c := by
  refine lowercaseByte_of_letters (v := false) (fun c hc _ => ?_) c
  have hlt : ¬ c ≤ 0x39 := fun h => absurd (UInt8.le_trans hc h) (by decide)
  simp [isDigit, hlt]

/-- The literals of the grammar. -/
def literals : List Bytes := keywords ++ mechanismNames ++ [ascii "NEVER"]

/-- They are written in upper case letters, digits, `-` and `_`. -/
theorem literal_bytes : ∀ t ∈ literals, ∀ c ∈ t, 0x2D ≤ c ∧ c ≤ 0x5F := by decide +kernel

theorem literal_ne_nil : ∀ t ∈ literals, t ≠ [] := by decide

section Literals

variable {k t : Bytes} (h : SameLetters k t) (ht : t ∈ literals)

include h ht

theorem isLine_of_literal : IsLine k := by
  refine h.all isLineByte_lowercaseByte fun c hc => ?_
  have hlow := (literal_bytes t ht c hc).1
  have hcr : c ≠ cr := by rintro rfl; exact absurd hlow (by decide)
  have hlf : c ≠ lf := by rintro rfl; exact absurd hlow (by decide)
  simp [isLineByte, hcr, hlf]

theorem no_blank_of_literal : ∀ c ∈ k, isSpace c = false := by
  have hblank : ∀ c ∈ t, (!isSpace c) = true := by
    intro c hc
    have hlow := (literal_bytes t ht c hc).1
    have hspace : c ≠ 0x20 := by rintro rfl; exact absurd hlow (by decide)
    have htab : c ≠ 0x09 := by rintro rfl; exact absurd hlow (by decide)
    simp [isSpace, hspace, htab]
  simpa using h.all (p := fun c => !isSpace c) (by simp [isSpace_lowercaseByte]) hblank

theorem ne_nil_of_literal : k ≠ [] := h.ne_nil (literal_ne_nil t ht)

end Literals

theorem withinLine_literal {t : Bytes} (ht : t ∈ literals) : WithinLine (tagNoCase t) := by
  refine withinLine_tagNoCase fun d hd hcr => ?_
  have hline := isLineByte_lowercaseByte d
  rw [hcr, isLine_of_literal rfl ht d hd] at hline
  cases hline

theorem bareKeyword_literal {t : Bytes} {c : Capability} (ht : (t, c) ∈ bareKeywords) :
    t ∈ literals := by
  simp only [literals, keywords, List.mem_append, List.mem_map]
  exact .inl (.inl (.inl ⟨_, ht, rfl⟩))

/-! ## The known lines -/

theorem readsLine_keyword {word : String} {capa : Capability}
    (hword : (ascii word, capa) ∈ bareKeywords) : ReadsLine (keyword word capa) KnownLine := by
  intro x z c h
  simp only [keyword, terminated, value, map, bind_apply, IResult.bind_eq_ok, tagNoCase_eq_ok,
    eol_eq_ok, pure_apply, IResult.ok.injEq] at h
  obtain ⟨_, _, ⟨_, k, ⟨rfl, hk⟩, rfl, rfl⟩, _, -, ⟨b, e, rfl, hb, he⟩, rfl, rfl⟩ := h
  exact ⟨k ++ b, e, by simp, he, .bare hword hk hb⟩

theorem keyword_accepts {word : String} (capa : Capability) {k b e : Bytes}
    (hk : SameLetters k (ascii word)) (hb : Blank b) (he : LineEnd e) (z : Bytes) :
    keyword word capa (k ++ (b ++ (e ++ z))) = .ok z capa := by
  have heol : eol (b ++ (e ++ z)) = .ok z () := eol_eq_ok.mpr ⟨b, e, rfl, hb, he⟩
  simp only [keyword, terminated, value, map, bind_apply, tagNoCase_eq_ok.mpr ⟨rfl, hk⟩,
    IResult.bind_ok, pure_apply, heol]

theorem saslMechanism_eq_ok {x z m : Bytes} :
    saslMechanism x = .ok z m ↔ x = m ++ z ∧ Mechanism m :=
  have hne : ∀ t ∈ mechanismNames, t ≠ [] := by decide
  have hheads : mechanismNames.Pairwise fun t t' =>
      t.head?.map lowercaseByte ≠ t'.head?.map lowercaseByte := by decide
  alt_tagNoCase_eq_ok hne hheads

theorem saslMechanism_lineEnd {e : Bytes} (he : LineEnd e) (z : Bytes) :
    ∃ err, saslMechanism (e ++ z) = .error err := by
  rcases he with rfl | rfl <;> exact ⟨_, rfl⟩

theorem space1_lineEnd {e : Bytes} (he : LineEnd e) (z : Bytes) :
    ∃ err, space1 (e ++ z) = .error err := by
  rcases he with rfl | rfl <;> exact ⟨_, rfl⟩

/-- The mechanisms behind the first one. -/
theorem separated_mechanisms {x z : Bytes} {ms : List Bytes}
    (h : Separated space1 saslMechanism x ms z) : ∃ more : List (Bytes × Bytes),
      x = more.flatMap (fun i => i.1 ++ i.2) ++ z ∧ ms = more.map Prod.snd ∧
        ∀ i ∈ more, Run isSpace i.1 ∧ Mechanism i.2 := by
  induction h with
  | nil => exact ⟨[], rfl, rfl, by simp⟩
  | cons hsep _ hparse _ ih =>
    obtain ⟨rfl, hb, -⟩ := takeWhile1_eq_ok.mp hsep
    obtain ⟨rfl, hm⟩ := saslMechanism_eq_ok.mp hparse
    obtain ⟨more, rfl, rfl, hmore⟩ := ih
    exact ⟨(_, _) :: more, by simp, rfl, List.forall_mem_cons.mpr ⟨⟨hb, hm⟩, hmore⟩⟩

theorem Mechanism.literal {m : Bytes} (h : Mechanism m) : ∃ t ∈ literals, SameLetters m t := by
  obtain ⟨name, hname, hletters⟩ := h
  exact ⟨name, List.mem_append_left _ (List.mem_append_right _ hname), hletters⟩

theorem Mechanism.no_blank {m : Bytes} (h : Mechanism m) : ∀ c ∈ m, isSpace c = false :=
  have ⟨_, ht, hletters⟩ := h.literal
  no_blank_of_literal hletters ht

theorem Mechanism.ne_nil {m : Bytes} (h : Mechanism m) : m ≠ [] :=
  have ⟨_, ht, hletters⟩ := h.literal
  ne_nil_of_literal hletters ht

theorem Mechanism.isLine {m : Bytes} (h : Mechanism m) : IsLine m :=
  have ⟨_, ht, hletters⟩ := h.literal
  isLine_of_literal hletters ht

theorem Mechanism.ended {m : Bytes} (h : Mechanism m) (x : Bytes) : Ended isSpace (m ++ x) := by
  obtain ⟨c, m, rfl⟩ := List.exists_cons_of_ne_nil h.ne_nil
  exact ⟨c, m ++ x, rfl, h.no_blank c (by simp)⟩

theorem separated_of_mechanisms {more : List (Bytes × Bytes)}
    (hmore : ∀ i ∈ more, Run isSpace i.1 ∧ Mechanism i.2) {b e : Bytes} (hb : Blank b)
    (he : LineEnd e) (z : Bytes) : Separated space1 saslMechanism
      (more.flatMap (fun i => i.1 ++ i.2) ++ (b ++ (e ++ z))) (more.map Prod.snd) (b ++ (e ++ z)) := by
  induction more with
  | nil =>
    refine .nil ?_
    obtain ⟨err, herr⟩ := saslMechanism_lineEnd he z
    cases b with
    | nil => exact .inl (space1_lineEnd he z)
    | cons c b =>
      have hspace : space1 ((c :: b) ++ (e ++ z)) = .ok (e ++ z) (c :: b) :=
        takeWhile1_eq_ok.mpr ⟨rfl, ⟨List.cons_ne_nil _ _, hb⟩, he.ended rfl rfl z⟩
      have hlt : (e ++ z).length < ((c :: b) ++ (e ++ z)).length := by
        simp only [List.length_append, List.length_cons]
        omega
      exact .inr ⟨e ++ z, c :: b, err, hspace, hlt, herr⟩
  | cons i more ih =>
    obtain ⟨⟨hblank, hm⟩, hmore⟩ := List.forall_mem_cons.mp hmore
    have hpos := List.length_pos_iff.mpr hblank.ne_nil
    simp only [List.flatMap_cons, List.append_assoc, List.map_cons]
    refine .cons (takeWhile1_eq_ok.mpr ⟨rfl, hblank, hm.ended _⟩) ?_
      (saslMechanism_eq_ok.mpr ⟨rfl, hm⟩) (ih hmore)
    simp only [List.length_append]
    omega

theorem readsLine_sasl : ReadsLine sasl KnownLine := by
  intro x z c h
  simp only [sasl, bind_apply, IResult.bind_eq_ok, tagNoCase_eq_ok, space0, takeWhile_eq_ok,
    separatedList0_eq_ok Stable.space1 saslMechanism_stable, eol_eq_ok, pure_apply,
    IResult.ok.injEq] at h
  obtain ⟨_, k, ⟨rfl, hk⟩, y, b, ⟨rfl, hb, hended⟩, _, ms, hms, _, -, ⟨b', e, rfl, hb', he⟩,
    rfl, rfl⟩ := h
  rcases hms with ⟨-, rfl, rfl⟩ | ⟨_, m, ms, hm, hrest, rfl⟩
  · -- the blanks belong to the ones behind the keyword
    refine ⟨k ++ (b ++ b'), e, by simp, he, .bare (t := ascii "SASL") (by decide) hk ?_⟩
    exact fun d hd => (List.mem_append.mp hd).elim (hb d) (hb' d)
  · obtain ⟨rfl, hmechanism⟩ := saslMechanism_eq_ok.mp hm
    obtain ⟨more, rfl, rfl, hmore⟩ := separated_mechanisms hrest
    exact ⟨_, e, by simp, he, .sasl hk hb hmechanism hmore hb'⟩

theorem sasl_bare {k b e : Bytes} (hk : SameLetters k (ascii "SASL")) (hb : Blank b)
    (he : LineEnd e) (z : Bytes) : sasl (k ++ (b ++ (e ++ z))) = .ok z (.sasl []) := by
  have hspace : space0 (b ++ (e ++ z)) = .ok (e ++ z) b :=
    takeWhile_eq_ok.mpr ⟨rfl, hb, he.ended rfl rfl z⟩
  have hnone : separatedList0 space1 saslMechanism (e ++ z) = .ok (e ++ z) [] :=
    (separatedList0_eq_ok Stable.space1 saslMechanism_stable).mpr
      (.inl ⟨saslMechanism_lineEnd he z, rfl, rfl⟩)
  have heol : eol (e ++ z) = .ok z () := eol_eq_ok.mpr ⟨[], e, rfl, by simp [Blank], he⟩
  simp only [sasl, bind_apply, tagNoCase_eq_ok.mpr ⟨rfl, hk⟩, hspace, hnone, heol,
    IResult.bind_ok, pure_apply]

theorem sasl_accepts {k b m b' e : Bytes} {more : List (Bytes × Bytes)}
    (hk : SameLetters k (ascii "SASL")) (hb : Blank b) (hm : Mechanism m)
    (hmore : ∀ i ∈ more, Run isSpace i.1 ∧ Mechanism i.2) (hb' : Blank b') (he : LineEnd e)
    (z : Bytes) :
    sasl (k ++ (b ++ (m ++ (more.flatMap (fun i => i.1 ++ i.2) ++ (b' ++ (e ++ z)))))) =
      .ok z (.sasl (m :: more.map Prod.snd)) := by
  simp only [sasl, bind_apply, IResult.bind_eq_ok, tagNoCase_eq_ok, space0, takeWhile_eq_ok,
    separatedList0_eq_ok Stable.space1 saslMechanism_stable, eol_eq_ok, pure_apply,
    IResult.ok.injEq]
  exact ⟨_, k, ⟨rfl, hk⟩, _, b, ⟨rfl, hb, hm.ended _⟩, _, _, .inr ⟨_, m, _,
    saslMechanism_eq_ok.mpr ⟨rfl, hm⟩, separated_of_mechanisms hmore hb' he z, rfl⟩, z, (),
    ⟨b', e, rfl, hb', he⟩, rfl, rfl⟩

theorem readsLine_loginDelay : ReadsLine loginDelay KnownLine := by
  intro x z c h
  simp only [loginDelay, bind_apply, IResult.bind_eq_ok, tagNoCase_eq_ok, space1, digit1,
    takeWhile1_eq_ok, eol_eq_ok, pure_apply, IResult.ok.injEq] at h
  obtain ⟨_, k, ⟨rfl, hk⟩, _, b, ⟨rfl, hb, -⟩, _, d, ⟨rfl, hd, -⟩, _, -, ⟨b', e, rfl, hb', he⟩,
    rfl, rfl⟩ := h
  exact ⟨_, e, by simp, he, .loginDelay hk hb hd hb'⟩

theorem loginDelay_accepts {k b d b' e : Bytes} (hk : SameLetters k (ascii "LOGIN-DELAY"))
    (hb : Run isSpace b) (hd : Run isDigit d) (hb' : Blank b') (he : LineEnd e) (z : Bytes) :
    loginDelay (k ++ (b ++ (d ++ (b' ++ (e ++ z))))) = .ok z (.loginDelay ⟨⟨d⟩, 1⟩) := by
  simp only [loginDelay, bind_apply, IResult.bind_eq_ok, tagNoCase_eq_ok, space1, digit1,
    takeWhile1_eq_ok, eol_eq_ok, pure_apply, IResult.ok.injEq]
  exact ⟨_, k, ⟨rfl, hk⟩, _, b, ⟨rfl, hb, hd.ended isSpace_of_isDigit _⟩, _, d,
    ⟨rfl, hd, hb'.ended isDigit_of_isSpace rfl rfl he z⟩, z, (), ⟨b', e, rfl, hb', he⟩, rfl, rfl⟩

theorem readsLine_expire : ReadsLine expire KnownLine := by
  intro x z c h
  simp only [expire, preceded, map, value, bind_apply, IResult.bind_eq_ok, tagNoCase_eq_ok, space1,
    digit1, takeWhile1_eq_ok, opt_eq_ok, alt_eq_ok, alt_singleton, eol_eq_ok, pure_apply,
    IResult.ok.injEq] at h
  obtain ⟨_, k, ⟨rfl, hk⟩, _, time, htime, _, -, ⟨b', e, rfl, hb', he⟩, rfl, rfl⟩ := h
  rcases htime with ⟨_, ⟨_, b, ⟨rfl, hb, -⟩, htime⟩, rfl⟩ | ⟨-, rfl, rfl⟩
  · rcases htime with ⟨_, d, ⟨rfl, hd, -⟩, rfl, rfl⟩ | ⟨-, _, n, ⟨rfl, hn⟩, rfl, rfl⟩
    · exact ⟨_, e, by simp, he, .expire hk hb hd hb'⟩
    · exact ⟨_, e, by simp, he, .never hk hb hn hb'⟩
  · exact ⟨_, e, by simp, he, .bare (t := ascii "EXPIRE") (by decide) hk hb'⟩

/-- The parser of what follows `EXPIRE`. -/
def expiration : Parser Expiration :=
  preceded space1 (alt [
    map digit1 fun time => Expiration.time ⟨⟨time⟩, 24 * 60 * 60⟩,
    value Expiration.never (tagNoCase (ascii "NEVER"))])

/-- Blanks to the end of the line do not have an expiration behind them. -/
theorem expiration_blank {b e : Bytes} (hb : Blank b) (he : LineEnd e) (z : Bytes) :
    ∃ err, expiration (b ++ (e ++ z)) = .error err := by
  cases b with
  | nil =>
    obtain ⟨err, herr⟩ := space1_lineEnd he z
    exact ⟨err, by simp [expiration, preceded, herr]⟩
  | cons c b =>
    have hspace : space1 ((c :: b) ++ (e ++ z)) = .ok (e ++ z) (c :: b) :=
      takeWhile1_eq_ok.mpr ⟨rfl, ⟨List.cons_ne_nil _ _, hb⟩, he.ended rfl rfl z⟩
    simp only [expiration, preceded, bind_apply, hspace, IResult.bind_ok]
    rcases he with rfl | rfl <;> exact ⟨_, rfl⟩

theorem expiration_time {b d y : Bytes} (hb : Run isSpace b) (hd : Run isDigit d)
    (hended : Ended isDigit y) :
    expiration (b ++ (d ++ y)) = .ok y (.time ⟨⟨d⟩, 24 * 60 * 60⟩) := by
  have hspace : space1 (b ++ (d ++ y)) = .ok (d ++ y) b :=
    takeWhile1_eq_ok.mpr ⟨rfl, hb, hd.ended isSpace_of_isDigit _⟩
  have hnumber : digit1 (d ++ y) = .ok y d := takeWhile1_eq_ok.mpr ⟨rfl, hd, hended⟩
  simp only [expiration, preceded, bind_apply, hspace, IResult.bind_ok]
  exact alt_eq_ok.mpr (.inl (by simp only [map, bind_apply, hnumber, IResult.bind_ok, pure_apply]))

theorem expiration_never {b n : Bytes} (hb : Run isSpace b) (hn : SameLetters n (ascii "NEVER"))
    (y : Bytes) : expiration (b ++ (n ++ y)) = .ok y .never := by
  have hnever : ascii "NEVER" ∈ literals := List.mem_append_right _ (List.mem_singleton.mpr rfl)
  obtain ⟨c, n, rfl⟩ := List.exists_cons_of_ne_nil (ne_nil_of_literal hn hnever)
  have hspace := no_blank_of_literal hn hnever
  have hdigit := hn.all (p := fun c => !isDigit c) (by simp [isDigit_lowercaseByte])
    (by decide +kernel)
  have hended {p : UInt8 → Bool} (hp : p c = false) : Ended p ((c :: n) ++ y) := ⟨c, n ++ y, rfl, hp⟩
  have hspaces : space1 (b ++ ((c :: n) ++ y)) = .ok ((c :: n) ++ y) b :=
    takeWhile1_eq_ok.mpr ⟨rfl, hb, hended (hspace c (by simp))⟩
  have hnumber : digit1 ((c :: n) ++ y) = .error ⟨(c :: n) ++ y, .digit⟩ :=
    takeWhile1_run (a := []) (by simp) (hended (by simpa using hdigit c (by simp))) _
  simp only [expiration, preceded, bind_apply, hspaces, IResult.bind_ok, alt_eq_ok, alt_singleton, map,
    value, hnumber, IResult.bind_error, tagNoCase_eq_ok.mpr ⟨rfl, hn⟩, pure_apply]
  exact .inr ⟨⟨_, rfl⟩, trivial⟩

/-- What follows the keyword decides what is announced. -/
theorem expire_accepts {k x b e z : Bytes} {time : Option Expiration}
    (hk : SameLetters k (ascii "EXPIRE")) (htime : opt expiration x = .ok (b ++ (e ++ z)) time)
    (hb : Blank b) (he : LineEnd e) : expire (k ++ x) = .ok z (.expire (time.getD .never)) := by
  have heol : eol (b ++ (e ++ z)) = .ok z () := eol_eq_ok.mpr ⟨b, e, rfl, hb, he⟩
  rw [expiration] at htime
  simp only [expire, bind_apply, tagNoCase_eq_ok.mpr ⟨rfl, hk⟩, htime, heol, IResult.bind_ok,
    pure_apply]

theorem readsLine_implementation : ReadsLine implementation KnownLine := by
  intro x z c h
  simp only [implementation, bind_apply, IResult.bind_eq_ok, tagNoCase_eq_ok, messageParser_eq_ok,
    pure_apply, IResult.ok.injEq] at h
  obtain ⟨_, k, ⟨rfl, hk⟩, _, _, ⟨text, e, rfl, htext, he, rfl⟩, rfl, rfl⟩ := h
  exact ⟨_, e, by simp, he, .implementation hk htext⟩

theorem implementation_accepts {k text e : Bytes} (hk : SameLetters k (ascii "IMPLEMENTATION"))
    (htext : IsLine text) (he : LineEnd e) (z : Bytes) :
    implementation (k ++ (text ++ (e ++ z))) = .ok z (.implementation ⟨text⟩) := by
  simp only [implementation, bind_apply, IResult.bind_eq_ok, tagNoCase_eq_ok,
    messageParser_eq_ok, pure_apply, IResult.ok.injEq]
  exact ⟨_, k, ⟨rfl, hk⟩, z, some text, ⟨text, e, rfl, htext, he, rfl⟩, rfl, rfl⟩

theorem readsLine_unknownCapability : ReadsLine unknownCapability OtherLine := by
  intro x z c h
  simp only [unknownCapability, terminated, map, bind_apply, IResult.bind_eq_ok, oneOf,
    many1_satisfyByte_eq_ok, eol_eq_ok, pure_apply, IResult.ok.injEq] at h
  obtain ⟨_, _, ⟨_, w, ⟨rfl, hw, -⟩, rfl, rfl⟩, _, -, ⟨b, e, rfl, hb, he⟩, rfl, rfl⟩ := h
  exact ⟨_, e, by simp, he, .intro hw hb⟩

/-- The alternatives for the known lines. -/
def knownCapabilities : List (Parser Capability) :=
  [keyword "TOP" .top, keyword "USER" .user, keyword "RESP-CODES" .respCodes, sasl, loginDelay,
    keyword "PIPELINING" .pipelining, expire, keyword "UIDL" .uidl, implementation,
    keyword "STLS" .stls]

theorem capability_eq : capability = alt (knownCapabilities ++ [unknownCapability]) := rfl

theorem readsLine_known : ∀ p ∈ knownCapabilities, ReadsLine p KnownLine := by
  have hbare : ∀ entry ∈ [("TOP", Capability.top), ("USER", .user), ("RESP-CODES", .respCodes),
      ("PIPELINING", .pipelining), ("UIDL", .uidl), ("STLS", .stls)],
      (ascii entry.1, entry.2) ∈ bareKeywords := by decide
  simp only [List.forall_mem_cons] at hbare
  obtain ⟨htop, huser, hcodes, hpipelining, huidl, hstls, -⟩ := hbare
  simp only [knownCapabilities, List.forall_mem_cons, List.not_mem_nil, false_imp_iff,
    implies_true, and_true]
  exact ⟨readsLine_keyword htop, readsLine_keyword huser, readsLine_keyword hcodes, readsLine_sasl,
    readsLine_loginDelay, readsLine_keyword hpipelining, readsLine_expire, readsLine_keyword huidl,
    readsLine_implementation, readsLine_keyword hstls⟩

theorem KnownLine.accepted {l e : Bytes} {c : Capability} (h : KnownLine l c) (he : LineEnd e)
    (z : Bytes) : ∃ p ∈ knownCapabilities, p (l ++ (e ++ z)) = .ok z c := by
  have hsasl : Parser.sasl ∈ knownCapabilities := by simp [knownCapabilities]
  have hexpire : Parser.expire ∈ knownCapabilities := by simp [knownCapabilities]
  cases h with
  | @bare k b t c ht hk hb =>
    rw [List.append_assoc]
    have hkeyword (word : String) (capa : Capability) (hk : SameLetters k (ascii word))
        (hmem : keyword word capa ∈ knownCapabilities) :
        ∃ p ∈ knownCapabilities, p (k ++ (b ++ (e ++ z))) = .ok z capa :=
      ⟨keyword word capa, hmem, keyword_accepts _ hk hb he z⟩
    simp only [bareKeywords, List.mem_cons, Prod.mk.injEq, List.not_mem_nil, or_false] at ht
    rcases ht with ⟨rfl, rfl⟩ | ⟨rfl, rfl⟩ | ⟨rfl, rfl⟩ | ⟨rfl, rfl⟩ | ⟨rfl, rfl⟩ | ⟨rfl, rfl⟩ |
      ⟨rfl, rfl⟩ | ⟨rfl, rfl⟩
    · exact hkeyword "TOP" .top hk (by simp [knownCapabilities])
    · exact hkeyword "USER" .user hk (by simp [knownCapabilities])
    · exact hkeyword "RESP-CODES" .respCodes hk (by simp [knownCapabilities])
    · exact ⟨Parser.sasl, hsasl, sasl_bare hk hb he z⟩
    · exact hkeyword "PIPELINING" .pipelining hk (by simp [knownCapabilities])
    · have hnone := opt_eq_ok.mpr (.inr ⟨expiration_blank hb he z, rfl, rfl⟩)
      exact ⟨Parser.expire, hexpire, expire_accepts hk hnone hb he⟩
    · exact hkeyword "UIDL" .uidl hk (by simp [knownCapabilities])
    · exact hkeyword "STLS" .stls hk (by simp [knownCapabilities])
  | sasl hk hb hm hmore hb' =>
    simp only [List.append_assoc]
    exact ⟨Parser.sasl, hsasl, sasl_accepts hk hb hm hmore hb' he z⟩
  | loginDelay hk hb hd hb' =>
    simp only [List.append_assoc]
    exact ⟨Parser.loginDelay, by simp [knownCapabilities], loginDelay_accepts hk hb hd hb' he z⟩
  | @expire k b d b' hk hb hd hb' =>
    simp only [List.append_assoc]
    have htime := expiration_time hb hd (hb'.ended isDigit_of_isSpace rfl rfl he z)
    exact ⟨Parser.expire, hexpire,
      expire_accepts hk (opt_eq_ok.mpr (.inl ⟨_, htime, rfl⟩)) hb' he⟩
  | @never k b n b' hk hb hn hb' =>
    simp only [List.append_assoc]
    have htime := expiration_never hb hn (b' ++ (e ++ z))
    exact ⟨Parser.expire, hexpire,
      expire_accepts hk (opt_eq_ok.mpr (.inl ⟨_, htime, rfl⟩)) hb' he⟩
  | implementation hk htext =>
    simp only [List.append_assoc]
    exact ⟨Parser.implementation, by simp [knownCapabilities], implementation_accepts hk htext he z⟩

theorem isOtherByte_of_isSpace (c : UInt8) (hc : isSpace c = true) : isOtherByte c = false := by
  rcases (by simpa [isSpace] using hc : c = 0x20 ∨ c = 0x09) with rfl | rfl <;> decide

theorem OtherLine.accepted {l e : Bytes} {c : Capability} (h : OtherLine l c) (he : LineEnd e)
    (z : Bytes) : unknownCapability (l ++ (e ++ z)) = .ok z c := by
  obtain ⟨hw, hb⟩ := h
  have hended := hb.ended isOtherByte_of_isSpace (by decide) (by decide) he z
  simp only [unknownCapability, terminated, map, bind_apply, IResult.bind_eq_ok, oneOf,
    many1_satisfyByte_eq_ok, eol_eq_ok, pure_apply, IResult.ok.injEq, List.append_assoc]
  exact ⟨_, _, ⟨_, _, ⟨rfl, hw, hended⟩, rfl, rfl⟩, z, (), ⟨_, e, rfl, hb, he⟩, rfl, rfl⟩

/-! ## A line of a listing -/

theorem readsLine_capability : ReadsLine capability CapabilityLine := by
  intro x z c h
  rw [capability_eq] at h
  rcases alt_concat_ok h with ⟨p, hp, h⟩ | ⟨herrors, h⟩
  · obtain ⟨l, e, hx, he, hl⟩ := readsLine_known p hp h
    exact ⟨l, e, hx, he, .inl hl⟩
  · obtain ⟨l, e, rfl, he, hl⟩ := readsLine_unknownCapability h
    refine ⟨l, e, rfl, he, .inr ⟨?_, hl⟩⟩
    rintro ⟨c', hknown⟩
    obtain ⟨p, hp, hok⟩ := hknown.accepted he z
    obtain ⟨err, herr⟩ := herrors p hp
    cases hok.symm.trans herr

theorem KnownLine.isLine {l : Bytes} {c : Capability} (h : KnownLine l c) : IsLine l := by
  have hdigit : isDigit cr = false ∧ isDigit lf = false := by decide
  cases h with
  | bare ht hk hb =>
    exact IsLine.append.mpr ⟨isLine_of_literal hk (bareKeyword_literal ht), hb.isLine⟩
  | @sasl k b m b' more hk hb hm hmore hb' =>
    have hitems : IsLine (more.flatMap fun i => i.1 ++ i.2) := by
      intro c hc
      obtain ⟨i, hi, hc⟩ := List.mem_flatMap.mp hc
      exact IsLine.append.mpr ⟨Blank.isLine (hmore i hi).1.all, (hmore i hi).2.isLine⟩ c hc
    exact IsLine.append.mpr ⟨isLine_of_literal hk (by decide), IsLine.append.mpr
      ⟨hb.isLine, IsLine.append.mpr ⟨hm.isLine, IsLine.append.mpr ⟨hitems, hb'.isLine⟩⟩⟩⟩
  | loginDelay hk hb hd hb' =>
    exact IsLine.append.mpr ⟨isLine_of_literal hk (by decide), IsLine.append.mpr
      ⟨Blank.isLine hb.all, IsLine.append.mpr ⟨isLine_of_run hdigit hd.all, hb'.isLine⟩⟩⟩
  | expire hk hb hd hb' =>
    exact IsLine.append.mpr ⟨isLine_of_literal hk (by decide), IsLine.append.mpr
      ⟨Blank.isLine hb.all, IsLine.append.mpr ⟨isLine_of_run hdigit hd.all, hb'.isLine⟩⟩⟩
  | never hk hb hn hb' =>
    exact IsLine.append.mpr ⟨isLine_of_literal hk (by decide), IsLine.append.mpr
      ⟨Blank.isLine hb.all, IsLine.append.mpr ⟨isLine_of_literal hn (by decide), hb'.isLine⟩⟩⟩
  | implementation hk htext =>
    exact IsLine.append.mpr ⟨isLine_of_literal hk (by decide), htext⟩

theorem KnownLine.keyword {l : Bytes} {c : Capability} (h : KnownLine l c) :
    ∃ t ∈ keywords, ∃ k y, l = k ++ y ∧ SameLetters k t := by
  cases h with
  | bare ht hk hb => exact ⟨_, by simpa [keywords] using .inl ⟨_, ht⟩, _, _, rfl, hk⟩
  | sasl hk => exact ⟨_, by decide, _, _, rfl, hk⟩
  | loginDelay hk => exact ⟨_, by decide, _, _, rfl, hk⟩
  | expire hk => exact ⟨_, by decide, _, _, rfl, hk⟩
  | never hk => exact ⟨_, by decide, _, _, rfl, hk⟩
  | implementation hk => exact ⟨_, by decide, _, _, rfl, hk⟩

theorem CapabilityLine.isTextLine {l e : Bytes} {c : Capability} (h : CapabilityLine l c)
    (he : LineEnd e) : IsTextLine (l, e) := by
  refine ⟨?_, ?_, he⟩
  · rcases h with h | ⟨-, ⟨hw, hb⟩⟩
    · exact h.isLine
    · exact IsLine.append.mpr ⟨isLine_of_run (by decide) hw.all, hb.isLine⟩
  · rintro rfl
    rcases h with h | ⟨-, h⟩
    · obtain ⟨t, ht, k, y, hdot, hk⟩ := h.keyword
      have hlength : ∀ t ∈ keywords, 1 < t.length := by decide
      have hshort : (ascii ".").length = k.length + y.length := by rw [hdot, List.length_append]
      have hone : (ascii ".").length = 1 := rfl
      have := hlength t ht
      have := hk.length_eq
      omega
    · generalize hdot : ascii "." = l at h
      obtain ⟨hw, hb⟩ := h
      obtain ⟨c, w, hcons, hc⟩ := hw.head _
      rw [← hdot] at hcons
      obtain ⟨rfl, -⟩ := List.cons.inj (hcons : (0x2e : UInt8) :: [] = _)
      exact absurd hc (by decide)

theorem finishesLine_keyword {word : String} (hword : ascii word ∈ literals) (capa : Capability) :
    FinishesLine (keyword word capa) :=
  ((withinLine_literal hword).bind fun _ => withinLine_pure _).finishes fun _ => finishesLine_eol.map _

theorem finishesLine_capability : FinishesLine capability := by
  have hspace : WithinLine space1 := withinLine_takeWhile1 rfl _
  have hdigit : WithinLine digit1 := withinLine_takeWhile1 rfl _
  have htags : ∀ p ∈ mechanismNames.map tagNoCase, WithinLine p :=
    List.forall_mem_map.mpr fun t ht =>
      withinLine_literal (List.mem_append_left _ (List.mem_append_right _ ht))
  have hmechanism : WithinLine saslMechanism := withinLine_alt htags
  have hsasl : FinishesLine sasl :=
    (withinLine_literal (by decide)).finishes fun _ => (withinLine_takeWhile rfl).finishes fun _ =>
      (hspace.separatedList0 hmechanism).finishes fun _ => finishesLine_eol.map _
  have hloginDelay : FinishesLine loginDelay :=
    (withinLine_literal (by decide)).finishes fun _ => hspace.finishes fun _ =>
      hdigit.finishes fun _ => finishesLine_eol.map _
  have hexpire : FinishesLine expire := by
    refine (withinLine_literal (by decide)).finishes fun _ =>
      (WithinLine.opt (hspace.bind fun _ => withinLine_alt ?_)).finishes fun _ => finishesLine_eol.map _
    simp only [List.forall_mem_cons]
    exact ⟨hdigit.bind fun _ => withinLine_pure _,
      (withinLine_literal (by decide)).bind fun _ => withinLine_pure _, by simp⟩
  have himplementation : FinishesLine implementation :=
    (withinLine_literal (by decide)).finishes fun _ => finishesLine_messageParser.map _
  have hunknown : FinishesLine unknownCapability :=
    ((withinLine_many1 (by decide) _).bind fun _ => withinLine_pure _).finishes fun _ =>
      finishesLine_eol.map _
  refine finishesLine_alt ?_
  simp only [List.forall_mem_cons, List.not_mem_nil, false_imp_iff, implies_true, and_true]
  exact ⟨finishesLine_keyword (by decide) _, finishesLine_keyword (by decide) _,
    finishesLine_keyword (by decide) _, hsasl, hloginDelay, finishesLine_keyword (by decide) _,
    hexpire, finishesLine_keyword (by decide) _, himplementation, finishesLine_keyword (by decide) _,
    hunknown⟩

/-- A line is accepted exactly when it is a line of the grammar. -/
theorem capability_line {l : Bytes} (hl : IsLine l) (z : Bytes) :
    (∃ c, CapabilityLine l c ∧ capability (l ++ (crlf ++ z)) = .ok z c) ∨
      (¬ ∃ c, CapabilityLine l c) ∧ ∃ e, capability (l ++ (crlf ++ z)) = .error e := by
  rcases finishesLine_capability hl z with ⟨err, herr⟩ | ⟨c, hok⟩
  · refine .inr ⟨?_, err, herr⟩
    rw [capability_eq] at herr
    rintro ⟨c, h | ⟨-, h⟩⟩
    · obtain ⟨p, hp, hok⟩ := h.accepted (.inr rfl) z
      obtain ⟨e, he⟩ := alt_error_mem herr p (by simp [hp])
      cases hok.symm.trans he
    · obtain ⟨e, he⟩ := alt_error_mem herr unknownCapability (by simp)
      cases (h.accepted (.inr rfl) z).symm.trans he
  · obtain ⟨l', e, hx, he, hc⟩ := readsLine_capability hok
    obtain ⟨rfl, -, -⟩ := isLine_unique hl (hc.isTextLine he).1 (.inr rfl) he hx
    exact .inl ⟨c, hc, hok⟩

/-! ## A listing -/

/-- What a listing has behind the blanks that follow its status: the rest of the status
line, the lines, and the terminator. -/
structure CapabilityListing where
  text : Bytes
  textEnd : Bytes
  lines : List (Bytes × Bytes)
  lastEnd : Bytes
  text_isLine : IsLine text
  textEnd_lineEnd : LineEnd textEnd
  lines_isTextLine : ∀ i ∈ lines, IsTextLine i
  lastEnd_lineEnd : LineEnd lastEnd

namespace CapabilityListing

def bytes (listing : CapabilityListing) : Bytes :=
  listing.text ++ (listing.textEnd ++
    (listing.lines.flatMap lineBytes ++ (ascii "." ++ listing.lastEnd)))

/-- An input starts with one listing at most. -/
theorem unique {listing listing' : CapabilityListing} {z z' : Bytes}
    (h : listing.bytes ++ z = listing'.bytes ++ z') : listing = listing' ∧ z = z' := by
  obtain ⟨text, textEnd, lines, lastEnd, htext, hend, hlines, hlast⟩ := listing
  obtain ⟨text', textEnd', lines', lastEnd', htext', hend', hlines', hlast'⟩ := listing'
  simp only [bytes, List.append_assoc] at h
  obtain ⟨rfl, rfl, hrest⟩ := isLine_unique htext htext' hend hend' h
  obtain ⟨rfl, rfl, hz⟩ := lines_unique hlines hlines' hlast hlast' hrest
  exact ⟨rfl, hz⟩

end CapabilityListing

/-- An accepted listing has a line of the grammar for each capability, in order. -/
theorem capabilityResponse_ok {x z : Bytes} {r : Response} (h : capabilityResponse x = .ok z r) :
    ∃ (listing : CapabilityListing) (cs : List Capability), x = listing.bytes ++ z ∧
      r = .capability cs ∧ List.Forall₂ CapabilityLine (listing.lines.map Prod.fst) cs := by
  simp only [capabilityResponse, bind_apply, IResult.bind_eq_ok, messageParser_eq_ok] at h
  obtain ⟨_, _, ⟨text, textEnd, rfl, htext, htextEnd, -⟩, _, ⟨cs, u⟩, hmany, hresponse⟩ := h
  cases hresponse
  obtain ⟨_, hchain, hlast⟩ := manyTill_ok hmany
  obtain ⟨lastEnd, rfl, hlastEnd⟩ := endOfMultiline_eq_ok.mp hlast
  have hline : ∀ ⦃x z c⦄, capability x = .ok z c →
      ∃ i, x = lineBytes i ++ z ∧ (IsTextLine i ∧ CapabilityLine i.1 c) := by
    intro x z c h
    obtain ⟨l, e, rfl, he, hc⟩ := readsLine_capability h
    exact ⟨(l, e), by simp [lineBytes], hc.isTextLine he, hc⟩
  obtain ⟨lines, rfl, hlines⟩ := hchain.parts hline
  obtain ⟨htextLines, hlines⟩ := (List.forall₂_and_left _ _).mp hlines
  exact ⟨⟨text, textEnd, lines, lastEnd, htext, htextEnd, htextLines, hlastEnd⟩, cs,
    by simp [CapabilityListing.bytes], rfl, List.forall₂_map_left_iff.mpr hlines⟩

/-! ## Listings of RFC 2449 -/

/-- The bytes of a tag. -/
def isTagByte (c : UInt8) : Bool := isValidChar c && c != 0x2e

/-- A capability line of RFC 2449: a tag and its parameters. -/
structure Announcement where
  tag : Bytes
  params : List Bytes
  tag_run : Run isTagByte tag
  params_run : ∀ param ∈ params, Run isValidChar param

namespace Announcement

def line (a : Announcement) : Bytes := a.tag ++ a.params.flatMap (0x20 :: ·)

theorem line_head (a : Announcement) : ∃ c l, a.line = c :: l ∧ c ≠ 0x2e := by
  obtain ⟨c, l, hcons, hc⟩ := a.tag_run.head (a.params.flatMap (0x20 :: ·))
  exact ⟨c, l, hcons, by simpa using (Bool.and_eq_true_iff.mp hc).2⟩

theorem isTextLine (a : Announcement) : IsTextLine (a.line, crlf) := by
  have hchar : isValidChar cr = false ∧ isValidChar lf = false := by decide
  refine ⟨IsLine.append.mpr ⟨isLine_of_run (by decide) a.tag_run.all, ?_⟩, ?_, .inr rfl⟩
  · intro c hc
    obtain ⟨param, hparam, hc⟩ := List.mem_flatMap.mp hc
    rcases List.mem_cons.mp hc with rfl | hc
    · decide
    · exact isLine_of_run hchar (a.params_run param hparam).all c hc
  · obtain ⟨c, l, hcons, hc⟩ := a.line_head
    rintro hdot
    exact hc (List.cons.inj (hcons.symm.trans hdot)).1

end Announcement

/-- The answer to CAPA. -/
def capabilityLines (announcements : List Announcement) : Bytes :=
  okTag ++ crlf ++ announcements.flatMap (fun a => a.line ++ crlf) ++ ascii "." ++ crlf

/-- What follows its status. -/
def announcedListing (announcements : List Announcement) : CapabilityListing where
  text := []
  textEnd := crlf
  lines := announcements.map fun a => (a.line, crlf)
  lastEnd := crlf
  text_isLine := by simp [IsLine]
  textEnd_lineEnd := .inr rfl
  lines_isTextLine := List.forall_mem_map.mpr fun a _ => a.isTextLine
  lastEnd_lineEnd := .inr rfl

theorem endOfMultiline_head {c : UInt8} (hc : c ≠ 0x2e) (x : Bytes) :
    ∃ e, endOfMultiline (c :: x) = .error e := by
  have htag : tag (ascii ".") (c :: x) = .error ⟨c :: x, .tag⟩ := by
    simp [tag, takeTag, Nom.compare, compareBy, ascii, hc]
  exact ⟨_, by simp [endOfMultiline, pair, htag]; rfl⟩

/-- Lines of the grammar are read, each as one capability. -/
theorem capabilityResponse_announced {announcements : List Announcement}
    (h : ∀ a ∈ announcements, ∃ c, CapabilityLine a.line c) (rest : Bytes) :
    ∃ cs, capabilityResponse ((announcedListing announcements).bytes ++ rest) =
      .ok rest (.capability cs) ∧ cs.length = announcements.length := by
  have hread : ∀ a ∈ announcements, ∃ c, ∀ z, capability ((a.line ++ crlf) ++ z) = .ok z c := by
    intro a ha
    rcases capability_line a.isTextLine.1 [] with ⟨c, -, hok⟩ | ⟨hnone, -⟩
    · exact ⟨c, fun z => by simpa using capability_stable.ok hok z⟩
    · exact absurd (h a ha) hnone
  have : Nonempty Capability := ⟨.top⟩
  choose! c hc using hread
  have hitems : Items capability endOfMultiline (announcements.map fun a => (a.line ++ crlf, c a)) := by
    refine ⟨List.forall_mem_map.mpr hc, List.forall_mem_map.mpr fun a _ z => ?_,
      List.forall_mem_map.mpr fun a _ => by simp [crlf]⟩
    obtain ⟨d, l, hcons, hd⟩ := a.line_head
    simpa [hcons] using endOfMultiline_head hd _
  have hend : endOfMultiline (ascii "." ++ (crlf ++ rest)) = .ok rest () :=
    endOfMultiline_eq_ok.mpr ⟨crlf, rfl, .inr rfl⟩
  have hmany := hitems.manyTill hend
  have hmessage := messageParser_eq_ok (z := (announcements.map fun a => (a.line ++ crlf, c a)).flatMap
    Prod.fst ++ (ascii "." ++ (crlf ++ rest))) |>.mpr ⟨[], crlf, rfl, by simp [IsLine], .inr rfl, rfl⟩
  refine ⟨announcements.map c, ?_, by simp⟩
  have hbytes : (announcedListing announcements).bytes ++ rest = [] ++ (crlf ++
      ((announcements.map fun a => (a.line ++ crlf, c a)).flatMap Prod.fst ++
        (ascii "." ++ (crlf ++ rest)))) := by
    simp [announcedListing, CapabilityListing.bytes, List.flatMap_map, lineBytes]
  rw [hbytes]
  simp only [capabilityResponse, bind_apply, hmessage, IResult.bind_ok, hmany, pure_apply]
  simp

variable [Host]

theorem parse_capabilityLines (announcements : List Announcement) (rest : Bytes) :
    parse (capabilityLines announcements ++ rest) .capa =
      capabilityResponse ((announcedListing announcements).bytes ++ rest) := by
  have hne : capabilityLines announcements ++ rest ≠ [] := by simp [capabilityLines, okTag, ascii]
  have hstatus := status_okTag (l := []) (announcements.flatMap (fun a => a.line ++ crlf) ++
    (ascii "." ++ (crlf ++ rest)))
  rw [parse_eq, if_neg hne]
  simp only [takesChallenge, Bool.false_eq_true, if_false, statusResponse, bind_apply]
  simp only [capabilityLines, announcedListing, CapabilityListing.bytes, lineBytes, List.append_assoc,
    List.flatMap_map, List.nil_append, List.dropWhile_nil] at hstatus ⊢
  rw [hstatus]
  rfl

/-- A listing is accepted, with one capability for each line, exactly when each of its
lines belongs to the grammar. -/
theorem capabilityLines_iff (announcements : List Announcement) (rest : Bytes) :
    ((∃ cs, parse (capabilityLines announcements ++ rest) .capa = .ok rest (.capability cs) ∧
        cs.length = announcements.length) ↔ ∀ a ∈ announcements, ∃ c, CapabilityLine a.line c) ∧
      ∀ cs, parse (capabilityLines announcements ++ rest) .capa = .ok rest (.capability cs) →
        List.Forall₂ CapabilityLine (announcements.map Announcement.line) cs := by
  have hforall : ∀ cs,
      parse (capabilityLines announcements ++ rest) .capa = .ok rest (.capability cs) →
        List.Forall₂ CapabilityLine (announcements.map Announcement.line) cs := by
    intro cs h
    rw [parse_capabilityLines] at h
    obtain ⟨listing, cs', hbytes, hcs, hlines⟩ := capabilityResponse_ok h
    obtain ⟨rfl, -⟩ := CapabilityListing.unique hbytes
    cases hcs
    simpa [announcedListing, Function.comp_def] using hlines
  refine ⟨⟨?_, fun h => ?_⟩, hforall⟩
  · rintro ⟨cs, h, -⟩ a ha
    have hlines := hforall cs h
    obtain ⟨i, hi, rfl⟩ := List.mem_iff_getElem.mp ha
    have hget := hlines.get (i := i) (by simpa using hi) (by rwa [← hlines.length_eq, List.length_map])
    exact ⟨_, by simpa using hget⟩
  · rw [parse_capabilityLines]
    exact capabilityResponse_announced h rest

omit [Host] in
/-- A mechanism that the parser does not know takes the whole listing with it. -/
theorem capabilityLines_digest :
    let announcements : List Announcement :=
      [⟨ascii "TOP", [], by decide, by simp⟩,
        ⟨ascii "SASL", [ascii "DIGEST-MD5"], by decide, by decide⟩]
    ¬ ∃ rest r, @parse (.bare false) (capabilityLines announcements) .capa = .ok rest r := by
  have hrejected : (@parse (.bare false)
      (ascii "+OK\r\nTOP\r\nSASL DIGEST-MD5\r\n.\r\n") .capa).rest? = none := by decide
  rintro announcements ⟨rest, r, h⟩
  cases hrejected.symm.trans (IResult.rest?_eq_some.mpr ⟨r, h⟩)

end Pop.Parser
