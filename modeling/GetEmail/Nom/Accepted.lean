-- SUMMARY: What an accepted input looks like, one equivalence for each combinator.
import Mathlib.Data.List.Forall2
import GetEmail.Nom.Runs

/-!
# Accepted inputs

Each combinator splits the inputs that it accepts into the part it reads and the
part it leaves. The equivalences work in both directions: they take an accepted
input apart, and they run a combinator on an input that is cut the right way.
-/

namespace Nom

variable {α β : Type} {x z a : Bytes}

/-! ## Literals -/

/-- The two differ in the case of ASCII letters only. -/
def SameLetters (a b : Bytes) : Prop := a.map lowercaseByte = b.map lowercaseByte

instance (a b : Bytes) : Decidable (SameLetters a b) := inferInstanceAs (Decidable (_ = _))

theorem SameLetters.eq {a b : Bytes} (h : SameLetters a b) :
    a.map lowercaseByte = b.map lowercaseByte := h

theorem SameLetters.symm {a b : Bytes} (h : SameLetters a b) : SameLetters b a := h.eq.symm

theorem SameLetters.trans {a b c : Bytes} (h : SameLetters a b) (h' : SameLetters b c) :
    SameLetters a c := h.eq.trans h'

theorem SameLetters.length_eq {a b : Bytes} (h : SameLetters a b) : a.length = b.length := by
  simpa using congrArg List.length h.eq

theorem SameLetters.take {a b : Bytes} (h : SameLetters a b) (n : Nat) :
    SameLetters (a.take n) (b.take n) := by
  rw [SameLetters, List.map_take, List.map_take, h.eq]

theorem SameLetters.append {a b a' b' : Bytes} (h : SameLetters a b) (h' : SameLetters a' b') :
    SameLetters (a ++ a') (b ++ b') := by
  rw [SameLetters, List.map_append, List.map_append, h.eq, h'.eq]

theorem SameLetters.ne_nil {a b : Bytes} (h : SameLetters a b) (hb : b ≠ []) : a ≠ [] := by
  rintro rfl
  exact hb (List.length_eq_zero_iff.mp h.length_eq.symm)

theorem lowercaseByte_lt {c : UInt8} : lowercaseByte c < 0x80 ↔ c < 0x80 := by
  unfold lowercaseByte
  split
  · next h =>
    simp only [UInt8.le_iff_toNat_le, UInt8.lt_iff_toNat_lt, UInt8.toNat_add] at h ⊢
    simp at h ⊢
    omega
  · rfl

/-- What is the same for all bytes from `A` to `z` does not depend on letter case. -/
theorem lowercaseByte_of_letters {p : UInt8 → Bool} {v : Bool}
    (hp : ∀ c : UInt8, 0x41 ≤ c → c ≤ 0x7A → p c = v) (c : UInt8) : p (lowercaseByte c) = p c := by
  unfold lowercaseByte
  split
  · next h =>
    have hc : c ≤ 0x7A := UInt8.le_trans h.2 (by decide)
    have hlower : 0x41 ≤ c + 0x20 ∧ c + 0x20 ≤ 0x7A := by
      simp only [UInt8.le_iff_toNat_le, UInt8.toNat_add] at h ⊢
      simp at h ⊢
      omega
    rw [hp c h.1 hc, hp _ hlower.1 hlower.2]
  · rfl

/-- What holds of the bytes of a literal, and does not depend on their letter case, holds
of the bytes that match it. -/
theorem SameLetters.all {p : UInt8 → Bool} (hp : ∀ c, p (lowercaseByte c) = p c) {t : Bytes}
    (h : SameLetters a t) (ht : ∀ c ∈ t, p c = true) : ∀ c ∈ a, p c = true := by
  have hmap : ∀ c ∈ a.map lowercaseByte, p c = true := by
    rw [h.eq]
    simpa [hp] using ht
  simpa [hp] using hmap

theorem compareBy_eq_ok {same : UInt8 → UInt8 → Bool} {t : Bytes} :
    compareBy same x t = .ok ↔ ∃ a z, x = a ++ z ∧ List.Forall₂ (fun c d => same c d = true) a t := by
  induction t generalizing x with
  | nil => simp [compareBy]
  | cons d t ih =>
    cases x with
    | nil => simp [compareBy]
    | cons c x =>
      simp only [compareBy]
      constructor
      · intro h
        split at h
        · next hsame =>
          obtain ⟨a, z, rfl, ha⟩ := ih.mp h
          exact ⟨c :: a, z, rfl, .cons hsame ha⟩
        · cases h
      · rintro ⟨_, z, hx, hall⟩
        obtain ⟨c', a, hsame, ha, rfl⟩ := List.forall₂_cons_right_iff.mp hall
        obtain ⟨rfl, rfl⟩ := List.cons.inj hx
        rw [if_pos hsame]
        exact ih.mpr ⟨a, z, rfl, ha⟩

theorem takeTag_eq_ok {same : UInt8 → UInt8 → Bool} {t : Bytes} :
    takeTag t (compareBy same x t) x = .ok z a ↔
      x = a ++ z ∧ List.Forall₂ (fun c d => same c d = true) a t := by
  constructor
  · intro h
    unfold takeTag at h
    split at h <;> cases h
    next hcompare =>
      obtain ⟨a, z, rfl, hall⟩ := compareBy_eq_ok.mp hcompare
      rw [← hall.length_eq]
      simpa using hall
  · rintro ⟨rfl, hall⟩
    simp [takeTag, compareBy_eq_ok.mpr ⟨a, z, rfl, hall⟩, ← hall.length_eq]

theorem tag_eq_ok {t : Bytes} : tag t x = .ok z a ↔ x = a ++ z ∧ a = t := by
  refine takeTag_eq_ok.trans (and_congr_right fun _ => ?_)
  simp [List.forall₂_eq_eq_eq]

theorem tagNoCase_eq_ok {t : Bytes} : tagNoCase t x = .ok z a ↔ x = a ++ z ∧ SameLetters a t := by
  refine takeTag_eq_ok.trans (and_congr_right fun _ => ?_)
  simp [SameLetters, ← List.forall₂_eq_eq_eq, List.forall₂_map_left_iff, List.forall₂_map_right_iff]

theorem satisfyByte_eq_ok {kind : ErrorKind} {p : UInt8 → Bool} {c : UInt8} :
    satisfyByte kind p x = .ok z c ↔ x = c :: z ∧ p c = true := by
  cases x with
  | nil => simp [satisfyByte]
  | cons d x =>
    simp only [satisfyByte]
    split
    · next hd =>
      simp only [IResult.ok.injEq, List.cons.injEq]
      constructor
      · rintro ⟨rfl, rfl⟩
        exact ⟨⟨rfl, rfl⟩, hd⟩
      · rintro ⟨⟨rfl, rfl⟩, -⟩
        exact ⟨rfl, rfl⟩
    · next hd =>
      refine iff_of_false (by simp) fun h => hd ?_
      rw [(List.cons.inj h.1).1]
      exact h.2

/-! ## Runs of bytes -/

theorem ended_dropWhile {p : UInt8 → Bool} (h : x.dropWhile p ≠ []) : Ended p (x.dropWhile p) := by
  have hhead := List.head_dropWhile_not p h
  obtain ⟨c, rest, hcons⟩ := List.exists_cons_of_ne_nil h
  simp only [hcons, List.head_cons] at hhead
  exact ⟨c, rest, hcons, by simpa using hhead⟩

theorem takeWhile_eq_ok {p : UInt8 → Bool} :
    takeWhile p x = .ok z a ↔ x = a ++ z ∧ (∀ c ∈ a, p c = true) ∧ Ended p z := by
  constructor
  · intro h
    simp only [takeWhile] at h
    split at h <;> cases h
    next hdrop =>
      rw [← hdrop]
      exact ⟨List.takeWhile_append_dropWhile.symm, fun c hc => List.mem_takeWhile_imp hc,
        ended_dropWhile (by simp [hdrop])⟩
  · rintro ⟨rfl, hall, hended⟩
    exact takeWhile_run hall hended

theorem takeWhile1_eq_ok {kind : ErrorKind} {p : UInt8 → Bool} :
    takeWhile1 kind p x = .ok z a ↔ x = a ++ z ∧ Run p a ∧ Ended p z := by
  constructor
  · intro h
    have hne : a ≠ [] := by
      simp only [takeWhile1] at h
      split at h
      · cases h
      · split at h <;> cases h
        assumption
    have htake : takeWhile p x = .ok z a := by
      simp only [takeWhile1, takeWhile] at h ⊢
      split at h
      · cases h
      · next hdrop =>
        split at h <;> cases h
        simp
    obtain ⟨hx, hall, hended⟩ := takeWhile_eq_ok.mp htake
    exact ⟨hx, ⟨hne, hall⟩, hended⟩
  · rintro ⟨rfl, hrun, hended⟩
    rw [takeWhile1_run hrun.all hended, if_neg hrun.ne_nil]

/-! ## Lines -/

def LineEnd (e : Bytes) : Prop := e = [lf] ∨ e = crlf

theorem LineEnd.ended {e : Bytes} (h : LineEnd e) {p : UInt8 → Bool} (hcr : p cr = false)
    (hlf : p lf = false) (z : Bytes) : Ended p (e ++ z) := by
  rcases h with rfl | rfl
  · exact ⟨lf, z, rfl, hlf⟩
  · exact ⟨cr, lf :: z, rfl, hcr⟩

theorem lineEnding_eq_ok {e : Bytes} : lineEnding x = .ok z e ↔ x = e ++ z ∧ LineEnd e := by
  constructor
  · intro h
    simp only [lineEnding] at h
    split at h
    · next hcompare =>
      obtain ⟨t, y, rfl, ht⟩ := compareBy_eq_ok.mp hcompare
      obtain rfl : t = [lf] := by simpa using ht
      cases h
      exact ⟨rfl, .inl rfl⟩
    · cases h
    · split at h <;> cases h
      next hcompare =>
        obtain ⟨t, y, rfl, ht⟩ := compareBy_eq_ok.mp hcompare
        obtain rfl : t = crlf := by simpa using ht
        exact ⟨rfl, .inr rfl⟩
  · rintro ⟨rfl, rfl | rfl⟩ <;> simp [lineEnding, compare, compareBy, crlf, cr, lf]

theorem notLineEnding_eq_ok : notLineEnding x = .ok z a ↔
    x = a ++ z ∧ (∀ c ∈ a, isLineByte c = true) ∧ ∃ e y, LineEnd e ∧ z = e ++ y := by
  constructor
  · intro h
    simp only [notLineEnding] at h
    split at h
    · cases h
    next c rest hdrop =>
      have hx : x = x.takeWhile isLineByte ++ c :: rest := by
        rw [← hdrop]
        exact List.takeWhile_append_dropWhile.symm
      have hall : ∀ d ∈ x.takeWhile isLineByte, isLineByte d = true :=
        fun d hd => List.mem_takeWhile_imp hd
      split at h
      · next hcr =>
        split at h <;> cases h
        next hcompare =>
          obtain ⟨t, y, hcons, ht⟩ := compareBy_eq_ok.mp hcompare
          obtain rfl : t = crlf := by simpa using ht
          exact ⟨hx, hall, crlf, y, .inr rfl, hcons⟩
      · next hcr =>
        cases h
        obtain ⟨d, y, hcons, hd⟩ := ended_dropWhile (p := isLineByte) (x := x) (by simp [hdrop])
        obtain ⟨rfl, rfl⟩ := List.cons.inj (hdrop.symm.trans hcons)
        have hlf : c = lf := by simpa [isLineByte, hcr] using hd
        exact ⟨hx, hall, [lf], rest, .inl rfl, by simp [hlf]⟩
  · rintro ⟨rfl, hall, e, y, hend, rfl⟩
    have hended : Ended isLineByte (e ++ y) := hend.ended rfl rfl y
    simp only [notLineEnding, dropWhile_run hall hended, takeWhile_prefix_run hall hended]
    rcases hend with rfl | rfl <;> simp [crlf, compare, compareBy, cr, lf]

theorem findSubstring_eq_some {pat : Bytes} {k : Nat} : findSubstring pat x = some k ↔
    k ≤ x.length ∧ pat <+: x.drop k ∧ ∀ i < k, ¬ pat <+: x.drop i := by
  induction x generalizing k with
  | nil => cases k <;> simp [findSubstring, List.prefix_nil, eq_comm]
  | cons c x ih =>
    unfold findSubstring
    split
    · next hpre =>
      have hpre := List.isPrefixOf_iff_prefix.mp hpre
      cases k with
      | zero => simp [hpre]
      | succ k => simpa using fun _ _ => ⟨0, by omega, hpre⟩
    · next hpre =>
      have hpre : ¬ pat <+: c :: x := fun h => hpre (List.isPrefixOf_iff_prefix.mpr h)
      cases k with
      | zero => simp [hpre]
      | succ k =>
        rw [Option.map_eq_some_iff]
        simp only [Nat.add_right_cancel_iff, exists_eq_right, ih, List.length_cons,
          List.drop_succ_cons, Nat.add_le_add_iff_right]
        refine and_congr_right fun _ => and_congr_right fun _ => ⟨fun h i hi => ?_, fun h i hi => ?_⟩
        · cases i with
          | zero => exact hpre
          | succ i => exact h i (by omega)
        · exact h (i + 1) (by omega)

theorem takeUntil_eq_ok {pat : Bytes} : takeUntil pat x = .ok z a ↔
    x = a ++ z ∧ pat <+: z ∧ ∀ i < a.length, ¬ pat <+: x.drop i := by
  constructor
  · intro h
    unfold takeUntil at h
    split at h <;> cases h
    next index hfind =>
      obtain ⟨hle, hpre, hfirst⟩ := findSubstring_eq_some.mp hfind
      exact ⟨(List.take_append_drop index x).symm, hpre, by simpa [hle] using hfirst⟩
  · rintro ⟨rfl, hpre, hfirst⟩
    have hfind : findSubstring pat (a ++ z) = some a.length :=
      findSubstring_eq_some.mpr ⟨by simp, by simpa using hpre, hfirst⟩
    simp [takeUntil, hfind]

/-! ## Choice -/

theorem alt_eq_ok {p q : Parser α} {ps : List (Parser α)} {v : α} :
    alt (p :: q :: ps) x = .ok z v ↔
      p x = .ok z v ∨ (∃ e, p x = .error e) ∧ alt (q :: ps) x = .ok z v := by
  simp only [alt]
  split
  · next e he => simp [he]
  · next hne =>
    constructor
    · exact .inl
    · rintro (h | ⟨⟨e, he⟩, -⟩)
      · exact h
      · exact absurd he (hne e)

theorem alt_singleton (p : Parser α) : alt [p] x = p x := rfl

theorem opt_eq_ok {p : Parser α} {v : Option α} :
    opt p x = .ok z v ↔ (∃ b, p x = .ok z b ∧ v = some b) ∨
      (∃ e, p x = .error e) ∧ z = x ∧ v = none := by
  unfold opt
  split
  · next h => simp [h, eq_comm]
  · next h => simp [h, eq_comm]
  · next h => simp [h]

/-- What a choice accepts, one of its alternatives accepts. -/
theorem alt_ok_mem {ps : List (Parser α)} {v : α} (h : alt ps x = .ok z v) :
    ∃ p ∈ ps, p x = .ok z v := by
  induction ps with
  | nil => cases h
  | cons p ps ih =>
    cases ps with
    | nil => exact ⟨p, by simp, h⟩
    | cons q ps =>
      rcases alt_eq_ok.mp h with h | ⟨-, h⟩
      · exact ⟨p, by simp, h⟩
      · obtain ⟨p', hp', h'⟩ := ih h
        exact ⟨p', by simp [hp'], h'⟩

/-- What a choice rejects, all its alternatives reject. -/
theorem alt_error_mem {ps : List (Parser α)} {e : ParseError} (h : alt ps x = .error e) :
    ∀ p ∈ ps, ∃ e, p x = .error e := by
  induction ps with
  | nil => simp
  | cons p ps ih =>
    cases ps with
    | nil => simpa using ⟨e, h⟩
    | cons q ps =>
      rw [alt] at h
      split at h
      · next e' he => exact List.forall_mem_cons.mpr ⟨⟨e', he⟩, ih h⟩
      · next hne => exact absurd h (hne e)

theorem tagNoCase_head_ne {c d : UInt8} {t : Bytes} (h : lowercaseByte c ≠ lowercaseByte d) :
    tagNoCase (d :: t) (c :: x) = .error ⟨c :: x, .tag⟩ := by
  simp [tagNoCase, compareNoCase, compareBy, takeTag, h]

/-- A choice between literals that differ in their first letter. -/
theorem alt_tagNoCase_eq_ok {ts : List Bytes} (hne : ∀ t ∈ ts, t ≠ [])
    (hheads : ts.Pairwise fun t t' => t.head?.map lowercaseByte ≠ t'.head?.map lowercaseByte) :
    alt (ts.map tagNoCase) x = .ok z a ↔ x = a ++ z ∧ ∃ t ∈ ts, SameLetters a t := by
  constructor
  · intro h
    obtain ⟨_, hp, h⟩ := alt_ok_mem h
    obtain ⟨t, ht, rfl⟩ := List.mem_map.mp hp
    obtain ⟨hx, hletters⟩ := tagNoCase_eq_ok.mp h
    exact ⟨hx, t, ht, hletters⟩
  · rintro ⟨rfl, t, ht, hletters⟩
    induction ts with
    | nil => simp at ht
    | cons t₁ ts ih =>
      have hok : tagNoCase t (a ++ z) = .ok z a := tagNoCase_eq_ok.mpr ⟨rfl, hletters⟩
      cases ts with
      | nil =>
        obtain rfl : t = t₁ := by simpa using ht
        exact hok
      | cons t₂ ts =>
        rw [List.pairwise_cons] at hheads
        refine alt_eq_ok.mpr ?_
        rcases List.mem_cons.mp ht with rfl | hrest
        · exact .inl hok
        · refine .inr ⟨?_, ih (fun t ht => hne t (by simp [ht])) hheads.2 hrest⟩
          obtain ⟨d₁, s₁, rfl⟩ := List.exists_cons_of_ne_nil (hne t₁ (by simp))
          obtain ⟨d, s, rfl⟩ := List.exists_cons_of_ne_nil (hne t ht)
          cases a with
          | nil => simp [SameLetters] at hletters
          | cons c a =>
            obtain ⟨hc, -⟩ := List.cons.inj hletters.eq
            have hhead : lowercaseByte d₁ ≠ lowercaseByte d := by simpa using hheads.1 _ hrest
            exact ⟨_, tagNoCase_head_ne fun h => hhead (h.symm.trans hc)⟩

/-- A choice accepts by its last alternative where all the others reject. -/
theorem alt_concat_ok {ps : List (Parser α)} {q : Parser α} {v : α}
    (h : alt (ps ++ [q]) x = .ok z v) :
    (∃ p ∈ ps, p x = .ok z v) ∨ (∀ p ∈ ps, ∃ e, p x = .error e) ∧ q x = .ok z v := by
  induction ps with
  | nil => exact .inr ⟨by simp, h⟩
  | cons p ps ih =>
    obtain ⟨p', ps', hcons⟩ : ∃ p' ps', ps ++ [q] = p' :: ps' := by
      cases ps <;> simp
    rw [List.cons_append, hcons, alt_eq_ok, ← hcons] at h
    rcases h with h | ⟨herror, h⟩
    · exact .inl ⟨p, by simp, h⟩
    · refine (ih h).imp (fun ⟨p', hp', h'⟩ => ⟨p', by simp [hp'], h'⟩) fun ⟨hall, hq⟩ => ⟨?_, hq⟩
      simpa using ⟨herror, hall⟩

/-! ## Repetition -/

theorem many1Loop_satisfyByte (kind : ErrorKind) (p : UInt8 → Bool) {fuel : Nat}
    (hfuel : x.length < fuel) : many1Loop (satisfyByte kind p) fuel x = takeWhile p x := by
  induction x generalizing fuel with
  | nil =>
    obtain ⟨fuel, rfl⟩ : ∃ k, fuel = k + 1 := ⟨fuel - 1, by simp at hfuel; omega⟩
    rfl
  | cons c x ih =>
    obtain ⟨fuel, rfl⟩ : ∃ k, fuel = k + 1 := ⟨fuel - 1, by simp at hfuel; omega⟩
    simp only [many1Loop, satisfyByte]
    cases hc : p c with
    | false => simp [takeWhile, hc]
    | true =>
      rw [if_pos rfl]
      simp only [ih (by simpa using hfuel), List.length_cons]
      rw [if_neg (by omega)]
      simp only [takeWhile, List.dropWhile_cons_of_pos hc, List.takeWhile_cons_of_pos hc]
      split <;> simp

/-- One byte, and the run of those that follow. -/
theorem many1_satisfyByte (kind : ErrorKind) (p : UInt8 → Bool) : many1 (satisfyByte kind p) x =
    (satisfyByte kind p x).bind fun y c => (takeWhile p y).bind fun z as => .ok z (c :: as) := by
  simp only [← many1Loop_satisfyByte kind p (Nat.lt_succ_self _)]
  rfl

theorem many1_satisfyByte_eq_ok {kind : ErrorKind} {p : UInt8 → Bool} :
    many1 (satisfyByte kind p) x = .ok z a ↔ x = a ++ z ∧ Run p a ∧ Ended p z := by
  simp only [many1_satisfyByte, IResult.bind_eq_ok, satisfyByte_eq_ok, takeWhile_eq_ok, IResult.ok.injEq]
  constructor
  · rintro ⟨mid, c, ⟨rfl, hc⟩, _, as, ⟨rfl, hall, hended⟩, rfl, rfl⟩
    exact ⟨rfl, ⟨List.cons_ne_nil _ _, by simpa [hc] using hall⟩, hended⟩
  · rintro ⟨rfl, ⟨hne, hall⟩, hended⟩
    cases a with
    | nil => exact absurd rfl hne
    | cons c a =>
      simp only [List.mem_cons, forall_eq_or_imp] at hall
      exact ⟨a ++ z, c, ⟨rfl, hall.1⟩, z, a, ⟨rfl, hall.2, hended⟩, rfl, rfl⟩

/-- The list ends: there is no separator, or no item behind it. -/
def ListEnds (sep : Parser β) (p : Parser α) (x : Bytes) : Prop :=
  (∃ e, sep x = .error e) ∨ ∃ y b e, sep x = .ok y b ∧ y.length < x.length ∧ p y = .error e

/-- Items with a separator before each, and then the end of the list. -/
inductive Separated (sep : Parser β) (p : Parser α) : Bytes → List α → Bytes → Prop where
  | nil {x : Bytes} : ListEnds sep p x → Separated sep p x [] x
  | cons {x y y' z : Bytes} {b : β} {v : α} {vs : List α} : sep x = .ok y b → y.length < x.length →
      p y = .ok y' v → Separated sep p y' vs z → Separated sep p x (v :: vs) z

theorem separatedLoop_eq_ok {sep : Parser β} {p : Parser α} (hsep : Stable sep) (hp : Stable p)
    {fuel : Nat} (hfuel : x.length < fuel) {vs : List α} :
    separatedLoop sep p fuel x = .ok z vs ↔ Separated sep p x vs z := by
  induction fuel generalizing x vs with
  | zero => omega
  | succ fuel ih =>
    constructor
    · intro h
      simp only [separatedLoop] at h
      split at h
      · next e he =>
        cases h
        exact .nil (.inl ⟨e, he⟩)
      · cases h
      next y b hok =>
        split at h
        · cases h
        next hne =>
          have hlt : y.length < x.length := Nat.lt_of_le_of_ne (hsep.suffix hok).length_le hne
          split at h
          · next e he =>
            cases h
            exact .nil (.inr ⟨y, b, e, hok, hlt, he⟩)
          · cases h
          next y' v hv =>
            obtain ⟨_, vs', hvs, h⟩ := IResult.bind_eq_ok.mp h
            cases h
            have hlt' := Nat.lt_of_le_of_lt (hp.suffix hv).length_le hlt
            exact .cons hok hlt hv ((ih (by omega)).mp hvs)
    · intro h
      cases h with
      | nil hends =>
        rcases hends with ⟨e, he⟩ | ⟨y, b, e, hok, hlt, he⟩
        · simp only [separatedLoop, he]
        · simp only [separatedLoop, hok, if_neg hlt.ne, he]
      | cons hok hlt hv hrest =>
        have hlt' := Nat.lt_of_le_of_lt (hp.suffix hv).length_le hlt
        have hrest := (ih (by omega)).mpr hrest
        simp only [separatedLoop, hok, if_neg hlt.ne, hv, hrest, IResult.bind_ok]

theorem separatedList0_eq_ok {sep : Parser β} {p : Parser α} (hsep : Stable sep) (hp : Stable p)
    {vs : List α} : separatedList0 sep p x = .ok z vs ↔
      (∃ e, p x = .error e) ∧ z = x ∧ vs = [] ∨
        ∃ y v vs', p x = .ok y v ∧ Separated sep p y vs' z ∧ vs = v :: vs' := by
  unfold separatedList0
  split
  · next e he => simp [he, eq_comm]
  · next hn => simp [hn]
  · next y v hv =>
    simp only [hv, IResult.bind_eq_ok, separatedLoop_eq_ok hsep hp (Nat.lt_succ_self _),
      IResult.ok.injEq]
    constructor
    · rintro ⟨_, vs', hvs, rfl, rfl⟩
      exact .inr ⟨y, v, vs', ⟨rfl, rfl⟩, hvs, rfl⟩
    · rintro (⟨⟨e, he⟩, -⟩ | ⟨_, _, vs', ⟨rfl, rfl⟩, hvs, rfl⟩)
      · cases he
      · exact ⟨z, vs', hvs, rfl, rfl⟩

/-- `f` accepts again and again. -/
inductive Chain (f : Parser α) : Bytes → List α → Bytes → Prop where
  | nil {x : Bytes} : Chain f x [] x
  | cons {x y z : Bytes} {v : α} {vs : List α} : f x = .ok y v → Chain f y vs z → Chain f x (v :: vs) z

theorem manyTill_ok {f : Parser α} {g : Parser β} {vs : List α} {b : β}
    (h : manyTill f g x = .ok z (vs, b)) : ∃ y, Chain f x vs y ∧ g y = .ok z b := by
  have hloop : ∀ fuel x vs, manyTillLoop f g fuel x = .ok z (vs, b) →
      ∃ y, Chain f x vs y ∧ g y = .ok z b := by
    intro fuel
    induction fuel with
    | zero => exact fun x vs h => by cases h
    | succ fuel ih =>
      intro x vs h
      rw [manyTillLoop, alt_eq_ok] at h
      rcases h with h | ⟨-, h⟩
      · obtain ⟨_, _, hg, h⟩ := IResult.bind_eq_ok.mp h
        cases h
        exact ⟨x, .nil, hg⟩
      · obtain ⟨y, v, hf, h⟩ := IResult.bind_eq_ok.mp h
        obtain ⟨_, ⟨vs', b'⟩, hrest, h⟩ := IResult.bind_eq_ok.mp h
        cases h
        obtain ⟨y', hchain, hg⟩ := ih y vs' hrest
        refine ⟨y', .cons ?_ hchain, hg⟩
        unfold consuming at hf
        split at hf
        · next hv =>
          split at hf <;> cases hf
          exact hv
        · exact hf
  exact hloop _ x vs h

/-- Where each round reads a part of some form, the rounds read a list of them. -/
theorem Chain.parts {π : Type} {bytes : π → Bytes} {form : π → α → Prop} {f : Parser α}
    (hf : ∀ ⦃x z v⦄, f x = .ok z v → ∃ part, x = bytes part ++ z ∧ form part v) {vs : List α}
    (h : Chain f x vs z) : ∃ parts : List π, x = parts.flatMap bytes ++ z ∧
      List.Forall₂ form parts vs := by
  induction h with
  | nil => exact ⟨[], rfl, .nil⟩
  | cons hv _ ih =>
    obtain ⟨part, rfl, hpart⟩ := hf hv
    obtain ⟨parts, rfl, hparts⟩ := ih
    exact ⟨part :: parts, by simp, .cons hpart hparts⟩

end Nom
