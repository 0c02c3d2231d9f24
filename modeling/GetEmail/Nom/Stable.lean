-- SUMMARY: Answers of a streaming parser do not change when the input grows.
import GetEmail.Nom.Basic
import Mathlib.Data.List.TakeWhile

/-!
# Stability under extension

A streaming parser is *stable* when an answer it gives for an input, acceptance
or rejection, is the answer it gives for every longer input. Each combinator of
`Basic.lean` preserves stability, so the stability of a grammar follows its
syntax.
-/

namespace Nom

variable {α β γ : Type}

/-- What `p` accepts or rejects, it accepts or rejects on every longer input.
The unread part is a suffix of the input. -/
structure Stable (p : Parser α) : Prop where
  suffix : ∀ {x rest a}, p x = .ok rest a → rest <:+ x
  ok : ∀ {x rest a}, p x = .ok rest a → ∀ s, p (x ++ s) = .ok (rest ++ s) a
  error : ∀ {x e}, p x = .error e → ∀ s, ∃ e', p (x ++ s) = .error e'

/-- What is accepted or rejected stays so. -/
theorem Stable.needed? {p : Parser α} (hp : Stable p) {x : Bytes} (h : (p x).needed? = none)
    (s : Bytes) : (p (x ++ s)).needed? = none := by
  cases hx : p x with
  | ok rest a =>
    rw [hp.ok hx s]
    rfl
  | incomplete needed =>
    rw [hx] at h
    cases h
  | error e =>
    obtain ⟨e', he'⟩ := hp.error hx s
    rw [he']
    rfl

/-- What `p` accepts has at least one byte. -/
structure Consumes (p : Parser α) : Prop where
  lt : ∀ {x rest a}, p x = .ok rest a → rest.length < x.length

/-! ## Sequencing -/

theorem Stable.pure (a : α) : Stable (Pure.pure a : Parser α) where
  suffix h := by cases h; exact List.suffix_rfl
  ok h s := by cases h; rfl
  error h := by cases h

theorem Stable.bind {p : Parser α} {f : α → Parser β} (hp : Stable p)
    (hf : ∀ a, Stable (f a)) : Stable (p >>= f) where
  suffix h := by
    obtain ⟨mid, a, h₁, h₂⟩ := IResult.bind_eq_ok.mp h
    exact ((hf a).suffix h₂).trans (hp.suffix h₁)
  ok h s := by
    obtain ⟨mid, a, h₁, h₂⟩ := IResult.bind_eq_ok.mp h
    simp [hp.ok h₁ s, (hf a).ok h₂ s]
  error h s := by
    rcases IResult.bind_eq_error.mp h with h₁ | ⟨mid, a, h₁, h₂⟩
    · obtain ⟨e', h'⟩ := hp.error h₁ s
      exact ⟨e', by simp [h']⟩
    · obtain ⟨e', h'⟩ := (hf a).error h₂ s
      exact ⟨e', by simp [hp.ok h₁ s, h']⟩

theorem Stable.map {p : Parser α} (hp : Stable p) (f : α → β) : Stable (map p f) :=
  hp.bind fun _ => .pure _

theorem Stable.value {p : Parser α} (hp : Stable p) (b : β) : Stable (value b p) :=
  hp.map _

theorem Stable.pair {p : Parser α} {q : Parser β} (hp : Stable p) (hq : Stable q) :
    Stable (pair p q) :=
  hp.bind fun _ => hq.bind fun _ => .pure _

theorem Stable.terminated {p : Parser α} {q : Parser β} (hp : Stable p) (hq : Stable q) :
    Stable (terminated p q) :=
  hp.bind fun _ => hq.bind fun _ => .pure _

theorem Stable.preceded {p : Parser α} {q : Parser β} (hp : Stable p) (hq : Stable q) :
    Stable (preceded p q) :=
  hp.bind fun _ => hq

theorem Stable.delimited {p : Parser α} {q : Parser β} {r : Parser γ} (hp : Stable p)
    (hq : Stable q) (hr : Stable r) : Stable (delimited p q r) :=
  hp.bind fun _ => hq.bind fun _ => hr.bind fun _ => .pure _

theorem Consumes.bind {p : Parser α} {f : α → Parser β} (hp : Consumes p)
    (hf : ∀ a, Stable (f a)) : Consumes (p >>= f) where
  lt h := by
    obtain ⟨mid, a, h₁, h₂⟩ := IResult.bind_eq_ok.mp h
    exact Nat.lt_of_le_of_lt ((hf a).suffix h₂).length_le (hp.lt h₁)

/-! ## Choice -/

theorem Stable.alt_cons {p q : Parser α} {ps : List (Parser α)} (hp : Stable p)
    (hq : Stable (alt (q :: ps))) : Stable (alt (p :: q :: ps)) := by
  refine ⟨?_, ?_, ?_⟩
  · intro x rest a hx
    simp only [Nom.alt] at hx
    split at hx
    · exact hq.suffix hx
    · exact hp.suffix hx
  · intro x rest a hx s
    simp only [Nom.alt] at hx ⊢
    split at hx
    · next e he =>
      obtain ⟨e', he'⟩ := hp.error he s
      simp [he', hq.ok hx s]
    · simp [hp.ok hx s]
  · intro x e hx s
    simp only [Nom.alt] at hx ⊢
    split at hx
    · next e₁ he =>
      obtain ⟨e', he'⟩ := hp.error he s
      simpa [he'] using hq.error hx s
    · next hne => exact absurd hx (hne e)

theorem Consumes.alt_cons {p q : Parser α} {ps : List (Parser α)} (hp : Consumes p)
    (hq : Consumes (alt (q :: ps))) : Consumes (alt (p :: q :: ps)) where
  lt h := by
    simp only [Nom.alt] at h
    split at h
    · exact hq.lt h
    · exact hp.lt h

theorem Stable.opt {p : Parser α} (hp : Stable p) : Stable (opt p) := by
  refine ⟨?_, ?_, ?_⟩
  · intro x rest a h
    simp only [Nom.opt] at h
    split at h <;> cases h
    · next h => exact hp.suffix h
    · exact List.suffix_rfl
  · intro x rest a h s
    simp only [Nom.opt] at h ⊢
    split at h <;> cases h
    · next h => simp [hp.ok h s]
    · next h =>
      obtain ⟨e', h'⟩ := hp.error h s
      simp [h']
  · intro x e h s
    simp only [Nom.opt] at h
    split at h <;> cases h

/-! ## Literals -/

theorem compareBy_append {same : UInt8 → UInt8 → Bool} {x t : Bytes} (s : Bytes)
    (h : compareBy same x t ≠ .incomplete) :
    compareBy same (x ++ s) t = compareBy same x t := by
  induction x generalizing t with
  | nil => cases t <;> simp_all [compareBy]
  | cons a x ih =>
    cases t with
    | nil => simp [compareBy]
    | cons b t =>
      simp only [compareBy, List.cons_append] at h ⊢
      split
      · next hab => exact ih (by simpa [hab] using h)
      · rfl

theorem compareBy_ok_length {same : UInt8 → UInt8 → Bool} {x t : Bytes}
    (h : compareBy same x t = .ok) : t.length ≤ x.length := by
  induction x generalizing t with
  | nil => cases t <;> simp_all [compareBy]
  | cons a x ih =>
    cases t with
    | nil => simp
    | cons b t =>
      simp only [compareBy] at h
      split at h
      · simpa using ih h
      · cases h

/-- Both `tag` and `tagNoCase`. -/
theorem Stable.takeTag (same : UInt8 → UInt8 → Bool) (t : Bytes) :
    Stable fun x => takeTag t (compareBy same x t) x := by
  refine ⟨?_, ?_, ?_⟩
  · intro x rest a h
    simp only [Nom.takeTag] at h
    split at h <;> cases h
    exact List.drop_suffix _ _
  · intro x rest a h s
    simp only [Nom.takeTag] at h ⊢
    split at h <;> cases h
    next hc =>
      have hlen := compareBy_ok_length hc
      rw [compareBy_append s (by simp [hc]), hc]
      simp [List.drop_append_of_le_length hlen, List.take_append_of_le_length hlen]
  · intro x e h s
    simp only [Nom.takeTag] at h ⊢
    split at h <;> cases h
    next hc =>
      rw [compareBy_append s (by simp [hc]), hc]
      exact ⟨_, rfl⟩

theorem Stable.tag (t : Bytes) : Stable (tag t) := .takeTag _ t

theorem Stable.tagNoCase (t : Bytes) : Stable (tagNoCase t) := .takeTag _ t

theorem compareBy_prefix {x t : Bytes} (h : compareBy (· == ·) x t = .ok) : t <+: x := by
  induction t generalizing x with
  | nil => exact List.nil_prefix
  | cons c t ih =>
    cases x with
    | nil => simp [compareBy] at h
    | cons a x =>
      simp only [compareBy] at h
      split at h
      · next hsame =>
        obtain rfl := eq_of_beq hsame
        exact List.cons_prefix_cons.mpr ⟨rfl, ih h⟩
      · cases h

theorem tag_prefix {t x rest a : Bytes} (h : tag t x = .ok rest a) : t <+: x := by
  unfold tag takeTag at h
  split at h
  · next hcompare => exact compareBy_prefix hcompare
  · cases h
  · cases h

theorem Consumes.takeTag (same : UInt8 → UInt8 → Bool) {t : Bytes} (ht : t ≠ []) :
    Consumes fun x => takeTag t (compareBy same x t) x where
  lt h := by
    simp only [Nom.takeTag] at h
    split at h <;> cases h
    next hc =>
      have hlen := compareBy_ok_length hc
      have hpos := List.length_pos_iff.mpr ht
      simp only [List.length_drop]
      omega

theorem Consumes.tag {t : Bytes} (ht : t ≠ []) : Consumes (tag t) := Consumes.takeTag _ ht

theorem Stable.satisfyByte (kind : ErrorKind) (p : UInt8 → Bool) :
    Stable (satisfyByte kind p) := by
  refine ⟨?_, ?_, ?_⟩
  · intro x rest a h
    cases x with
    | nil => cases h
    | cons c x =>
      simp only [Nom.satisfyByte] at h
      split at h <;> cases h
      exact List.suffix_cons _ _
  · intro x rest a h s
    cases x with
    | nil => cases h
    | cons c x =>
      simp only [Nom.satisfyByte, List.cons_append] at h ⊢
      split at h <;> cases h
      next hc => simp [hc]
  · intro x e h s
    cases x with
    | nil => cases h
    | cons c x =>
      simp only [Nom.satisfyByte, List.cons_append] at h ⊢
      split at h <;> cases h
      next hc => simp [hc]

theorem Stable.char (c : UInt8) : Stable (char c) := .satisfyByte _ _

theorem Stable.oneOf (cs : Bytes) : Stable (oneOf cs) := .satisfyByte _ _

/-! ## Runs of bytes -/

/-- Once a run has ended, later bytes are not part of it. -/
theorem takeWhile_append_of_ended {p : UInt8 → Bool} {x rest : Bytes} {c : UInt8} (s : Bytes)
    (h : x.dropWhile p = c :: rest) :
    (x ++ s).dropWhile p = c :: (rest ++ s) ∧ (x ++ s).takeWhile p = x.takeWhile p := by
  have hlen : (x.takeWhile p).length ≠ x.length := by
    intro hlen
    have := congrArg List.length (List.takeWhile_append_dropWhile (p := p) (l := x))
    simp [h, hlen] at this
  constructor
  · simp [List.dropWhile_append, h]
  · simp [List.takeWhile_append, hlen]

theorem Stable.takeWhile (p : UInt8 → Bool) : Stable (takeWhile p) := by
  refine ⟨?_, ?_, ?_⟩
  · intro x rest a h
    simp only [Nom.takeWhile] at h
    split at h <;> cases h
    next hd => exact hd ▸ List.dropWhile_suffix p
  · intro x rest a h s
    simp only [Nom.takeWhile] at h ⊢
    split at h <;> cases h
    next hd =>
      obtain ⟨h₁, h₂⟩ := takeWhile_append_of_ended s hd
      simp [h₁, h₂]
  · intro x e h s
    simp only [Nom.takeWhile] at h
    split at h <;> cases h

theorem Stable.takeWhile1 (kind : ErrorKind) (p : UInt8 → Bool) :
    Stable (takeWhile1 kind p) := by
  refine ⟨?_, ?_, ?_⟩
  · intro x rest a h
    simp only [Nom.takeWhile1] at h
    split at h
    · cases h
    · next hd =>
      split at h <;> cases h
      exact hd ▸ List.dropWhile_suffix p
  · intro x rest a h s
    simp only [Nom.takeWhile1] at h ⊢
    split at h
    · cases h
    · next hd =>
      obtain ⟨h₁, h₂⟩ := takeWhile_append_of_ended s hd
      split at h <;> cases h
      next hne => simp [h₁, h₂, hne]
  · intro x e h s
    simp only [Nom.takeWhile1] at h ⊢
    split at h
    · cases h
    · next hd =>
      obtain ⟨h₁, h₂⟩ := takeWhile_append_of_ended s hd
      split at h <;> cases h
      next he => simp [h₁, h₂, he]

theorem Stable.digit1 : Stable digit1 := .takeWhile1 _ _

theorem Stable.space0 : Stable space0 := .takeWhile _

theorem Stable.space1 : Stable space1 := .takeWhile1 _ _

theorem Stable.takeWhileMN {m n : Nat} (p : UInt8 → Bool) (hmn : m ≤ n) :
    Stable (takeWhileMN m n p) := by
  -- Either the run has ended, or it is already as long as it may get.
  have key : ∀ x s : Bytes, (x.takeWhile p).length < x.length ∨ n ≤ x.length →
      ((x ++ s).takeWhile p = x.takeWhile p ∧ (x.takeWhile p).length < x.length) ∨
      (n ≤ x.length ∧ ¬ (x.takeWhile p).length < x.length ∧
        x.length ≤ ((x ++ s).takeWhile p).length) := by
    intro x s h
    by_cases hlt : (x.takeWhile p).length < x.length
    · left
      simp [List.takeWhile_append, Nat.ne_of_lt hlt, hlt]
    · right
      have heq : (x.takeWhile p).length = x.length :=
        Nat.le_antisymm (List.takeWhile_prefix p).length_le (Nat.not_lt.mp hlt)
      exact ⟨h.resolve_left hlt, hlt, by simp [List.takeWhile_append, heq]⟩
  have hle : ∀ (x s : Bytes) {k : Nat}, k ≤ x.length →
      (x ++ s).drop k = x.drop k ++ s ∧ (x ++ s).take k = x.take k := fun x s k hk =>
    ⟨List.drop_append_of_le_length hk, List.take_append_of_le_length hk⟩
  refine ⟨?_, ?_, ?_⟩
  · intro x rest a h
    simp only [Nom.takeWhileMN] at h
    split_ifs at h <;> cases h <;> exact List.drop_suffix _ _
  · intro x rest a h s
    have hcase : (x.takeWhile p).length < x.length ∨ n ≤ x.length := by
      simp only [Nom.takeWhileMN] at h
      by_contra hcon
      rw [not_or] at hcon
      simp [hcon.1, hcon.2] at h
    simp only [Nom.takeWhileMN, List.length_append] at h ⊢
    rcases key x s hcase with ⟨heq, hlt⟩ | ⟨hn, hnlt, hlen⟩
    · rw [heq, if_pos (by omega)]
      rw [if_pos hlt] at h
      split_ifs at h ⊢ <;> cases h
      · simp [hle x s (Nat.le_of_lt hlt)]
      · next h₁ h₂ => simp [hle x s (k := n) (by omega)]
    · rw [if_neg hnlt, if_pos hn] at h
      cases h
      have hgoal : (x ++ s).drop n = x.drop n ++ s ∧ (x ++ s).take n = x.take n := hle x s hn
      split_ifs with h₁ h₂ h₃ h₄
      · have : ((x ++ s).takeWhile p).length = n := by omega
        simp [this, hgoal]
      · simp [hgoal]
      · omega
      · simp [hgoal]
      · omega
  · intro x e h s
    simp only [Nom.takeWhileMN, List.length_append] at h ⊢
    split_ifs at h
    next h₁ h₂ =>
      rcases key x s (.inl h₁) with ⟨heq, -⟩ | ⟨-, hnlt, -⟩
      · rw [heq, if_pos (by omega), if_neg h₂]
        exact ⟨_, rfl⟩
      · exact absurd h₁ hnlt

/-! ## Lines -/

theorem Stable.lineEnding : Stable lineEnding := by
  have hlen : ∀ {x t : Bytes}, compare x t = .ok → t.length ≤ x.length := compareBy_ok_length
  refine ⟨?_, ?_, ?_⟩
  · intro x rest a h
    simp only [Nom.lineEnding] at h
    split at h
    · cases h; exact List.drop_suffix _ _
    · cases h
    · split at h <;> cases h
      exact List.drop_suffix _ _
  · intro x rest a h s
    simp only [Nom.lineEnding, compare] at h ⊢
    split at h
    · next hc =>
      cases h
      have := hlen hc
      rw [compareBy_append s (by simp [hc]), hc]
      cases x <;> simp_all
    · cases h
    · next hc =>
      split at h <;> cases h
      next hc' =>
        have := hlen hc'
        rw [compareBy_append s (by simp [hc]), hc, compareBy_append s (by simp [hc']), hc']
        simp only [crlf, List.length_cons, List.length_nil] at this
        simp [List.drop_append_of_le_length this, List.take_append_of_le_length this]
  · intro x e h s
    simp only [Nom.lineEnding, compare] at h ⊢
    split at h
    · cases h
    · cases h
    · next hc =>
      split at h <;> cases h
      next hc' =>
        rw [compareBy_append s (by simp [hc]), hc, compareBy_append s (by simp [hc']), hc']
        exact ⟨_, rfl⟩

theorem Stable.notLineEnding : Stable notLineEnding := by
  refine ⟨?_, ?_, ?_⟩
  · intro x rest a h
    simp only [Nom.notLineEnding] at h
    split at h
    · cases h
    · next hd =>
      have hsuf := hd ▸ List.dropWhile_suffix (l := x) isLineByte
      split at h
      · split at h <;> cases h
        exact hsuf
      · cases h; exact hsuf
  · intro x rest a h s
    simp only [Nom.notLineEnding, compare] at h ⊢
    split at h
    · cases h
    · next hd =>
      obtain ⟨h₁, h₂⟩ := takeWhile_append_of_ended s hd
      simp only [h₁, h₂]
      split at h
      · next hcr =>
        split at h <;> cases h
        next hc =>
          have hc' := (compareBy_append s (by rw [hc]; nofun)).trans hc
          rw [List.cons_append] at hc'
          simp only [if_pos hcr, hc']
          simp
      · next hcr =>
        cases h
        simp [hcr]
  · intro x e h s
    simp only [Nom.notLineEnding, compare] at h ⊢
    split at h
    · cases h
    · next hd =>
      obtain ⟨h₁, h₂⟩ := takeWhile_append_of_ended s hd
      simp only [h₁, h₂]
      split at h
      · next hcr =>
        split at h <;> cases h
        next hc =>
          have hc' := (compareBy_append s (by rw [hc]; nofun)).trans hc
          rw [List.cons_append] at hc'
          simp only [if_pos hcr, hc']
          simp
      · cases h

/-- An occurrence that was found lies within the input, and stays the first one. -/
theorem findSubstring_append {pat x : Bytes} {k : Nat} (s : Bytes)
    (h : findSubstring pat x = some k) :
    k + pat.length ≤ x.length ∧ findSubstring pat (x ++ s) = some k := by
  induction x generalizing k with
  | nil =>
    simp only [findSubstring] at h
    split at h <;> cases h
    next hpat => cases s <;> simp [findSubstring, hpat]
  | cons c x ih =>
    simp only [findSubstring, List.cons_append] at h ⊢
    split at h
    · next hpre =>
      cases h
      have hpre := List.isPrefixOf_iff_prefix.mp hpre
      have hpre' : pat.isPrefixOf (c :: (x ++ s)) :=
        List.isPrefixOf_iff_prefix.mpr (hpre.trans (List.prefix_append (c :: x) s))
      exact ⟨by simpa using hpre.length_le, by simp [hpre']⟩
    · next hpre =>
      obtain ⟨j, hj, rfl⟩ := Option.map_eq_some_iff.mp h
      obtain ⟨hle, hj'⟩ := ih hj
      -- An occurrence at the front of the longer input would fit into `c :: x`.
      have hpre' : ¬ pat.isPrefixOf (c :: (x ++ s)) := fun hcon =>
        hpre (List.isPrefixOf_iff_prefix.mpr
          (List.prefix_of_prefix_length_le (List.isPrefixOf_iff_prefix.mp hcon)
            (List.prefix_append (c :: x) s) (by simp only [List.length_cons]; omega)))
      exact ⟨by simp only [List.length_cons]; omega, by simp [hpre', hj']⟩

theorem Stable.takeUntil (pat : Bytes) : Stable (takeUntil pat) := by
  refine ⟨?_, ?_, ?_⟩
  · intro x rest a h
    simp only [Nom.takeUntil] at h
    split at h <;> cases h
    exact List.drop_suffix _ _
  · intro x rest a h s
    simp only [Nom.takeUntil] at h ⊢
    split at h <;> cases h
    next hk =>
      obtain ⟨hle, hk'⟩ := findSubstring_append s hk
      have hle := Nat.le_of_add_right_le hle
      simp [hk', List.drop_append_of_le_length hle, List.take_append_of_le_length hle]
  · intro x e h s
    simp only [Nom.takeUntil] at h
    split at h <;> cases h

/-! ## Repetition -/

theorem Stable.consuming {p : Parser α} (hp : Stable p) (kind : ErrorKind) :
    Stable (consuming kind p) := by
  refine ⟨?_, ?_, ?_⟩
  · intro x rest a h
    simp only [Nom.consuming] at h
    split at h
    · next h' => split at h <;> cases h; exact hp.suffix h'
    · exact hp.suffix h
  · intro x rest a h s
    simp only [Nom.consuming] at h ⊢
    split at h
    · next h' =>
      split at h <;> cases h
      next hne => simp [hp.ok h' s, hne]
    · next hne => exact absurd h (hne _ _)
  · intro x e h s
    simp only [Nom.consuming] at h ⊢
    split at h
    · next h' =>
      split at h <;> cases h
      next heq => simp [hp.ok h' s, heq]
    · obtain ⟨e', h'⟩ := hp.error h s
      exact ⟨e', by simp [h']⟩

/-- With enough fuel the rounds of a loop do not depend on it. -/
def FuelFree (loop : Nat → Parser α) : Prop :=
  ∀ {n m : Nat} {x : Bytes}, x.length < n → x.length < m → loop n x = loop m x

/-- A loop whose every unfolding is stable is stable when it is started with fuel
above the length of its input. -/
theorem Stable.fuel {loop : Nat → Parser α} (hloop : ∀ n, Stable (loop n))
    (hfree : FuelFree loop) : Stable fun x => loop (x.length + 1) x := by
  have hsame : ∀ x s : Bytes, loop (x.length + 1) x = loop ((x ++ s).length + 1) x := fun x s =>
    hfree (Nat.lt_succ_self _) (by simp only [List.length_append]; omega)
  refine ⟨fun h => (hloop _).suffix h, ?_, ?_⟩
  · intro x rest a h s
    exact (hloop _).ok (hsame x s ▸ h) s
  · intro x e h s
    exact (hloop _).error (hsame x s ▸ h) s

theorem Stable.many1Loop {p : Parser α} (hp : Stable p) (n : Nat) : Stable (many1Loop p n) := by
  induction n with
  | zero => exact ⟨by simp [Nom.many1Loop], by simp [Nom.many1Loop], fun _ s => ⟨_, rfl⟩⟩
  | succ n ih =>
    refine ⟨?_, ?_, ?_⟩
    · intro x rest as h
      simp only [Nom.many1Loop] at h
      split at h
      · cases h; exact List.suffix_rfl
      · cases h
      · next hx =>
        split at h
        · cases h
        · obtain ⟨mid, bs, h₁, h₂⟩ := IResult.bind_eq_ok.mp h
          cases h₂
          exact (ih.suffix h₁).trans (hp.suffix hx)
    · intro x rest as h s
      simp only [Nom.many1Loop] at h ⊢
      split at h
      · next hx =>
        cases h
        obtain ⟨e', hx'⟩ := hp.error hx s
        simp [hx']
      · cases h
      · next hx =>
        split at h
        · cases h
        · next hne =>
          obtain ⟨mid, bs, h₁, h₂⟩ := IResult.bind_eq_ok.mp h
          cases h₂
          simp [hp.ok hx s, hne, ih.ok h₁ s]
    · intro x e h s
      simp only [Nom.many1Loop] at h ⊢
      split at h
      · cases h
      · cases h
      · next hx =>
        split at h
        · next heq => simp [hp.ok hx s, heq]
        · next hne =>
          rcases IResult.bind_eq_error.mp h with h₁ | ⟨mid, bs, h₁, h₂⟩
          · obtain ⟨e', h'⟩ := ih.error h₁ s
            exact ⟨e', by simp [hp.ok hx s, hne, h']⟩
          · cases h₂

theorem many1Loop_fuelFree {p : Parser α} (hp : Stable p) : FuelFree (many1Loop p) := by
  intro n
  induction n with
  | zero => intro m x hn; omega
  | succ n ih =>
    intro m x hn hm
    obtain ⟨m, rfl⟩ : ∃ k, m = k + 1 := ⟨m - 1, by omega⟩
    simp only [many1Loop]
    split
    · rfl
    · rfl
    · next rest a hx =>
      have hle := (hp.suffix hx).length_le
      split
      · rfl
      · next hne => rw [ih (m := m) (x := rest) (by omega) (by omega)]

theorem Stable.many1 {p : Parser α} (hp : Stable p) : Stable (many1 p) :=
  hp.bind fun _ => (Stable.fuel (Stable.many1Loop hp) (many1Loop_fuelFree hp)).bind
    fun _ => .pure _

theorem Stable.manyTillLoop {f : Parser α} {g : Parser β} (hf : Stable f) (hg : Stable g)
    (n : Nat) : Stable (manyTillLoop f g n) := by
  induction n with
  | zero => exact ⟨by simp [Nom.manyTillLoop], by simp [Nom.manyTillLoop], fun _ s => ⟨_, rfl⟩⟩
  | succ n ih =>
    exact (hg.map _).alt_cons ((hf.consuming _).bind fun _ => ih.bind fun _ => .pure _)

/-- One round of `manyTill`. -/
theorem manyTillLoop_succ (f : Parser α) (g : Parser β) (n : Nat) (x : Bytes) :
    manyTillLoop f g (n + 1) x =
      match g x with
      | .ok rest b => .ok rest ([], b)
      | .incomplete needed => .incomplete needed
      | .error _ => (consuming .manyTill f x).bind fun mid a =>
          (manyTillLoop f g n mid).bind fun rest r => .ok rest (a :: r.1, r.2) := by
  simp only [manyTillLoop, alt, map, bind_apply, pure_apply]
  cases g x <;> rfl

theorem manyTillLoop_fuelFree {f : Parser α} {g : Parser β} (hf : Stable f) :
    FuelFree (manyTillLoop f g) := by
  intro n
  induction n with
  | zero => intro m x hn; omega
  | succ n ih =>
    intro m x hn hm
    obtain ⟨m, rfl⟩ : ∃ k, m = k + 1 := ⟨m - 1, by omega⟩
    simp only [manyTillLoop_succ]
    split
    · rfl
    · rfl
    · cases hc : consuming .manyTill f x with
      | incomplete _ => rfl
      | error _ => rfl
      | ok mid a =>
        have hlt : mid.length < x.length := by
          simp only [consuming] at hc
          split at hc
          · next hx =>
            split at hc <;> cases hc
            next hne => exact Nat.lt_of_le_of_ne (hf.suffix hx).length_le hne
          · next hne => exact absurd hc (hne _ _)
        simp only [IResult.bind_ok]
        rw [ih (m := m) (x := mid) (by omega) (by omega)]

theorem Stable.manyTill {f : Parser α} {g : Parser β} (hf : Stable f) (hg : Stable g) :
    Stable (manyTill f g) :=
  Stable.fuel (Stable.manyTillLoop hf hg) (manyTillLoop_fuelFree hf)

theorem Stable.separatedLoop {sep : Parser β} {p : Parser α} (hsep : Stable sep)
    (hp : Stable p) (n : Nat) : Stable (separatedLoop sep p n) := by
  induction n with
  | zero =>
    exact ⟨by simp [Nom.separatedLoop], by simp [Nom.separatedLoop], fun _ s => ⟨_, rfl⟩⟩
  | succ n ih =>
    refine ⟨?_, ?_, ?_⟩
    · intro x rest as h
      simp only [Nom.separatedLoop] at h
      split at h
      · cases h; exact List.suffix_rfl
      · cases h
      · next hx =>
        split at h
        · cases h
        · split at h
          · cases h; exact List.suffix_rfl
          · cases h
          · next hy =>
            obtain ⟨mid, bs, h₁, h₂⟩ := IResult.bind_eq_ok.mp h
            cases h₂
            exact ((ih.suffix h₁).trans (hp.suffix hy)).trans (hsep.suffix hx)
    · intro x rest as h s
      simp only [Nom.separatedLoop] at h ⊢
      split at h
      · next hx =>
        cases h
        obtain ⟨e', hx'⟩ := hsep.error hx s
        simp [hx']
      · cases h
      · next hx =>
        split at h
        · cases h
        · next hne =>
          split at h
          · next hy =>
            cases h
            obtain ⟨e', hy'⟩ := hp.error hy s
            simp [hsep.ok hx s, hne, hy']
          · cases h
          · next hy =>
            obtain ⟨mid, bs, h₁, h₂⟩ := IResult.bind_eq_ok.mp h
            cases h₂
            simp [hsep.ok hx s, hne, hp.ok hy s, ih.ok h₁ s]
    · intro x e h s
      simp only [Nom.separatedLoop] at h ⊢
      split at h
      · cases h
      · cases h
      · next hx =>
        split at h
        · next heq => simp [hsep.ok hx s, heq]
        · next hne =>
          split at h
          · cases h
          · cases h
          · next hy =>
            rcases IResult.bind_eq_error.mp h with h₁ | ⟨mid, bs, h₁, h₂⟩
            · obtain ⟨e', h'⟩ := ih.error h₁ s
              exact ⟨e', by simp [hsep.ok hx s, hne, hp.ok hy s, h']⟩
            · cases h₂

theorem separatedLoop_fuelFree {sep : Parser β} {p : Parser α} (hsep : Stable sep)
    (hp : Stable p) : FuelFree (separatedLoop sep p) := by
  intro n
  induction n with
  | zero => intro m x hn; omega
  | succ n ih =>
    intro m x hn hm
    obtain ⟨m, rfl⟩ : ∃ k, m = k + 1 := ⟨m - 1, by omega⟩
    simp only [separatedLoop]
    split
    · rfl
    · rfl
    · next mid b hx =>
      have hle := (hsep.suffix hx).length_le
      split
      · rfl
      · next hne =>
        split
        · rfl
        · rfl
        · next rest a hy =>
          have hle' := (hp.suffix hy).length_le
          rw [ih (m := m) (x := rest) (by omega) (by omega)]

theorem Stable.separatedList0 {sep : Parser β} {p : Parser α} (hsep : Stable sep)
    (hp : Stable p) : Stable (separatedList0 sep p) := by
  have hloop := Stable.fuel (Stable.separatedLoop hsep hp) (separatedLoop_fuelFree hsep hp)
  refine ⟨?_, ?_, ?_⟩
  · intro x rest as h
    simp only [Nom.separatedList0] at h
    split at h
    · cases h; exact List.suffix_rfl
    · cases h
    · next hx =>
      obtain ⟨mid, bs, h₁, h₂⟩ := IResult.bind_eq_ok.mp h
      cases h₂
      exact (hloop.suffix h₁).trans (hp.suffix hx)
  · intro x rest as h s
    simp only [Nom.separatedList0] at h ⊢
    split at h
    · next hx =>
      cases h
      obtain ⟨e', hx'⟩ := hp.error hx s
      simp [hx']
    · cases h
    · next hx =>
      obtain ⟨mid, bs, h₁, h₂⟩ := IResult.bind_eq_ok.mp h
      cases h₂
      have h' := hloop.ok h₁ s
      simp only [hp.ok hx s, h', IResult.bind_ok]
  · intro x e h s
    simp only [Nom.separatedList0] at h ⊢
    split at h
    · cases h
    · cases h
    · next hx =>
      rcases IResult.bind_eq_error.mp h with h₁ | ⟨mid, bs, h₁, h₂⟩
      · obtain ⟨e', h'⟩ := hloop.error h₁ s
        refine ⟨e', ?_⟩
        simp only [hp.ok hx s, h', IResult.bind_error]
      · cases h₂

end Nom
