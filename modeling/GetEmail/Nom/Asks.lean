-- SUMMARY: How many bytes a streaming parser asks for.
import GetEmail.Nom.Accepted

/-!
# Asking for more

A streaming parser that asks for more says how many bytes it misses, if it knows. Each
combinator asks for no more than its parts do.
-/

namespace Nom

variable {α β : Type} {k : Nat}

theorem IResult.bind_eq_incomplete {r : IResult α} {f : Bytes → α → IResult β} {needed : Needed} :
    r.bind f = .incomplete needed ↔
      r = .incomplete needed ∨ ∃ mid a, r = .ok mid a ∧ f mid a = .incomplete needed := by
  cases r <;> simp

/-- Where `p` says how many bytes it misses, they are `k` at most. -/
def AsksAtMost (k : Nat) (p : Parser α) : Prop :=
  ∀ ⦃x : Bytes⦄ ⦃n : Nat⦄, p x = .incomplete (.size n) → n ≤ k

theorem AsksAtMost.mono {p : Parser α} {m : Nat} (h : AsksAtMost k p) (hle : k ≤ m) :
    AsksAtMost m p := fun _ _ hask => (h hask).trans hle

theorem AsksAtMost.pure (a : α) : AsksAtMost k (Pure.pure a : Parser α) := by
  intro x n h
  cases h

theorem AsksAtMost.bind {p : Parser α} {f : α → Parser β} (hp : AsksAtMost k p)
    (hf : ∀ a, AsksAtMost k (f a)) : AsksAtMost k (p >>= f) := by
  intro x n h
  rcases IResult.bind_eq_incomplete.mp h with h | ⟨mid, a, -, h⟩
  · exact hp h
  · exact hf a h

theorem AsksAtMost.map {p : Parser α} (hp : AsksAtMost k p) (f : α → β) : AsksAtMost k (map p f) :=
  hp.bind fun _ => .pure _

theorem AsksAtMost.value {p : Parser α} (hp : AsksAtMost k p) (b : β) : AsksAtMost k (value b p) :=
  hp.map _

theorem AsksAtMost.preceded {p : Parser α} {q : Parser β} (hp : AsksAtMost k p)
    (hq : AsksAtMost k q) : AsksAtMost k (preceded p q) := hp.bind fun _ => hq

theorem AsksAtMost.delimited {γ : Type} {p : Parser α} {q : Parser β} {r : Parser γ}
    (hp : AsksAtMost k p) (hq : AsksAtMost k q) (hr : AsksAtMost k r) :
    AsksAtMost k (delimited p q r) :=
  hp.bind fun _ => hq.bind fun _ => hr.bind fun _ => .pure _

theorem AsksAtMost.pair {p : Parser α} {q : Parser β} (hp : AsksAtMost k p) (hq : AsksAtMost k q) :
    AsksAtMost k (pair p q) :=
  hp.bind fun _ => hq.bind fun _ => .pure _

theorem AsksAtMost.terminated {p : Parser α} {q : Parser β} (hp : AsksAtMost k p)
    (hq : AsksAtMost k q) : AsksAtMost k (terminated p q) :=
  hp.bind fun _ => hq.bind fun _ => .pure _

theorem AsksAtMost.opt {p : Parser α} (hp : AsksAtMost k p) : AsksAtMost k (opt p) := by
  intro x n h
  simp only [Nom.opt] at h
  split at h <;> cases h
  next hask => exact hp hask

theorem AsksAtMost.alt_cons {p q : Parser α} {ps : List (Parser α)} (hp : AsksAtMost k p)
    (hq : AsksAtMost k (alt (q :: ps))) : AsksAtMost k (alt (p :: q :: ps)) := by
  intro x n h
  simp only [Nom.alt] at h
  split at h
  · exact hq h
  · exact hp h

/-- A literal asks for the rest of it. -/
theorem asksAtMost_tag (t : Bytes) : AsksAtMost t.length (tag t) := by
  intro x n h
  simp only [tag, takeTag] at h
  split at h <;> cases h
  omega

theorem asksAtMost_tagNoCase (t : Bytes) : AsksAtMost t.length (tagNoCase t) := by
  intro x n h
  simp only [tagNoCase, takeTag] at h
  split at h <;> cases h
  omega

theorem asksAtMost_satisfyByte (kind : ErrorKind) (p : UInt8 → Bool) :
    AsksAtMost 1 (satisfyByte kind p) := by
  intro x n h
  cases x with
  | nil =>
    cases h
    exact Nat.le_refl 1
  | cons c rest =>
    simp only [satisfyByte] at h
    split at h <;> cases h

theorem asksAtMost_takeWhile1 (kind : ErrorKind) (p : UInt8 → Bool) :
    AsksAtMost 1 (takeWhile1 kind p) := by
  intro x n h
  simp only [takeWhile1] at h
  split at h
  · cases h
    exact Nat.le_refl 1
  · split at h <;> cases h

theorem asksAtMost_takeWhileMN (m n : Nat) (p : UInt8 → Bool) :
    AsksAtMost (max m 1) (takeWhileMN m n p) := by
  intro x j h
  simp only [takeWhileMN] at h
  split at h
  · split at h
    · split at h <;> cases h
    · cases h
  · split at h
    · cases h
    · injection h with h
      injection h with h
      subst h
      split <;> omega

theorem asksAtMost_takeWhile (p : UInt8 → Bool) : AsksAtMost 1 (takeWhile p) := by
  intro x n h
  simp only [takeWhile] at h
  split at h <;> cases h
  exact Nat.le_refl 1

theorem asksAtMost_lineEnding : AsksAtMost 2 lineEnding := by
  intro x n h
  simp only [lineEnding] at h
  split at h
  · cases h
  · cases h
    decide
  · split at h <;> cases h
    decide

theorem asksAtMost_notLineEnding : AsksAtMost 0 notLineEnding := by
  intro x n h
  simp only [notLineEnding] at h
  split at h
  · cases h
  · split at h
    · split at h <;> cases h
    · cases h

theorem asksAtMost_takeUntil (pat : Bytes) : AsksAtMost 0 (takeUntil pat) := by
  intro x n h
  simp only [takeUntil] at h
  split at h <;> cases h

/-! ## Repetition -/

theorem AsksAtMost.consuming {p : Parser α} (hp : AsksAtMost k p) (kind : ErrorKind) :
    AsksAtMost k (consuming kind p) := by
  intro x n h
  simp only [Nom.consuming] at h
  split at h
  · split at h <;> cases h
  · exact hp h

/-- What follows the input at hand does not matter. -/
theorem AsksAtMost.of_apply {p : Bytes → Parser α} (hp : ∀ x, AsksAtMost k (p x)) :
    AsksAtMost k fun x => p x x := fun x _ h => hp x h

theorem AsksAtMost.many1Loop {p : Parser α} (hp : AsksAtMost k p) (fuel : Nat) :
    AsksAtMost k (many1Loop p fuel) := by
  induction fuel with
  | zero => exact fun _ _ h => by cases h
  | succ fuel ih =>
    intro x n h
    simp only [Nom.many1Loop] at h
    split at h
    · cases h
    · next hask =>
      cases h
      exact hp hask
    · split at h
      · cases h
      · rcases IResult.bind_eq_incomplete.mp h with h | ⟨mid, as, -, h⟩
        · exact ih h
        · cases h

theorem AsksAtMost.many1 {p : Parser α} (hp : AsksAtMost k p) : AsksAtMost k (many1 p) :=
  hp.bind fun _ => AsksAtMost.bind (.of_apply fun _ => hp.many1Loop _) fun _ => .pure _

theorem AsksAtMost.manyTillLoop {f : Parser α} {g : Parser β} (hf : AsksAtMost k f)
    (hg : AsksAtMost k g) (fuel : Nat) : AsksAtMost k (manyTillLoop f g fuel) := by
  induction fuel with
  | zero => exact fun _ _ h => by cases h
  | succ fuel ih =>
    exact (hg.map _).alt_cons ((hf.consuming _).bind fun _ => ih.bind fun _ => .pure _)

theorem AsksAtMost.manyTill {f : Parser α} {g : Parser β} (hf : AsksAtMost k f)
    (hg : AsksAtMost k g) : AsksAtMost k (manyTill f g) :=
  AsksAtMost.of_apply (p := fun x => Nom.manyTillLoop f g (x.length + 1)) fun _ => hf.manyTillLoop hg _

theorem AsksAtMost.separatedLoop {sep : Parser β} {p : Parser α} (hsep : AsksAtMost k sep)
    (hp : AsksAtMost k p) (fuel : Nat) : AsksAtMost k (separatedLoop sep p fuel) := by
  induction fuel with
  | zero => exact fun _ _ h => by cases h
  | succ fuel ih =>
    intro x n h
    simp only [Nom.separatedLoop] at h
    split at h
    · cases h
    · next hask =>
      cases h
      exact hsep hask
    · split at h
      · cases h
      · split at h
        · cases h
        · next hask =>
          cases h
          exact hp hask
        · rcases IResult.bind_eq_incomplete.mp h with h | ⟨mid, as, -, h⟩
          · exact ih h
          · cases h

theorem AsksAtMost.separatedList0 {sep : Parser β} {p : Parser α} (hsep : AsksAtMost k sep)
    (hp : AsksAtMost k p) : AsksAtMost k (separatedList0 sep p) := by
  intro x n h
  simp only [Nom.separatedList0] at h
  split at h
  · cases h
  · next hask =>
    cases h
    exact hp hask
  · rcases IResult.bind_eq_incomplete.mp h with h | ⟨mid, as, -, h⟩
    · exact hsep.separatedLoop hp _ h
    · cases h

end Nom
