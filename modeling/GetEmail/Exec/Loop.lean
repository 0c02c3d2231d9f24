-- SUMMARY: Loops of computations, with their invariant rule and their meaning without fuel.
import GetEmail.Exec.Basic

/-!
# Loops

A turn of the loop either carries a value on to the next turn or returns. `fuel`
bounds the number of turns; a loop that uses it up is left waiting.
-/

namespace Exec

variable {ε σ α β : Type}

def loop (turn : β → Exec ε σ (β ⊕ α)) : Nat → β → Exec ε σ α
  | 0, _ => wait
  | fuel + 1, b => do
    match ← turn b with
    | .inl b => loop turn fuel b
    | .inr a => return a

section

variable {turn : β → Exec ε σ (β ⊕ α)}

theorem loop_succ (fuel : Nat) (b : β) (s : σ) :
    loop turn (fuel + 1) b s = match turn b s with
      | .ok (.inl b') s' => loop turn fuel b' s'
      | .ok (.inr a) s' => .ok a s'
      | .error x s' => .error x s' := by
  simp only [loop, bind_apply]
  cases turn b s with
  | ok r s' => cases r <;> rfl
  | error x s' => rfl

/-! ## The rule for total correctness -/

variable {I : β → σ → Prop} {Q : α → σ → Prop} {E : Exit ε → σ → Prop}

/-- The fuel suffices when each turn makes `size` smaller. -/
theorem Triple.loop_of_decreases (size : β → σ → Nat)
    (hturn : ∀ b n, Triple (fun s => I b s ∧ size b s = n) (turn b)
      (fun r s => r.elim (fun b' => I b' s ∧ size b' s < n) (Q · s)) E) (fuel : Nat) (b : β) :
    Triple (fun s => I b s ∧ size b s < fuel) (Exec.loop turn fuel b) Q E := by
  induction fuel generalizing b with
  | zero => exact fun s hs => absurd hs.2 (Nat.not_lt_zero _)
  | succ fuel ih =>
    refine Triple.of_pre fun s hs => ?_
    refine Triple.bind ((hturn b (size b s)).consequence ?_ (fun _ _ h => h) fun _ _ h => h)
      fun r => ?_
    · rintro _ rfl
      exact ⟨hs.1, rfl⟩
    · cases r with
      | inl b' =>
        refine (ih b').consequence ?_ (fun _ _ h => h) fun _ _ h => h
        exact fun s' hs' => ⟨hs'.1, by have := hs'.2; omega⟩
      | inr a => exact Triple.pure fun s' hs' => hs'

/-! ## The rule for partial correctness -/

/-- A loop that uses up its fuel is left waiting. -/
theorem Triple.loop (hturn : ∀ b, Triple (I b) (turn b) (fun r s => r.elim (I · s) (Q · s)) E)
    (hwait : ∀ b s, I b s → E .pending s) (fuel : Nat) (b : β) :
    Triple (I b) (Exec.loop turn fuel b) Q E := by
  induction fuel generalizing b with
  | zero => exact hwait b
  | succ fuel ih =>
    refine Triple.bind (hturn b) fun r => ?_
    cases r with
    | inl b' => exact ih b'
    | inr a => exact Triple.pure fun _ hs => hs

theorem Exits.loop (hturn : ∀ b, Exits (turn b) E) (hwait : ∀ s, E .pending s) (fuel : Nat)
    (b : β) : Exits (Exec.loop turn fuel b) E :=
  Triple.loop (I := fun _ _ => True) (fun b => (hturn b).consequence (fun _ _ => trivial)
    (fun r _ _ => by cases r <;> trivial) fun _ _ h => h) (fun _ s _ => hwait s) fuel b

/-- A loop keeps what its turns keep. -/
theorem Keeps.loop {counts : Exit ε → Prop} {P : σ → Prop} (hturn : ∀ b, Keeps counts P (turn b))
    (fuel : Nat) (b : β) : Keeps counts P (Exec.loop turn fuel b) := by
  refine Triple.loop (I := fun _ => P) (fun b => ?_) (fun _ _ hs _ => hs) fuel b
  refine (hturn b).consequence (fun _ hs => hs) (fun r _ hs => ?_) fun _ _ hs => hs
  cases r <;> exact hs

/-! ## Loops without fuel -/

/-- The loop started with `b` in `s` has the result `r`. -/
inductive Runs (turn : β → Exec ε σ (β ⊕ α)) : β → σ → EStateM.Result (Exit ε) σ α → Prop where
  | done {b : β} {s s' : σ} {a : α} (h : turn b s = .ok (.inr a) s') : Runs turn b s (.ok a s')
  | exit {b : β} {s s' : σ} {x : Exit ε} (h : turn b s = .error x s') : Runs turn b s (.error x s')
  | again {b b' : β} {s s' : σ} {r : EStateM.Result (Exit ε) σ α}
      (h : turn b s = .ok (.inl b') s') (hrest : Runs turn b' s' r) : Runs turn b s r

/-- With enough fuel a loop has its result. -/
theorem loop_runs (size : β → σ → Nat)
    (hturn : ∀ b s b' s', I b s → turn b s = .ok (.inl b') s' → I b' s' ∧ size b' s' < size b s)
    {fuel : Nat} {b : β} {s : σ} (hinv : I b s) (hfuel : size b s < fuel) :
    Runs turn b s (loop turn fuel b s) := by
  induction fuel generalizing b s with
  | zero => exact absurd hfuel (Nat.not_lt_zero _)
  | succ fuel ih =>
    rw [loop_succ]
    cases h : turn b s with
    | error x s' => exact .exit h
    | ok r s' =>
      cases r with
      | inr a => exact .done h
      | inl b' =>
        obtain ⟨hinv', hsize⟩ := hturn b s b' s' hinv h
        exact .again h (ih hinv' (by omega))

end

end Exec
