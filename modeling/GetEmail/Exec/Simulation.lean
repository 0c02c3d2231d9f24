-- SUMMARY: Computations over two states, one of which does what the other one does.
import GetEmail.Exec.Basic

/-!
# Simulation

A computation simulates another one when both come to the same end, in related states.
Where one of them waits or panics, nothing is said of the other one.
-/

namespace Exec

variable {ε σ τ α β : Type}

/-- The end of a computation, with what it came to -/
def settled (a : Except ε α) (s : σ) : EStateM.Result (Exit ε) σ α :=
  match a with
  | .ok a => .ok a s
  | .error e => .error (.error e) s

@[simp] theorem stateOf_settled (a : Except ε α) (s : σ) : stateOf (settled a s) = s := by
  cases a <;> rfl

theorem outcome_settled (a : Except ε α) (s : σ) :
    outcome (settled a s) = a.mapError Exit.error := by
  cases a <;> rfl

theorem map_settled {m : Exec ε σ α} {a : Except ε α} {s s' : σ} (f : α → β)
    (h : m s = settled a s') : (f <$> m) s = settled (f <$> a) s' := by
  rw [map_apply, h]
  cases a <;> rfl

theorem bind_settled {m : Exec ε σ α} {f : α → Exec ε σ β} {a : Except ε α} {s s' : σ}
    {g : α → Except ε β} (h : m s = settled a s') (hf : ∀ a, f a s' = settled (g a) s') :
    (m >>= f) s = settled (a >>= g) s' := by
  rw [bind_apply, h]
  cases a with
  | ok a => exact hf a
  | error e => rfl

/-- Both came to the same end, in related states, or one of them to none. -/
inductive Alike (R : σ → τ → Prop) :
    EStateM.Result (Exit ε) σ α → EStateM.Result (Exit ε) τ α → Prop where
  | ok {a : α} {s : σ} {t : τ} (h : R s t) : Alike R (.ok a s) (.ok a t)
  | error {e : ε} {s : σ} {t : τ} (h : R s t) : Alike R (.error (.error e) s) (.error (.error e) t)
  | left {x : Exit ε} {s : σ} {r : EStateM.Result (Exit ε) τ α} (h : ¬ x.IsError) :
      Alike R (.error x s) r
  | right {x : Exit ε} {t : τ} {r : EStateM.Result (Exit ε) σ α} (h : ¬ x.IsError) :
      Alike R r (.error x t)

/-- Started in related states, `m` and `m'` come to the same end. -/
def Simulates (R : σ → τ → Prop) (m : Exec ε σ α) (m' : Exec ε τ α) : Prop :=
  ∀ s t, R s t → Alike R (m s) (m' t)

variable {R : σ → τ → Prop} {m : Exec ε σ α} {m' : Exec ε τ α}

/-- A computation that returns has returned what the other one returns, if that ends. -/
theorem Alike.of_ok {a : α} {s : σ} {r : EStateM.Result (Exit ε) τ α}
    (h : Alike R (.ok a s) r) (hr : ∀ x, exit? r = some x → x.IsError) : ∃ t, r = .ok a t ∧ R s t := by
  cases h with
  | ok h => exact ⟨_, rfl, h⟩
  | right h => exact absurd (hr _ rfl) h

/-- When both came to their end, the outcomes are the same. -/
theorem Alike.ended {r : EStateM.Result (Exit ε) σ α} {r' : EStateM.Result (Exit ε) τ α}
    (h : Alike R r r') (hr : ∀ x, exit? r = some x → x.IsError)
    (hr' : ∀ x, exit? r' = some x → x.IsError) :
    outcome r = outcome r' ∧ R (stateOf r) (stateOf r') := by
  cases h with
  | ok h => exact ⟨rfl, h⟩
  | error h => exact ⟨rfl, h⟩
  | left h => exact absurd (hr _ rfl) h
  | right h => exact absurd (hr' _ rfl) h

namespace Simulates

theorem pure (a : α) : Simulates R (pure a : Exec ε σ α) (pure a) := fun _ _ h => .ok h

theorem fail (e : ε) : Simulates R (fail e : Exec ε σ α) (fail e) := fun _ _ h => .error h

theorem crash : Simulates R (crash : Exec ε σ α) m' := fun _ _ _ => .left id

theorem orCrash (a : Option α) : Simulates R (orCrash a : Exec ε σ α) (orCrash a) := by
  cases a with
  | none => exact crash
  | some a => exact pure a

theorem modify {f : σ → σ} {g : τ → τ} (h : ∀ s t, R s t → R (f s) (g t)) :
    Simulates R (modify f : Exec ε σ PUnit) (modify g) := fun s t hst => .ok (h s t hst)

theorem bind {f : α → Exec ε σ β} {f' : α → Exec ε τ β} (hm : Simulates R m m')
    (hf : ∀ a, Simulates R (f a) (f' a)) : Simulates R (m >>= f) (m' >>= f') := by
  intro s t hst
  have h := hm s t hst
  rw [bind_apply, bind_apply]
  generalize m s = r at h
  generalize m' t = r' at h
  cases h with
  | ok h => exact hf _ _ _ h
  | error h => exact .error h
  | left h => exact .left h
  | right h => exact .right h

theorem map (f : α → β) (hm : Simulates R m m') : Simulates R (f <$> m) (f <$> m') := by
  intro s t hst
  have h := hm s t hst
  rw [map_apply, map_apply]
  generalize m s = r at h
  generalize m' t = r' at h
  cases h with
  | ok h => exact .ok h
  | error h => exact .error h
  | left h => exact .left h
  | right h => exact .right h

theorem attempt (hm : Simulates R m m') : Simulates R (attempt m) (attempt m') := by
  intro s t hst
  have h := hm s t hst
  unfold Exec.attempt
  generalize m s = r at h
  generalize m' t = r' at h
  cases h with
  | ok h => exact .ok h
  | error h => exact .ok h
  | @left x _ _ h =>
    cases x with
    | error e => exact absurd trivial h
    | pending => exact .left id
    | panicked => exact .left id
  | @right x _ _ h =>
    cases x with
    | error e => exact absurd trivial h
    | pending => exact .right id
    | panicked => exact .right id

theorem mapError {ε' : Type} (f : ε → ε') (hm : Simulates R m m') :
    Simulates R (mapError f m) (mapError f m') := by
  intro s t hst
  have h := hm s t hst
  have hmap {x : Exit ε} (hx : ¬ x.IsError) : ¬ (x.map f).IsError := by cases x <;> exact hx
  unfold Exec.mapError
  generalize m s = r at h
  generalize m' t = r' at h
  cases h with
  | ok h => exact .ok h
  | error h => exact .error h
  | left h => exact .left (hmap h)
  | right h => exact .right (hmap h)

theorem ite {c : Prop} [Decidable c] {n : Exec ε σ α} {n' : Exec ε τ α} (hm : Simulates R m m')
    (hn : Simulates R n n') : Simulates R (if c then m else n) (if c then m' else n') := by
  split
  · exact hm
  · exact hn

theorem get_bind {f : σ → Exec ε σ α} {f' : τ → Exec ε τ α}
    (hf : ∀ s t, R s t → Simulates R (f s) (f' t)) : Simulates R (get >>= f) (get >>= f') := by
  intro s t hst
  rw [bind_apply, bind_apply, get_apply, get_apply]
  exact hf s t hst s t hst

theorem zoom {σ' τ' : Type} {R' : σ' → τ' → Prop} {get : σ' → σ} {set : σ → σ' → σ'}
    {get' : τ' → τ} {set' : τ → τ' → τ'} (hm : Simulates R m m')
    (hget : ∀ s t, R' s t → R (get s) (get' t))
    (hset : ∀ s t u v, R' s t → R u v → R' (set u s) (set' v t)) :
    Simulates R' (zoom get set m) (zoom get' set' m') := by
  intro s t hst
  have h := hm _ _ (hget s t hst)
  unfold Exec.zoom
  generalize m (get s) = r at h
  generalize m' (get' t) = r' at h
  cases h with
  | ok h => exact .ok (hset _ _ _ _ hst h)
  | error h => exact .error (hset _ _ _ _ hst h)
  | left h => exact .left h
  | right h => exact .right h

theorem foldlM {γ : Type} {f : β → γ → Exec ε σ β} {f' : β → γ → Exec ε τ β}
    (hf : ∀ b c, Simulates R (f b c) (f' b c)) (cs : List γ) (b : β) :
    Simulates R (cs.foldlM f b) (cs.foldlM f' b) := by
  induction cs generalizing b with
  | nil => exact .pure b
  | cons c cs ih =>
    rw [List.foldlM_cons, List.foldlM_cons]
    exact .bind (hf b c) ih

end Simulates

end Exec
