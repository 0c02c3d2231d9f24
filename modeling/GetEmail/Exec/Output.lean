-- SUMMARY: What a computation puts out: all of it when it returns, and a first part when it exits.
import GetEmail.Exec.Basic

/-!
# Output

Some part of the state only ever grows, at its end. A computation puts out a text when it
has added all of the text where it returns, and a first part of it where it exits.
-/

namespace Exec

variable {ε σ α β δ : Type}

theorem map_eq_ok {f : α → β} {m : Exec ε σ α} {s s' : σ} {b : β} :
    (f <$> m) s = .ok b s' ↔ ∃ a, m s = .ok a s' ∧ f a = b := by
  rw [map_apply]
  cases m s with
  | ok a t =>
    constructor
    · rintro ⟨⟩
      exact ⟨a, rfl, rfl⟩
    · rintro ⟨_, ⟨⟩, rfl⟩
      rfl
  | error x t => simp

/-- To `before` the text was added, or a first part of it if there is no value. -/
def Emitted (out : σ → List δ) (before text : List δ) : EStateM.Result (Exit ε) σ α → Prop
  | .ok _ s => out s = before ++ text
  | .error _ s => ∃ part, part <+: text ∧ out s = before ++ part

/-- Nothing is put out, whatever the end. -/
def Silent (out : σ → List δ) (m : Exec ε σ α) : Prop := ∀ s, out (stateOf (m s)) = out s

namespace Silent

variable {out : σ → List δ} {m : Exec ε σ α}

theorem pure (a : α) : Silent out (pure a : Exec ε σ α) := fun _ => rfl

theorem bind {f : α → Exec ε σ β} (hm : Silent out m) (hf : ∀ a, Silent out (f a)) :
    Silent out (m >>= f) := by
  intro s
  have hm := hm s
  rw [bind_apply]
  cases h : m s with
  | ok a s' =>
    rw [h] at hm
    exact (hf a s').trans hm
  | error x s' => rwa [h] at hm

theorem mapError {ε' : Type} (f : ε → ε') (hm : Silent out m) : Silent out (mapError f m) := by
  intro s
  have hm := hm s
  unfold Exec.mapError
  cases h : m s <;> rw [h] at hm <;> exact hm

/-- On a part of the state that the output has nothing to do with -/
theorem zoom {τ : Type} {get : τ → σ} {set : σ → τ → τ} {out' : τ → List δ}
    (hset : ∀ s t, out' (set s t) = out' t) (m : Exec ε σ α) : Silent out' (zoom get set m) := by
  intro t
  unfold Exec.zoom
  cases m (get t) <;> exact hset _ t

end Silent

namespace Emitted

variable {out : σ → List δ} {before text text' : List δ} {m : Exec ε σ α} {s : σ}

theorem error {part : List δ} {x : Exit ε} (hpart : part <+: text) (hs : out s = before ++ part) :
    Emitted out before text (.error x s : EStateM.Result _ _ α) := ⟨part, hpart, hs⟩

/-- A first part was put out, whatever the end, and all of it with a value. -/
theorem part {r : EStateM.Result (Exit ε) σ α} (h : Emitted out before text r) :
    ∃ part, part <+: text ∧ out (stateOf r) = before ++ part ∧ ∀ a s, r = .ok a s → part = text := by
  cases r with
  | ok a s => exact ⟨text, List.prefix_rfl, h, fun _ _ _ => rfl⟩
  | error x s =>
    obtain ⟨part, hpart, hs⟩ := h
    exact ⟨part, hpart, hs, fun _ _ h => by cases h⟩

/-- What follows is only asked about where it is come to. -/
theorem bind {f : α → Exec ε σ β} (hm : Emitted out before text (m s))
    (hf : ∀ a s', m s = .ok a s' → Emitted out (out s') text' (f a s')) :
    Emitted out before (text ++ text') ((m >>= f) s) := by
  rw [bind_apply]
  cases h : m s with
  | ok a s' =>
    rw [h] at hm
    have hf := hf a s' h
    rw [show out s' = before ++ text from hm] at hf
    dsimp only
    cases hr : f a s' with
    | ok b s'' =>
      rw [hr] at hf
      exact hf.trans (List.append_assoc ..)
    | error x s'' =>
      rw [hr] at hf
      obtain ⟨part, hpart, hs⟩ := hf
      exact .error ((List.prefix_append_right_inj text).mpr hpart) (hs.trans (List.append_assoc ..))
  | error x s' =>
    rw [h] at hm
    obtain ⟨part, hpart, hs⟩ := hm
    exact .error (hpart.trans (List.prefix_append ..)) hs

/-- What follows puts nothing out. -/
theorem bind_silent {f : α → Exec ε σ β} (hm : Emitted out before text (m s))
    (hf : ∀ a, Silent out (f a)) : Emitted out before text ((m >>= f) s) := by
  have hsilent (a : α) (s' : σ) : Emitted out (out s') [] (f a s') := by
    have hf := hf a s'
    cases h : f a s' with
    | ok b s'' => rw [h] at hf; exact hf.trans (List.append_nil _).symm
    | error x s'' => rw [h] at hf; exact .error List.prefix_rfl (hf.trans (List.append_nil _).symm)
  have h := hm.bind fun a s' _ => hsilent a s'
  rwa [List.append_nil] at h

theorem mapError {ε' : Type} (f : ε → ε') (hm : Emitted out before text (m s)) :
    Emitted out before text (mapError f m s) := by
  unfold Exec.mapError
  cases h : m s <;> rw [h] at hm <;> exact hm

end Emitted

end Exec
