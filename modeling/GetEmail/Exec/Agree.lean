-- SUMMARY: Two computations that agree wherever a precondition holds.
import GetEmail.Exec.Basic

/-!
# Agreement

To replace a part of a program by another one, the two have to agree only in the
states that the program can be in at that point. The rules carry what is known of
these states along, as the rules for triples do.
-/

namespace Exec

variable {ε σ τ α β : Type}

/-- `m'` does what `m` does wherever it is started in `P`, and `m` is described by a
triple. -/
structure Agree (P : σ → Prop) (m m' : Exec ε σ α) (Q : α → σ → Prop) (E : Exit ε → σ → Prop) :
    Prop where
  triple : Triple P m Q E
  eq (s : σ) : P s → m' s = m s

section

variable {P P' : σ → Prop} {m m' : Exec ε σ α} {Q Q' : α → σ → Prop} {E E' : Exit ε → σ → Prop}

theorem Agree.refl (h : Triple P m Q E) : Agree P m m Q E := ⟨h, fun _ _ => rfl⟩

theorem Agree.consequence (h : Agree P m m' Q E) (hpre : ∀ s, P' s → P s)
    (hpost : ∀ a s, Q a s → Q' a s) (hexit : ∀ x s, E x s → E' x s) : Agree P' m m' Q' E' :=
  ⟨h.triple.consequence hpre hpost hexit, fun s hs => h.eq s (hpre s hs)⟩

theorem Agree.bind {f f' : α → Exec ε σ β} {R : α → σ → Prop} {Q : β → σ → Prop}
    (hm : Agree P m m' R E) (hf : ∀ a, Agree (R a) (f a) (f' a) Q E) :
    Agree P (m >>= f) (m' >>= f') Q E := by
  refine ⟨.bind hm.triple fun a => (hf a).triple, fun s hs => ?_⟩
  have h := hm.triple s hs
  rw [bind_apply, bind_apply, hm.eq s hs]
  cases hms : m s with
  | ok a s' =>
    rw [hms] at h
    exact (hf a).eq s' h
  | error x s' => rfl

theorem Agree.map {f : α → β} {Q : β → σ → Prop} (hm : Agree P m m' (fun a => Q (f a)) E) :
    Agree P (f <$> m) (f <$> m') Q E :=
  ⟨.map hm.triple, fun s hs => by rw [map_apply, map_apply, hm.eq s hs]⟩

theorem Agree.attempt {Q : Except ε α → σ → Prop} (h : Agree P m m' (fun a => Q (.ok a))
    fun x s => match x with
      | .error e => Q (.error e) s
      | x => E x s) : Agree P (attempt m) (attempt m') Q E :=
  ⟨.attempt h.triple, fun s hs => by rw [Exec.attempt, Exec.attempt, h.eq s hs]⟩

theorem Agree.zoom {get : σ → τ} {set : τ → σ → σ} {m m' : Exec ε τ α}
    (h : ∀ s, P s → Agree (· = get s) m m' (fun a t => Q a (set t s)) fun x t => E x (set t s)) :
    Agree P (zoom get set m) (zoom get set m') Q E :=
  ⟨.zoom fun s hs => (h s hs).triple,
    fun s hs => by rw [Exec.zoom, Exec.zoom, (h s hs).eq (get s) rfl]⟩

theorem Agree.ite {c : Prop} [Decidable c] {n n' : Exec ε σ α} (ht : c → Agree P m m' Q E)
    (hf : ¬ c → Agree P n n' Q E) : Agree P (if c then m else n) (if c then m' else n') Q E := by
  split
  · next h => exact ht h
  · next h => exact hf h

theorem Agree.of_pre (h : ∀ s, P s → Agree (· = s) m m' Q E) : Agree P m m' Q E :=
  ⟨.of_pre fun s hs => (h s hs).triple, fun s hs => (h s hs).eq s rfl⟩

end

/-! ## Invariants -/

/-- `m` keeps `P`, and `m'` does the same. -/
abbrev Agrees (counts : Exit ε → Prop) (P : σ → Prop) (m m' : Exec ε σ α) : Prop :=
  Agree P m m' (fun _ => P) fun x s => counts x → P s

section

variable {counts : Exit ε → Prop} {P : σ → Prop} {m m' : Exec ε σ α}

theorem Agrees.refl (h : Keeps counts P m) : Agrees counts P m m := Agree.refl h

/-- The exits may be left out. -/
theorem Agree.of_keeps (h : Keeps (fun _ => True) P m) :
    Agree P m m (fun _ => P) fun _ _ => True := .refl h.value

theorem Agrees.keeps (h : Agrees counts P m m') : Keeps counts P m := h.triple

theorem Agrees.bind {f f' : α → Exec ε σ β} (hm : Agrees counts P m m')
    (hf : ∀ a, Agrees counts P (f a) (f' a)) : Agrees counts P (m >>= f) (m' >>= f') :=
  Agree.bind hm hf

theorem Agrees.map {f : α → β} (hm : Agrees counts P m m') :
    Agrees counts P (f <$> m) (f <$> m') := Agree.map hm

theorem Agrees.attempt (hcounts : ∀ e, counts (.error e)) (hm : Agrees counts P m m') :
    Agrees counts P (attempt m) (attempt m') :=
  Agree.attempt (hm.consequence (fun _ hs => hs) (fun _ _ hs => hs) fun x _ hs => by
    cases x with
    | error e => exact hs (hcounts e)
    | pending => exact hs
    | panicked => exact hs)

end

end Exec
