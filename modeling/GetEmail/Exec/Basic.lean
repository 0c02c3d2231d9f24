-- SUMMARY: Stateful computations that may fail, wait or panic, and their pre- and postconditions.
import Mathlib.Logic.Basic

/-!
# Suspendable computations

A computation over a state either returns a value, or exits. A computation that
waits exits as well: the state it leaves is the one that whoever abandons it is
left with.
-/

/-- Why a computation has no value. -/
inductive Exit (ε : Type) where
  | error (e : ε)
  | pending
  | panicked
  deriving DecidableEq, Repr

/-- The computation came to its end. -/
def Exit.IsError {ε : Type} : Exit ε → Prop
  | .error _ => True
  | _ => False

def Exit.map {ε ε' : Type} (f : ε → ε') : Exit ε → Exit ε'
  | .error e => .error (f e)
  | .pending => .pending
  | .panicked => .panicked

abbrev Exec (ε σ : Type) := EStateM (Exit ε) σ

namespace Exec

variable {ε σ τ α β : Type}

/-- Run to the outcome and the state left. -/
def fail (e : ε) : Exec ε σ α := fun s => .error (.error e) s

def wait : Exec ε σ α := fun s => .error .pending s

def crash : Exec ε σ α := fun s => .error .panicked s

/-- The value that a call of other code returns, or its panic. -/
def orCrash : Option α → Exec ε σ α
  | some a => pure a
  | none => crash

/-- The error of `m` as a value. The other exits stay exits. -/
def attempt (m : Exec ε σ α) : Exec ε σ (Except ε α) := fun s =>
  match m s with
  | .ok a s' => .ok (.ok a) s'
  | .error (.error e) s' => .ok (.error e) s'
  | .error .pending s' => .error .pending s'
  | .error .panicked s' => .error .panicked s'

/-- Run `m` on a part of the state. -/
def zoom (get : σ → τ) (set : τ → σ → σ) (m : Exec ε τ α) : Exec ε σ α := fun s =>
  match m (get s) with
  | .ok a t => .ok a (set t s)
  | .error x t => .error x (set t s)

/-- Run `m`, and report its errors as `f` makes them. -/
def mapError {ε' : Type} (f : ε → ε') (m : Exec ε σ α) : Exec ε' σ α := fun s =>
  match m s with
  | .ok a s' => .ok a s'
  | .error x s' => .error (x.map f) s'

@[simp] theorem pure_apply (a : α) (s : σ) : (pure a : Exec ε σ α) s = .ok a s := rfl

@[simp] theorem bind_apply (m : Exec ε σ α) (f : α → Exec ε σ β) (s : σ) :
    (m >>= f) s = match m s with
      | .ok a s' => f a s'
      | .error x s' => .error x s' := by
  simp only [bind, EStateM.bind]
  cases m s <;> rfl

@[simp] theorem map_apply (f : α → β) (m : Exec ε σ α) (s : σ) :
    (f <$> m) s = match m s with
      | .ok a s' => .ok (f a) s'
      | .error x s' => .error x s' := by
  simp only [Functor.map, EStateM.map]
  cases m s <;> rfl

@[simp] theorem get_apply (s : σ) : (get : Exec ε σ σ) s = .ok s s := rfl
@[simp] theorem modify_apply (f : σ → σ) (s : σ) :
    (modify f : Exec ε σ PUnit) s = .ok ⟨⟩ (f s) := rfl
@[simp] theorem fail_apply (e : ε) (s : σ) :
    (fail e : Exec ε σ α) s = .error (.error e) s := rfl
@[simp] theorem wait_apply (s : σ) : (wait : Exec ε σ α) s = .error .pending s := rfl
@[simp] theorem crash_apply (s : σ) : (crash : Exec ε σ α) s = .error .panicked s := rfl
@[simp] theorem orCrash_some (a : α) : (orCrash (some a) : Exec ε σ α) = pure a := rfl
@[simp] theorem orCrash_none : (orCrash none : Exec ε σ α) = crash := rfl

@[simp] theorem if_apply (c : Prop) [Decidable c] (m m' : Exec ε σ α) (s : σ) :
    (if c then m else m') s = if c then m s else m' s := by
  split <;> rfl

/-- A sequence returns a value only when both parts do. -/
theorem bind_eq_ok {m : Exec ε σ α} {f : α → Exec ε σ β} {s s'' : σ} {b : β} :
    (m >>= f) s = .ok b s'' ↔ ∃ a s', m s = .ok a s' ∧ f a s' = .ok b s'' := by
  rw [bind_apply]
  cases m s <;> simp [and_assoc]

theorem bind_eq_error {m : Exec ε σ α} {f : α → Exec ε σ β} {s s'' : σ} {x : Exit ε} :
    (m >>= f) s = .error x s'' ↔
      m s = .error x s'' ∨ ∃ a s', m s = .ok a s' ∧ f a s' = .error x s'' := by
  rw [bind_apply]
  cases m s <;> simp [and_assoc]

theorem attempt_eq_error {m : Exec ε σ α} {s s' : σ} {e : ε} :
    attempt m s = .ok (.error e) s' ↔ m s = .error (.error e) s' := by
  unfold attempt
  split <;> simp_all

/-- No error is left to be reported. -/
theorem attempt_exit {m : Exec ε σ α} {s s' : σ} {x : Exit ε} (h : attempt m s = .error x s') :
    ¬ x.IsError := by
  unfold attempt at h
  split at h <;> cases h <;> exact id

/-! ## Results -/

/-- The value of a result, if it has one. -/
def value? : EStateM.Result (Exit ε) σ α → Option α
  | .ok a _ => some a
  | .error _ _ => none

def exit? : EStateM.Result (Exit ε) σ α → Option (Exit ε)
  | .ok _ _ => none
  | .error x _ => some x

def stateOf : EStateM.Result (Exit ε) σ α → σ
  | .ok _ s => s
  | .error _ s => s

/-- The value or the exit, without the state. -/
def outcome : EStateM.Result (Exit ε) σ α → Except (Exit ε) α
  | .ok a _ => .ok a
  | .error x _ => .error x

@[simp] theorem exit?_map (f : α → β) (m : Exec ε σ α) (s : σ) :
    exit? ((f <$> m) s) = exit? (m s) := by
  rw [map_apply]
  cases m s <;> rfl

@[simp] theorem stateOf_map (f : α → β) (m : Exec ε σ α) (s : σ) :
    stateOf ((f <$> m) s) = stateOf (m s) := by
  rw [map_apply]
  cases m s <;> rfl

/-- What follows leaves the state alone. -/
theorem stateOf_bind {m : Exec ε σ α} {f : α → Exec ε σ β} (hf : ∀ a s, stateOf (f a s) = s)
    (s : σ) : stateOf ((m >>= f) s) = stateOf (m s) := by
  rw [bind_apply]
  cases m s with
  | ok a s' => exact hf a s'
  | error x s' => rfl

theorem eq_ok_of_value? {r : EStateM.Result (Exit ε) σ α} {a : α} (h : value? r = some a) :
    r = .ok a (stateOf r) := by
  cases r <;> cases h
  rfl

theorem eq_error_of_exit? {r : EStateM.Result (Exit ε) σ α} {x : Exit ε} (h : exit? r = some x) :
    r = .error x (stateOf r) := by
  cases r <;> cases h
  rfl

/-! ## Pre- and postconditions -/

/-- From a state in `P`, a value of `m` satisfies `Q`, and an exit satisfies `E`. -/
def Triple (P : σ → Prop) (m : Exec ε σ α) (Q : α → σ → Prop) (E : Exit ε → σ → Prop) : Prop :=
  ∀ s, P s → match m s with
    | .ok a s' => Q a s'
    | .error x s' => E x s'

variable {P P' : σ → Prop} {m : Exec ε σ α} {Q Q' : α → σ → Prop} {E E' : Exit ε → σ → Prop}

theorem Triple.ok (h : Triple P m Q E) {s s' : σ} {a : α} (hs : P s) (hm : m s = .ok a s') : Q a s' := by
  have := h s hs
  rwa [hm] at this

theorem Triple.exit (h : Triple P m Q E) {s s' : σ} {x : Exit ε} (hs : P s) (hm : m s = .error x s') :
    E x s' := by
  have := h s hs
  rwa [hm] at this

theorem Triple.consequence (h : Triple P m Q E) (hpre : ∀ s, P' s → P s)
    (hpost : ∀ a s, Q a s → Q' a s) (hexit : ∀ x s, E x s → E' x s) : Triple P' m Q' E' := by
  intro s hs
  have := h s (hpre s hs)
  split at this
  · exact hpost _ _ this
  · exact hexit _ _ this

theorem Triple.trivial : Triple P m (fun _ _ => True) fun _ _ => True := by
  intro s _
  split <;> exact True.intro

theorem Triple.pure {a : α} (h : ∀ s, P s → Q a s) : Triple P (pure a : Exec ε σ α) Q E := h

theorem Triple.fail {e : ε} (h : ∀ s, P s → E (.error e) s) : Triple P (fail e : Exec ε σ α) Q E := h

theorem Triple.get {Q : σ → σ → Prop} (h : ∀ s, P s → Q s s) :
    Triple P (get : Exec ε σ σ) Q E := h

theorem Triple.modify {f : σ → σ} {Q : PUnit → σ → Prop} (h : ∀ s, P s → Q ⟨⟩ (f s)) :
    Triple P (modify f : Exec ε σ PUnit) Q E := h

/-- The state between the two parts of a sequence is described by `R`. -/
theorem Triple.bind {f : α → Exec ε σ β} {R : α → σ → Prop} {Q : β → σ → Prop}
    (hm : Triple P m R E) (hf : ∀ a, Triple (R a) (f a) Q E) : Triple P (m >>= f) Q E := by
  intro s hs
  have h := hm s hs
  rw [bind_apply]
  cases hms : m s with
  | ok a s' =>
    rw [hms] at h
    exact hf a s' h
  | error x s' =>
    rw [hms] at h
    exact h

theorem Triple.map {f : α → β} {Q : β → σ → Prop} (hm : Triple P m (fun a => Q (f a)) E) :
    Triple P (f <$> m) Q E := by
  intro s hs
  have h := hm s hs
  rw [map_apply]
  cases hms : m s with
  | ok a s' => rwa [hms] at h
  | error x s' => rwa [hms] at h

/-- `Q` of a value, `F` after an error. -/
def Attempted (Q : α → σ → Prop) (F : σ → Prop) : Except ε α → σ → Prop
  | .ok a => Q a
  | .error _ => F

theorem Triple.attempt {Q : Except ε α → σ → Prop} (h : Triple P m (fun a => Q (.ok a))
    fun x s => match x with
      | .error e => Q (.error e) s
      | x => E x s) : Triple P (attempt m) Q E := by
  intro s hs
  have h := h s hs
  unfold Exec.attempt
  cases hms : m s with
  | ok a s' => rwa [hms] at h
  | error x s' =>
    rw [hms] at h
    cases x <;> exact h

theorem Triple.zoom {get : σ → τ} {set : τ → σ → σ} {m : Exec ε τ α}
    (h : ∀ s, P s → Triple (· = get s) m (fun a t => Q a (set t s)) fun x t => E x (set t s)) :
    Triple P (zoom get set m) Q E := by
  intro s hs
  have h := h s hs (get s) rfl
  unfold Exec.zoom
  cases hms : m (get s) with
  | ok a t => rwa [hms] at h
  | error x t => rwa [hms] at h

theorem Triple.ite {c : Prop} [Decidable c] {m' : Exec ε σ α}
    (ht : c → Triple P m Q E) (hf : ¬ c → Triple P m' Q E) :
    Triple P (if c then m else m') Q E := by
  split
  · next h => exact ht h
  · next h => exact hf h

theorem Triple.crash (h : ∀ s, P s → E .panicked s) : Triple P (crash : Exec ε σ α) Q E := h

/-- What holds of the state that is left, whatever the outcome. -/
theorem Triple.of_stateOf {I : σ → Prop} (h : ∀ s, P s → I (stateOf (m s))) :
    Triple P m (fun _ => I) fun _ => I := by
  intro s hs
  have h := h s hs
  cases hms : m s <;> rwa [hms] at h

theorem Triple.stateOf {I : σ → Prop} (h : Triple P m (fun _ => I) fun _ => I) {s : σ} (hs : P s) :
    I (stateOf (m s)) := by
  have h := h s hs
  cases hms : m s <;> rwa [hms] at h

theorem Triple.and (h : Triple P m Q E) (h' : Triple P' m Q' E') :
    Triple (fun s => P s ∧ P' s) m (fun a s => Q a s ∧ Q' a s) fun x s => E x s ∧ E' x s := by
  rintro s ⟨hs, hs'⟩
  have h := h s hs
  have h' := h' s hs'
  cases hms : m s <;> simp only [hms] at h h' ⊢ <;> exact ⟨h, h'⟩

theorem Triple.or (h : Triple P m Q E) (h' : Triple P' m Q' E') :
    Triple (fun s => P s ∨ P' s) m (fun a s => Q a s ∨ Q' a s) fun x s => E x s ∨ E' x s := by
  rintro s (hs | hs)
  · have h := h s hs
    cases hms : m s <;> simp only [hms] at h ⊢ <;> exact .inl h
  · have h' := h' s hs
    cases hms : m s <;> simp only [hms] at h' ⊢ <;> exact .inr h'

/-- Facts about the state may be used to prove a triple. -/
theorem Triple.of_pre (h : ∀ s, P s → Triple (· = s) m Q E) : Triple P m Q E :=
  fun s hs => h s hs s rfl

/-- A fact that does not depend on the state. -/
theorem Triple.assume {p : Prop} (h : p → Triple P m Q E) : Triple (fun s => P s ∧ p) m Q E :=
  fun s hs => h hs.2 s hs.1

/-! ## Exits -/

/-- Wherever `m` is started, an exit of it satisfies `E`. -/
def Exits (m : Exec ε σ α) (E : Exit ε → σ → Prop) : Prop :=
  Triple (fun _ => True) m (fun _ _ => True) E

theorem Exits.pure (a : α) : Exits (pure a : Exec ε σ α) E := fun _ _ => trivial

theorem Exits.fail {e : ε} (h : ∀ s, E (.error e) s) : Exits (fail e : Exec ε σ α) E := fun s _ => h s

theorem Exits.crash (h : ∀ s, E .panicked s) : Exits (crash : Exec ε σ α) E := fun s _ => h s

theorem Exits.get : Exits (get : Exec ε σ σ) E := fun _ _ => trivial

theorem Exits.modify {f : σ → σ} : Exits (modify f : Exec ε σ PUnit) E := fun _ _ => trivial

theorem Exits.bind {f : α → Exec ε σ β} (hm : Exits m E) (hf : ∀ a, Exits (f a) E) :
    Exits (m >>= f) E := Triple.bind hm hf

theorem Exits.ite {c : Prop} [Decidable c] {m' : Exec ε σ α} (hm : Exits m E) (hm' : Exits m' E) :
    Exits (if c then m else m') E := Triple.ite (fun _ => hm) fun _ => hm'

theorem Exits.zoom {get : σ → τ} {set : τ → σ → σ} {m : Exec ε τ α}
    (hm : ∀ s, Exits m fun x t => E x (set t s)) : Exits (zoom get set m) E :=
  Triple.zoom fun s _ => (hm s).consequence (fun _ _ => trivial) (fun _ _ h => h) fun _ _ h => h

/-- An error that was caught is one of `m`. -/
theorem Exits.attempt {F : Exit ε → Prop} (hm : Exits m fun x _ => F x) :
    Triple (fun _ => True) (attempt m) (fun result _ => ∀ e, result = .error e → F (.error e))
      fun x _ => F x :=
  Triple.attempt (hm.consequence (fun _ h => h) (fun _ _ _ => nofun) fun x _ h => by
    cases x with
    | error e =>
      rintro _ ⟨⟩
      exact h
    | pending => exact h
    | panicked => exact h)

theorem Exits.mono (hm : Exits m E) (h : ∀ x s, E x s → E' x s) : Exits m E' :=
  hm.consequence (fun _ hs => hs) (fun _ _ hs => hs) h

/-! ## Invariants -/

/-- `m` keeps `P` when it returns, and when it ends with an exit that counts. -/
def Keeps (counts : Exit ε → Prop) (P : σ → Prop) (m : Exec ε σ α) : Prop :=
  Triple P m (fun _ => P) fun x s => counts x → P s

variable {counts : Exit ε → Prop}

/-- The exits may be left out. -/
theorem Keeps.value (h : Keeps counts P m) :
    Triple P m (fun _ => P) fun _ _ => True :=
  h.consequence (fun _ hs => hs) (fun _ _ hs => hs) fun _ _ _ => trivial

theorem Keeps.true : Keeps counts (fun _ => True) m := by
  intro s _
  split
  · trivial
  · exact fun _ => trivial

theorem Keeps.and {P' : σ → Prop} (h : Keeps counts P m) (h' : Keeps counts P' m) :
    Keeps counts (fun s => P s ∧ P' s) m :=
  (Triple.and h h').consequence (fun _ hs => hs) (fun _ _ hs => hs) fun _ _ hs hx =>
    ⟨hs.1 hx, hs.2 hx⟩

theorem Keeps.pure (a : α) : Keeps counts P (pure a : Exec ε σ α) := Triple.pure fun _ hs => hs

theorem Keeps.fail (e : ε) : Keeps counts P (fail e : Exec ε σ α) :=
  Triple.fail fun _ hs _ => hs

theorem Keeps.orCrash (a : Option α) : Keeps counts P (orCrash a : Exec ε σ α) := by
  cases a with
  | none => exact Triple.crash fun _ hs _ => hs
  | some a => exact .pure a

theorem Keeps.get : Keeps counts P (get : Exec ε σ σ) := Triple.get fun _ hs => hs

theorem Keeps.modify {f : σ → σ} (h : ∀ s, P s → P (f s)) :
    Keeps counts P (modify f : Exec ε σ PUnit) := Triple.modify h

theorem Keeps.bind {f : α → Exec ε σ β} (hm : Keeps counts P m)
    (hf : ∀ a, Keeps counts P (f a)) : Keeps counts P (m >>= f) := Triple.bind hm hf

/-- The errors that are caught have to count. -/
theorem Keeps.attempt (hcounts : ∀ e, counts (.error e)) (hm : Keeps counts P m) :
    Keeps counts P (attempt m) :=
  Triple.attempt (hm.consequence (fun _ hs => hs) (fun _ _ hs => hs) fun x _ hs => by
    cases x with
    | error e => exact hs (hcounts e)
    | pending => exact hs
    | panicked => exact hs)

theorem Keeps.ite {c : Prop} [Decidable c] {m' : Exec ε σ α} (hm : Keeps counts P m)
    (hm' : Keeps counts P m') : Keeps counts P (if c then m else m') :=
  Triple.ite (fun _ => hm) fun _ => hm'

/-- The part keeps `R`, which is all that `P` asks of it. -/
theorem Keeps.zoom {R : τ → Prop} {get : σ → τ} {set : τ → σ → σ} {m : Exec ε τ α}
    (hm : Keeps counts R m) (hget : ∀ s, P s → R (get s))
    (hset : ∀ s t, P s → R t → P (set t s)) : Keeps counts P (zoom get set m) :=
  Triple.zoom fun s hs => hm.consequence (fun _ ht => ht ▸ hget s hs)
    (fun _ t ht => hset s t hs ht) fun _ t ht hx => hset s t hs (ht hx)

/-- What every turn keeps, the loop keeps. -/
theorem Keeps.foldlM {γ : Type} {f : β → γ → Exec ε σ β} (hf : ∀ b c, Keeps counts P (f b c))
    (cs : List γ) (b : β) : Keeps counts P (cs.foldlM f b) := by
  induction cs generalizing b with
  | nil => exact .pure b
  | cons c cs ih =>
    rw [List.foldlM_cons]
    exact .bind (hf b c) ih

end Exec
