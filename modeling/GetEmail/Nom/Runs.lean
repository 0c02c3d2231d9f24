-- SUMMARY: What the run and repetition combinators give on an input of known shape.
import GetEmail.Nom.Stable

/-!
# Runs of bytes

A streaming run is complete in front of a byte that ends it. On an input cut
into the run and what follows, each run combinator has an equation; a repetition
reads a list of items up to its end.
-/

namespace Nom

variable {α β : Type}

/-- At least one byte, and all of them satisfy `p`. -/
structure Run (p : UInt8 → Bool) (a : Bytes) : Prop where
  ne_nil : a ≠ []
  all : ∀ c ∈ a, p c = true

instance (p : UInt8 → Bool) (a : Bytes) : Decidable (Run p a) :=
  decidable_of_iff (a ≠ [] ∧ a.all p = true)
    ⟨fun h => ⟨h.1, List.all_eq_true.mp h.2⟩, fun h => ⟨h.1, List.all_eq_true.mpr h.2⟩⟩

/-- The next byte is there and does not satisfy `p`. -/
def Ended (p : UInt8 → Bool) (x : Bytes) : Prop := ∃ c rest, x = c :: rest ∧ p c = false

theorem Run.head {p : UInt8 → Bool} {a : Bytes} (h : Run p a) (x : Bytes) :
    ∃ c rest, a ++ x = c :: rest ∧ p c = true := by
  obtain ⟨hne, hall⟩ := h
  cases a with
  | nil => exact absurd rfl hne
  | cons c a => exact ⟨c, a ++ x, rfl, hall c List.mem_cons_self⟩

theorem Run.ended {p q : UInt8 → Bool} {a : Bytes} (h : Run q a) (hpq : ∀ c, q c → p c = false)
    (x : Bytes) : Ended p (a ++ x) := by
  obtain ⟨c, rest, hcons, hc⟩ := h.head x
  exact ⟨c, rest, hcons, hpq c hc⟩

/-- An input that is ended somewhere is a run and what ends it. -/
theorem exists_run {p : UInt8 → Bool} (x : Bytes) {y : Bytes} (hy : Ended p y) :
    ∃ a x', x = a ++ x' ∧ (∀ c ∈ a, p c = true) ∧ Ended p (x' ++ y) := by
  induction x with
  | nil => exact ⟨[], [], rfl, by simp, hy⟩
  | cons c x ih =>
    cases hc : p c with
    | false => exact ⟨[], c :: x, rfl, by simp, c, x ++ y, rfl, hc⟩
    | true =>
      obtain ⟨a, x', rfl, ha, hx'⟩ := ih
      exact ⟨c :: a, x', rfl, by simpa [hc] using ha, hx'⟩

section Combinators

variable {p : UInt8 → Bool} {a x : Bytes} (ha : ∀ c ∈ a, p c = true) (hx : Ended p x)

include ha hx

theorem dropWhile_run : (a ++ x).dropWhile p = x := by
  obtain ⟨c, rest, rfl, hc⟩ := hx
  rw [List.dropWhile_append_of_pos ha, List.dropWhile_cons_of_neg (by simp [hc])]

theorem takeWhile_prefix_run : (a ++ x).takeWhile p = a := by
  obtain ⟨c, rest, rfl, hc⟩ := hx
  rw [List.takeWhile_append_of_pos ha, List.takeWhile_cons_of_neg (by simp [hc]),
    List.append_nil]

theorem takeWhile_run : takeWhile p (a ++ x) = .ok x a := by
  simp only [takeWhile, dropWhile_run ha hx, takeWhile_prefix_run ha hx]
  obtain ⟨c, rest, rfl, -⟩ := hx
  rfl

theorem takeWhile1_run (kind : ErrorKind) :
    takeWhile1 kind p (a ++ x) = if a = [] then .error ⟨a ++ x, kind⟩ else .ok x a := by
  simp only [takeWhile1, dropWhile_run ha hx, takeWhile_prefix_run ha hx]
  obtain ⟨c, rest, rfl, -⟩ := hx
  rfl

/-- A bounded run leaves what is over its bound. -/
theorem takeWhileMN_run {m n : Nat} :
    takeWhileMN m n p (a ++ x) =
      if m ≤ a.length then .ok (a.drop n ++ x) (a.take n) else .error ⟨a ++ x, .takeWhileMN⟩ := by
  have hlt : a.length < (a ++ x).length := by
    obtain ⟨c, rest, rfl, -⟩ := hx
    simp
  simp only [takeWhileMN, takeWhile_prefix_run ha hx, hlt, if_true]
  split
  · split
    · next hn => simp [List.drop_of_length_le hn, List.take_of_length_le hn]
    · next hn =>
      have hle : n ≤ a.length := by omega
      rw [List.drop_append_of_le_length hle, List.take_append_of_le_length hle]
  · rfl

end Combinators

/-! ## Repetition -/

/-- The items that `manyTill` reads: in front of whatever follows, `f` reads the
bytes of each and `g` does not read them. -/
structure Items (f : Parser α) (g : Parser β) (items : List (Bytes × α)) : Prop where
  read : ∀ i ∈ items, ∀ z, f (i.1 ++ z) = .ok z i.2
  apart : ∀ i ∈ items, ∀ z, ∃ e, g (i.1 ++ z) = .error e
  ne_nil : ∀ i ∈ items, i.1 ≠ []

theorem Items.tail {f : Parser α} {g : Parser β} {i : Bytes × α} {items : List (Bytes × α)}
    (h : Items f g (i :: items)) : Items f g items where
  read j hj := h.read j (by simp [hj])
  apart j hj := h.apart j (by simp [hj])
  ne_nil j hj := h.ne_nil j (by simp [hj])

theorem Items.manyTillLoop {f : Parser α} {g : Parser β} {items : List (Bytes × α)}
    (h : Items f g items) {x z : Bytes} {b : β} (hend : g x = .ok z b) {fuel : Nat}
    (hfuel : items.length < fuel) :
    manyTillLoop f g fuel (items.flatMap Prod.fst ++ x) = .ok z (items.map Prod.snd, b) := by
  induction items generalizing fuel with
  | nil =>
    obtain ⟨fuel, rfl⟩ : ∃ k, fuel = k + 1 := ⟨fuel - 1, by simp at hfuel; omega⟩
    simp [manyTillLoop_succ, hend]
  | cons i items ih =>
    obtain ⟨fuel, rfl⟩ : ∃ k, fuel = k + 1 := ⟨fuel - 1, by simp at hfuel; omega⟩
    have hread := h.read i (by simp) (items.flatMap Prod.fst ++ x)
    obtain ⟨e, hapart⟩ := h.apart i (by simp) (items.flatMap Prod.fst ++ x)
    have hne : i.1.length ≠ 0 := by simpa using h.ne_nil i (by simp)
    have hround : consuming .manyTill f (i.1 ++ (items.flatMap Prod.fst ++ x)) =
        .ok (items.flatMap Prod.fst ++ x) i.2 := by
      simp only [consuming, hread]
      rw [if_neg (by simp at hne ⊢; exact hne)]
    have hrest := ih h.tail (by simpa using hfuel : items.length < fuel)
    simp only [List.flatMap_cons, List.append_assoc, manyTillLoop_succ, hapart, hround,
      IResult.bind_ok, hrest, List.map_cons]

theorem Items.length_le {f : Parser α} {g : Parser β} {items : List (Bytes × α)}
    (h : Items f g items) : items.length ≤ (items.flatMap Prod.fst).length := by
  induction items with
  | nil => simp
  | cons i items ih =>
    have hi := List.length_pos_iff.mpr (h.ne_nil i (by simp))
    have hrest := ih h.tail
    simp only [List.length_cons, List.flatMap_cons, List.length_append]
    omega

/-- A repetition reads every item and stops behind the end. -/
theorem Items.manyTill {f : Parser α} {g : Parser β} {items : List (Bytes × α)}
    (h : Items f g items) {x z : Bytes} {b : β} (hend : g x = .ok z b) :
    manyTill f g (items.flatMap Prod.fst ++ x) = .ok z (items.map Prod.snd, b) := by
  refine h.manyTillLoop hend ?_
  have hlength := h.length_le
  simp only [List.length_append]
  omega

end Nom
