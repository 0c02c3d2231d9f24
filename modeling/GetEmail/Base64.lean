-- SUMMARY: Base64 with padding, and its round trip.
import Mathlib.Tactic.Common

/-!
# Base64

Three octets are four letters of six bits each. The last letters of a text are padded,
and its last bits are zero.
-/

namespace Base64

/-! ## Letters -/

/-- The letter for six bits -/
def letter (n : Nat) : UInt8 :=
  if n < 26 then 0x41 + n.toUInt8
  else if n < 52 then 0x61 + (n - 26).toUInt8
  else if n < 62 then 0x30 + (n - 52).toUInt8
  else if n = 62 then 0x2b
  else 0x2f

/-- The six bits of a letter -/
def sextet? (c : UInt8) : Option Nat :=
  if 0x41 ≤ c ∧ c ≤ 0x5a then some (c - 0x41).toNat
  else if 0x61 ≤ c ∧ c ≤ 0x7a then some ((c - 0x61).toNat + 26)
  else if 0x30 ≤ c ∧ c ≤ 0x39 then some ((c - 0x30).toNat + 52)
  else if c = 0x2b then some 62
  else if c = 0x2f then some 63
  else none

def pad : UInt8 := 0x3d

theorem sextet_letter {n : Nat} (h : n < 64) : sextet? (letter n) = some n ∧ letter n ≠ pad := by
  have hall : ∀ n ∈ List.range 64, sextet? (letter n) = some n ∧ letter n ≠ pad := by decide
  exact hall n (List.mem_range.mpr h)

/-! ## Texts -/

def encode : List UInt8 → List UInt8
  | a :: b :: c :: rest =>
    let n := a.toNat * 65536 + b.toNat * 256 + c.toNat
    letter (n / 262144) :: letter (n / 4096 % 64) :: letter (n / 64 % 64) :: letter (n % 64) ::
      encode rest
  | [a, b] =>
    let n := a.toNat * 1024 + b.toNat * 4
    [letter (n / 4096), letter (n / 64 % 64), letter (n % 64), pad]
  | [a] =>
    let n := a.toNat * 16
    [letter (n / 64), letter (n % 64), pad, pad]
  | [] => []

/-- Four letters that are not padded -/
def group (w x y z : UInt8) : Option (List UInt8) := do
  let n := (← sextet? w) * 262144 + (← sextet? x) * 4096 + (← sextet? y) * 64 + (← sextet? z)
  some [(n / 65536).toUInt8, (n / 256 % 256).toUInt8, (n % 256).toUInt8]

/-- The last four letters. What a padded one would leave over has to be zero. -/
def lastGroup (w x y z : UInt8) : Option (List UInt8) :=
  if z ≠ pad then group w x y z
  else if y ≠ pad then do
    let n := (← sextet? w) * 4096 + (← sextet? x) * 64 + (← sextet? y)
    if n % 4 = 0 then some [(n / 1024).toUInt8, (n / 4 % 256).toUInt8] else none
  else do
    let n := (← sextet? w) * 64 + (← sextet? x)
    if n % 16 = 0 then some [(n / 16).toUInt8] else none

def decode : List UInt8 → Option (List UInt8)
  | [] => some []
  | [w, x, y, z] => lastGroup w x y z
  | w :: x :: y :: z :: rest => do
    let first ← group w x y z
    let others ← decode rest
    some (first ++ others)
  | _ => none

/-- Letters are printable. -/
theorem le_letter (n : Nat) : 0x2b ≤ letter n := by
  by_cases h : n < 62
  · have hall : ∀ n ∈ List.range 62, 0x2b ≤ letter n := by decide
    exact hall n (List.mem_range.mpr h)
  · rw [letter, if_neg (by omega), if_neg (by omega), if_neg h]
    split <;> decide

theorem le_encode (bytes : List UInt8) : ∀ c ∈ encode bytes, 0x2b ≤ c := by
  have hpad : 0x2b ≤ pad := by decide
  induction bytes using encode.induct with
  | case1 a b c rest ih => simpa [encode, le_letter] using ih
  | case2 a b => simp [encode, le_letter, hpad]
  | case3 a => simp [encode, le_letter, hpad]
  | case4 => simp [encode]

/-! ## Round trip -/

theorem sextets (n : Nat) : n / 4096 * 4096 + n / 64 % 64 * 64 + n % 64 = n := by
  omega

theorem group_encode (a b c : UInt8) :
    let n := a.toNat * 65536 + b.toNat * 256 + c.toNat
    group (letter (n / 262144)) (letter (n / 4096 % 64)) (letter (n / 64 % 64)) (letter (n % 64)) =
      some [a, b, c] := by
  intro n
  have ha : a.toNat < 256 := a.toNat_lt_size
  have hb : b.toNat < 256 := b.toNat_lt_size
  have hc : c.toNat < 256 := c.toNat_lt_size
  have hn : n / 262144 * 262144 + n / 4096 % 64 * 4096 + n / 64 % 64 * 64 + n % 64 = n := by omega
  have hfirst : n / 65536 = a.toNat := by omega
  have hsecond : n / 256 % 256 = b.toNat := by omega
  have hthird : n % 256 = c.toNat := by omega
  simp only [group, (sextet_letter (show n / 262144 < 64 by omega)).1,
    (sextet_letter (show n / 4096 % 64 < 64 by omega)).1,
    (sextet_letter (show n / 64 % 64 < 64 by omega)).1, (sextet_letter (show n % 64 < 64 by omega)).1,
    Option.bind_eq_bind, Option.bind_some, hn, hfirst, hsecond, hthird]
  simp

theorem decode_group {w x y z : UInt8} (hz : z ≠ pad) (rest : List UInt8) :
    decode (w :: x :: y :: z :: rest) =
      (group w x y z).bind fun first => (decode rest).bind fun others => some (first ++ others) := by
  cases rest with
  | nil =>
    have hlast : decode [w, x, y, z] = group w x y z := if_pos hz
    rw [hlast]
    cases group w x y z <;> simp [decode]
  | cons a rest => rfl

/-- A text that was encoded is decoded to what it was. -/
theorem decode_encode (bytes : List UInt8) : decode (encode bytes) = some bytes := by
  induction bytes using encode.induct with
  | case1 a b c rest ih =>
    have hgroup := group_encode a b c
    rw [encode, decode_group (sextet_letter (by omega)).2, hgroup, ih]
    rfl
  | case2 a b =>
    have ha : a.toNat < 256 := a.toNat_lt_size
    have hb : b.toNat < 256 := b.toNat_lt_size
    rw [encode]
    generalize hn : a.toNat * 1024 + b.toNat * 4 = n
    have hw := (sextet_letter (show n / 4096 < 64 by omega)).1
    have hx := (sextet_letter (show n / 64 % 64 < 64 by omega)).1
    obtain ⟨hy, hpad⟩ := sextet_letter (show n % 64 < 64 by omega)
    have hwhole := sextets n
    have hfirst : n / 1024 = a.toNat := by omega
    have hsecond : n / 4 % 256 = b.toNat := by omega
    have hrest : n % 4 = 0 := by omega
    simp only [decode, lastGroup, ne_eq, not_true_eq_false, if_false, hpad, not_false_eq_true, if_true,
      hw, hx, hy, Option.bind_eq_bind, Option.bind_some, hwhole, hfirst, hsecond, hrest]
    simp
  | case3 a =>
    have ha : a.toNat < 256 := a.toNat_lt_size
    rw [encode]
    generalize hn : a.toNat * 16 = n
    have hwhole : n / 64 * 64 + n % 64 = n := by omega
    have hfirst : n / 16 = a.toNat := by omega
    have hrest : n % 16 = 0 := by omega
    simp only [decode, lastGroup, ne_eq, not_true_eq_false, if_false,
      (sextet_letter (show n / 64 < 64 by omega)).1, (sextet_letter (show n % 64 < 64 by omega)).1,
      Option.bind_eq_bind, Option.bind_some, hwhole, hfirst, hrest, if_true]
    simp
  | case4 => rfl

end Base64
