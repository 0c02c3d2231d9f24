-- SUMMARY: Well-formed UTF-8 and lossy decoding, as the Rust standard library has them.
import Mathlib.Data.List.Basic

/-!
# UTF-8

The scan keeps the ranges that the coming continuation bytes must lie in. A
byte outside its range ends the sequence, and is read again as the start of the
next one.
-/

namespace Utf8

/-- The ranges of the continuation bytes after the lead byte `b`, or `none` when
no sequence starts with `b`. -/
def ranges (b : UInt8) : Option (List (UInt8 × UInt8)) :=
  if b < 0x80 then some []
  else if 0xC2 ≤ b ∧ b ≤ 0xDF then some [(0x80, 0xBF)]
  else if b = 0xE0 then some [(0xA0, 0xBF), (0x80, 0xBF)]
  else if b = 0xED then some [(0x80, 0x9F), (0x80, 0xBF)]
  else if 0xE1 ≤ b ∧ b ≤ 0xEF then some [(0x80, 0xBF), (0x80, 0xBF)]
  else if b = 0xF0 then some [(0x90, 0xBF), (0x80, 0xBF), (0x80, 0xBF)]
  else if 0xF1 ≤ b ∧ b ≤ 0xF3 then some [(0x80, 0xBF), (0x80, 0xBF), (0x80, 0xBF)]
  else if b = 0xF4 then some [(0x80, 0x8F), (0x80, 0xBF), (0x80, 0xBF)]
  else none

/-- The bytes complete a sequence of which `expected` is still to come, and
further well-formed sequences follow. -/
def validAfter : List (UInt8 × UInt8) → List UInt8 → Bool
  | [], [] => true
  | _ :: _, [] => false
  | [], b :: bs =>
    match ranges b with
    | none => false
    | some expected => validAfter expected bs
  | (lo, hi) :: expected, b :: bs => lo ≤ b && b ≤ hi && validAfter expected bs

/-- `str::from_utf8` succeeds. -/
def valid (bs : List UInt8) : Bool := validAfter [] bs

/-- U+FFFD -/
def replacement : List UInt8 := [0xEF, 0xBF, 0xBD]

/-- Decode after the bytes `seen` of a sequence of which `expected` is still to
come. -/
def lossyAfter (seen : List UInt8) : List (UInt8 × UInt8) → List UInt8 → List UInt8
  | [], [] => seen
  | _ :: _, [] => replacement
  | [], b :: bs =>
    seen ++ match ranges b with
      | none => replacement ++ lossyAfter [] [] bs
      | some expected => lossyAfter [b] expected bs
  | (lo, hi) :: expected, b :: bs =>
    if lo ≤ b ∧ b ≤ hi then lossyAfter (seen ++ [b]) expected bs
    else replacement ++ match ranges b with
      | none => replacement ++ lossyAfter [] [] bs
      | some expected => lossyAfter [b] expected bs

/-- `String::from_utf8_lossy`, as the bytes of the string. -/
def lossy (bs : List UInt8) : List UInt8 := lossyAfter [] [] bs

theorem ranges_lo_pos {b lo hi : UInt8} {expected : List (UInt8 × UInt8)}
    (h : ranges b = some expected) (hmem : (lo, hi) ∈ expected) : 0 < lo := by
  unfold ranges at h
  split_ifs at h <;> cases h <;> simp at hmem <;> grind

/-- Zero bytes at the end change nothing. -/
theorem validAfter_append_zeros {expected : List (UInt8 × UInt8)}
    (hpos : ∀ r ∈ expected, 0 < r.1) (bs : List UInt8) (n : Nat) :
    validAfter expected (bs ++ List.replicate n 0) = validAfter expected bs := by
  induction bs generalizing expected with
  | nil =>
    induction n generalizing expected with
    | zero => simp
    | succ n ih =>
      cases expected with
      | nil =>
        have ih : validAfter [] ([] ++ List.replicate n 0) = true := ih (by simp)
        simpa [List.replicate_succ, validAfter, ranges] using ih
      | cons r expected =>
        have hr : ¬ r.1 ≤ 0 := UInt8.not_le.mpr (hpos r (by simp))
        simp [List.replicate_succ, validAfter, hr]
  | cons b bs ih =>
    cases expected with
    | nil =>
      simp only [List.cons_append, validAfter]
      split
      · rfl
      · next expected h => exact ih fun r hr => ranges_lo_pos h hr
    | cons r expected =>
      simp only [List.cons_append, validAfter]
      rw [ih fun r hr => hpos r (by simp [hr])]

theorem valid_append_zeros (bs : List UInt8) (n : Nat) :
    valid (bs ++ List.replicate n 0) = valid bs :=
  validAfter_append_zeros (by simp) bs n

end Utf8
