-- SUMMARY: Arithmetic on machine words, where a result may not fit.
import Mathlib.Algebra.GroupWithZero.Nat
import Mathlib.Algebra.Ring.Int.Defs
import GetEmail.Exec.Basic

/-!
# Machine words

A word of `w` bits holds the numbers below `2 ^ w`. What becomes of any other result is
up to the build: the operation panics, or the result is cut to the word.
-/

namespace Exec

inductive Overflow where
  | panics
  | wraps
  deriving DecidableEq, Repr

namespace Overflow

variable {ε σ : Type}

/-- The word for an exact result. -/
def word (overflow : Overflow) (w : Nat) (exact : Int) : Exec ε σ Nat :=
  if 0 ≤ exact ∧ exact < 2 ^ w then pure exact.toNat
  else match overflow with
    | .panics => crash
    | .wraps => pure (exact % 2 ^ w).toNat

def add (overflow : Overflow) (w m n : Nat) : Exec ε σ Nat := overflow.word w (m + n)

def sub (overflow : Overflow) (w m n : Nat) : Exec ε σ Nat := overflow.word w (m - n)

theorem word_of_lt (overflow : Overflow) {w n : Nat} (h : n < 2 ^ w) :
    overflow.word w n = (pure n : Exec ε σ Nat) := by
  have hword : (0 : Int) ≤ n ∧ (n : Int) < 2 ^ w := ⟨Int.natCast_nonneg n, by exact_mod_cast h⟩
  unfold word
  rw [if_pos hword, Int.toNat_natCast]

theorem add_of_lt (overflow : Overflow) {w m n : Nat} (h : m + n < 2 ^ w) :
    overflow.add w m n = (pure (m + n) : Exec ε σ Nat) := by
  rw [add, ← Int.natCast_add, word_of_lt overflow h]

theorem sub_of_le (overflow : Overflow) {w m n : Nat} (hm : m < 2 ^ w) (h : n ≤ m) :
    overflow.sub w m n = (pure (m - n) : Exec ε σ Nat) := by
  rw [sub, ← Int.ofNat_sub h, word_of_lt overflow (by omega)]

end Overflow

end Exec
