-- SUMMARY: The sequence sets of RFC 3501: their syntax, and the messages they denote.
import Mathlib.Algebra.Group.Nat.Defs
import Mathlib.Data.List.Basic

/-!
# Sequence sets

    sequence-set = (seq-number / seq-range) *("," sequence-set)
    seq-range    = seq-number ":" seq-number
    seq-number   = nz-number / "*"
    nz-number    = digit-nz *DIGIT

An `nz-number` is below 2^32. `*` is the number of messages in the mailbox, and a
range may be given from either end.
-/

namespace SequenceSet

inductive SeqNumber where
  | number (n : Nat)
  | star
  deriving DecidableEq, Repr

/-- A single number is the range from it to itself. -/
structure SeqRange where
  first : SeqNumber
  last : SeqNumber
  deriving DecidableEq, Repr

/-! ## Syntax -/

def parseNumber (text : List Char) : Option SeqNumber :=
  if text = ['*'] then some .star
  else if text ≠ [] ∧ text.head? ≠ some '0' ∧ text.all Char.isDigit ∧
      Nat.ofDigitChars 10 text 0 < 2 ^ 32 then
    some (.number (Nat.ofDigitChars 10 text 0))
  else none

def parseRange (text : List Char) : Option SeqRange :=
  match text.splitOn ':' with
  | [number] => do
    let number ← parseNumber number
    return ⟨number, number⟩
  | [first, last] => return ⟨← parseNumber first, ← parseNumber last⟩
  | _ => none

def parse (text : List Char) : Option (List SeqRange) := (text.splitOn ',').mapM parseRange

/-! ## Meaning -/

def SeqNumber.value (count : Nat) : SeqNumber → Nat
  | number n => n
  | star => count

def SeqRange.covers (range : SeqRange) (count n : Nat) : Bool :=
  min (range.first.value count) (range.last.value count) ≤ n ∧
    n ≤ max (range.first.value count) (range.last.value count)

/-- The messages among `count` that a set denotes, if it denotes no others. -/
def numbers (set : List SeqRange) (count : Nat) : Option (List Nat) :=
  if ∀ range ∈ set, ∀ n ∈ [range.first.value count, range.last.value count], 1 ≤ n ∧ n ≤ count then
    some ((List.range' 1 count).filter fun n => set.any (·.covers count n))
  else none

/-- A well-formed set that denotes these messages among `count`. -/
def Denotes (text : List Char) (count : Nat) (messages : List Nat) : Prop :=
  (parse text).bind (numbers · count) = some messages

/-! ## Ranges from the first message -/

theorem head?_toDigits {n : Nat} (hn : n ≠ 0) : (Nat.toDigits 10 n).head? ≠ some '0' := by
  induction n using Nat.strongRecOn with
  | ind n ih =>
    by_cases hlt : n < 10
    · rw [Nat.toDigits_of_lt_base hlt]
      simpa using hn
    · have hdiv : n / 10 ≠ 0 := by omega
      rw [Nat.toDigits_of_base_le (by decide) (Nat.not_lt.mp hlt),
        List.head?_append_of_ne_nil _ Nat.toDigits_ne_nil]
      exact ih (n / 10) (Nat.div_lt_self (by omega) (by decide)) hdiv

theorem parseNumber_toDigits {n : Nat} (hn : n < 2 ^ 32) :
    parseNumber (Nat.toDigits 10 n) = if n = 0 then none else some (.number n) := by
  have hdigit : ∀ c ∈ Nat.toDigits 10 n, c.isDigit := fun c hc =>
    Nat.isDigit_of_mem_toDigits (by decide) (by decide) hc
  have hstar : Nat.toDigits 10 n ≠ ['*'] := fun h => absurd (hdigit '*' (by simp [h])) (by decide)
  have hvalue : Nat.ofDigitChars 10 (Nat.toDigits 10 n) 0 = n :=
    Nat.ofDigitChars_toDigits (by decide) (by decide)
  rw [parseNumber, if_neg hstar, hvalue]
  by_cases hzero : n = 0
  · subst hzero
    decide
  · rw [if_neg hzero,
      if_pos ⟨Nat.toDigits_ne_nil, head?_toDigits hzero, List.all_eq_true.mpr hdigit, hn⟩]

/-- The text of the range from 1 to `n`. -/
def upTo (n : Nat) : List Char := ['1', ':'] ++ Nat.toDigits 10 n

theorem parse_upTo {n : Nat} (hn : n < 2 ^ 32) :
    parse (upTo n) = if n = 0 then none else some [⟨.number 1, .number n⟩] := by
  have hnot (c : Char) (hc : c.isDigit = false) : c ∉ Nat.toDigits 10 n := fun h => by
    rw [Nat.isDigit_of_mem_toDigits (by decide) (by decide) h] at hc
    cases hc
  have hcomma : (upTo n).splitOn ',' = [upTo n] :=
    List.splitOn_eq_singleton (by simp [upTo, hnot ',' (by decide)])
  have hcolon : (upTo n).splitOn ':' = [['1'], Nat.toDigits 10 n] := by
    have hsplit := List.splitOn_append_cons_self (a := ':') ['1'] (Nat.toDigits 10 n)
    rw [List.splitOn_eq_singleton (hnot ':' (by decide))] at hsplit
    exact hsplit
  have hone : parseNumber ['1'] = some (.number 1) := by decide
  rw [parse, hcomma, List.mapM_cons, List.mapM_nil, parseRange, hcolon]
  simp only [hone, parseNumber_toDigits hn]
  by_cases hzero : n = 0 <;> simp [hzero]

/-- It denotes all of `n` messages, if there are any. -/
theorem denotes_upTo {n : Nat} (hn : n < 2 ^ 32) (hpos : n ≠ 0) :
    Denotes (upTo n) n (List.range' 1 n) := by
  have hone : 1 ≤ n := Nat.one_le_iff_ne_zero.mpr hpos
  rw [Denotes, parse_upTo hn, if_neg hpos, Option.bind_some, numbers, if_pos]
  · rw [Option.some_inj, List.filter_eq_self]
    intro k hk
    obtain ⟨hlow, hhigh⟩ := List.mem_range'_1.mp hk
    have hle : k ≤ n := by omega
    have hcovers : SeqRange.covers ⟨.number 1, .number n⟩ n k = true :=
      decide_eq_true ⟨Nat.le_trans (Nat.min_le_left _ _) hlow, Nat.le_trans hle (Nat.le_max_right _ _)⟩
    simp [hcovers]
  · simp [SeqNumber.value, hone]

end SequenceSet
