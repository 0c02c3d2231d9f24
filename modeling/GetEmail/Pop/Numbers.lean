-- SUMMARY: The values of the numbers and durations that a server announces.
import Mathlib.Data.List.Induction
import Mathlib.Data.Nat.Digits.Defs
import GetEmail.Exec.Basic
import GetEmail.Pop.CapabilityWords
import GetEmail.Pop.Error

/-!
# Numbers and durations

A number stays the bytes that the server sent until its value is asked for. A duration
has a number of units, and multiplies without a check: what an overflow does is decided
by the build. `usize` has 64 bits.
-/

namespace Pop

open Nom

/-! ## Values -/

/-- One more digit of a `usize`. -/
def addDigit (n : Nat) (c : UInt8) : Except ParseIntError Nat :=
  if isDigit c = false then .error .invalidDigit
  else if 2 ^ 64 ≤ n * 10 then .error .posOverflow
  else if 2 ^ 64 ≤ n * 10 + (c.toNat - 0x30) then .error .posOverflow
  else .ok (n * 10 + (c.toNat - 0x30))

/-- `usize::from_str` -/
def usizeFromStr : Bytes → Except ParseIntError Nat
  | [] => .error .empty
  | [c] => [c].foldlM addDigit 0
  | c :: digits => if c = 0x2b then digits.foldlM addDigit 0 else (c :: digits).foldlM addDigit 0

/-- `Number::value` -/
def Number.value (self : Number) : Except Error Nat :=
  if Utf8.valid self.inner then
    match usizeFromStr self.inner with
    | .ok number => .ok number
    | .error e => .error (.ofParseInt e)
  else .error .ofUtf8

/-- `Duration::value`, in seconds. With overflow checks, as in a debug build, a product
that does not fit is a panic; without them it wraps. -/
def Duration.value (overflowChecks : Bool) (self : Duration) : Except (Exit Error) Nat :=
  match self.inner.value with
  | .error e => .error (.error e)
  | .ok number =>
    if number * self.toSecsMultiplier < 2 ^ 64 then .ok (number * self.toSecsMultiplier)
    else if overflowChecks then .error .panicked
    else .ok (number * self.toSecsMultiplier % 2 ^ 64)

/-! ## Digits -/

/-- The number that decimal digits denote. -/
def decimal (d : Bytes) : Nat := Nat.ofDigits 10 (d.reverse.map fun c => c.toNat - 0x30)

theorem decimal_concat (d : Bytes) (c : UInt8) :
    decimal (d ++ [c]) = decimal d * 10 + (c.toNat - 0x30) := by
  simp [decimal, Nat.ofDigits_cons, Nat.mul_comm, Nat.add_comm]

/-- Digits are added up until the number does not fit. -/
theorem foldlM_addDigit {d : Bytes} (hd : ∀ c ∈ d, isDigit c = true) :
    d.foldlM addDigit 0 = if decimal d < 2 ^ 64 then .ok (decimal d) else .error .posOverflow := by
  induction d using List.reverseRecOn with
  | nil => rfl
  | append_singleton d c ih =>
    have hc := hd c (by simp)
    rw [List.foldlM_append, ih fun c hc => hd c (by simp [hc]), decimal_concat]
    by_cases hfits : decimal d < 2 ^ 64
    · have hstep : addDigit (decimal d) c = if decimal d * 10 + (c.toNat - 0x30) < 2 ^ 64 then
          .ok (decimal d * 10 + (c.toNat - 0x30)) else .error .posOverflow := by
        rw [addDigit, if_neg (by simp [hc])]
        by_cases htotal : decimal d * 10 + (c.toNat - 0x30) < 2 ^ 64
        · rw [if_neg (by omega), if_neg (by omega), if_pos htotal]
        · rw [if_neg htotal, if_pos (Nat.not_lt.mp htotal), ite_self]
      rw [if_pos hfits]
      simp only [List.foldlM_cons, List.foldlM_nil, bind_pure]
      exact hstep
    · rw [if_neg hfits, if_neg (by omega)]
      rfl

theorem usizeFromStr_digits {d : Bytes} (hd : Run isDigit d) : usizeFromStr d =
    if decimal d < 2 ^ 64 then .ok (decimal d) else .error .posOverflow := by
  rw [← foldlM_addDigit hd.all]
  match d, hd with
  | [], hd => exact absurd rfl hd.ne_nil
  | [c], hd => rfl
  | c :: c' :: d, hd =>
    have hplus : c ≠ 0x2b := by
      rintro rfl
      exact absurd (hd.all 0x2b (by simp)) (by decide)
    exact if_neg hplus

theorem valid_digits {d : Bytes} (hd : ∀ c ∈ d, isDigit c = true) : Utf8.valid d = true := by
  induction d with
  | nil => rfl
  | cons c d ih =>
    have hc : c < 0x80 := by
      have hle : c ≤ 0x39 := by simpa [isDigit] using (Bool.and_eq_true_iff.mp (hd c (by simp))).2
      exact UInt8.lt_of_le_of_lt hle (by decide)
    have hranges : Utf8.ranges c = some [] := if_pos hc
    have hrest := ih fun c hc => hd c (by simp [hc])
    simpa [Utf8.valid, Utf8.validAfter, hranges] using hrest

theorem Number.value_digits {d : Bytes} (hd : Run isDigit d) : Number.value ⟨d⟩ =
    if decimal d < 2 ^ 64 then .ok (decimal d) else .error (.ofParseInt .posOverflow) := by
  simp only [Number.value, valid_digits hd.all, if_true, usizeFromStr_digits hd]
  split
  · next h => split at h <;> cases h; rw [if_pos ‹_›]
  · next h => split at h <;> cases h; rw [if_neg ‹_›]

/-! ## Announced durations -/

namespace Duration

/-- The value is the exact number of seconds if that fits in 64 bits, and an error
otherwise, in every build. -/
def Exact (unit : Nat) (self : Duration) : Prop :=
  ∀ overflowChecks,
    if decimal self.inner.inner * unit < 2 ^ 64 then
      self.value overflowChecks = .ok (decimal self.inner.inner * unit)
    else ∃ e, self.value overflowChecks = .error (.error e)

theorem exact_iff {d : Bytes} (hd : Run isDigit d) {unit : Nat} (hunit : 0 < unit) :
    Exact unit ⟨⟨d⟩, unit⟩ ↔ decimal d * unit < 2 ^ 64 ∨ 2 ^ 64 ≤ decimal d := by
  have hle : decimal d ≤ decimal d * unit := Nat.le_mul_of_pos_right _ hunit
  simp only [Exact, value, Number.value_digits hd]
  by_cases hproduct : decimal d * unit < 2 ^ 64
  · have hnumber : decimal d < 2 ^ 64 := by omega
    simp only [hproduct, hnumber, if_true]
    exact iff_of_true (fun _ => trivial) (.inl trivial)
  by_cases hnumber : decimal d < 2 ^ 64
  · -- the number is read, and the product overflows
    simp only [hproduct, hnumber, if_true, if_false, false_or]
    refine iff_of_false (fun h => ?_) (by omega)
    obtain ⟨e, he⟩ := h true
    cases he
  · simp only [hproduct, hnumber, if_false, false_or]
    exact iff_of_true (fun _ => ⟨_, rfl⟩) (by omega)

end Duration

/-- What a capability announces as a duration, and the seconds of its unit. -/
def Announces (c : Capability) (d : Duration) (unit : Nat) : Prop :=
  c = .loginDelay d ∧ unit = 1 ∨ c = .expire (.time d) ∧ unit = 24 * 60 * 60

theorem knownLine_announces {l : Bytes} {c : Capability} {d : Duration} {unit : Nat}
    (h : Parser.KnownLine l c) (hc : Announces c d unit) :
    Parser.words l = [Parser.firstWord l, d.inner.inner] ∧ Run isDigit d.inner.inner ∧
      d.toSecsMultiplier = unit := by
  have hwords {k t b digits b' : Bytes} (hk : SameLetters k t) (ht : t ∈ Parser.keywords)
      (hb : Run isSpace b) (hd : Run isDigit digits) (hb' : Parser.Blank b') :
      Parser.words (k ++ (b ++ (digits ++ b'))) =
        [Parser.firstWord (k ++ (b ++ (digits ++ b'))), digits] := by
    have hblank := Parser.no_blank_of_literal hk (Parser.keyword_literal ht)
    have hat := Parser.atBlank_append hb (digits ++ b')
    have hkword := Parser.isSpace_word hblank (Parser.ne_nil_of_literal hk (Parser.keyword_literal ht))
    have hword := Parser.isSpace_word (fun c hc => Parser.isSpace_of_isDigit c (hd.all c hc)) hd.ne_nil
    rw [Parser.words_word hkword hat, Parser.words_single hb.all hword hb',
      (Parser.firstWord_append hblank hat).1]
  have hbare : ∀ entry ∈ Parser.bareKeywords, ¬ Announces entry.2 d unit := by
    simp [Parser.bareKeywords, Announces]
  cases h with
  | bare ht => exact absurd hc (hbare _ ht)
  | loginDelay hk hb hd hb' =>
    obtain ⟨h, rfl⟩ | ⟨h, -⟩ := hc <;> cases h
    exact ⟨hwords hk (by decide) hb hd hb', hd, rfl⟩
  | expire hk hb hd hb' =>
    obtain ⟨h, -⟩ | ⟨h, rfl⟩ := hc <;> cases h
    exact ⟨hwords hk (by decide) hb hd hb', hd, rfl⟩
  | _ => obtain ⟨h, -⟩ | ⟨h, -⟩ := hc <;> cases h

/-- An announced duration is exact unless its number fits in 64 bits and its seconds do not. -/
theorem announced_exact_iff {input rest : Bytes} {c : Capability}
    (h : Parser.capability input = .ok rest c) {d : Duration} {unit : Nat}
    (hc : Announces c d unit) :
    (∃ l e, input = l ++ (e ++ rest) ∧ LineEnd e ∧
        Parser.words l = [Parser.firstWord l, d.inner.inner] ∧ Run isDigit d.inner.inner) ∧
      (d.Exact unit ↔ decimal d.inner.inner * unit < 2 ^ 64 ∨ 2 ^ 64 ≤ decimal d.inner.inner) := by
  obtain ⟨l, e, hinput, he, hline⟩ := Parser.readsLine_capability h
  have hknown : Parser.KnownLine l c := by
    rcases hline with hknown | ⟨-, hother⟩
    · exact hknown
    · cases hother
      rcases hc with ⟨hc, -⟩ | ⟨hc, -⟩ <;> cases hc
  obtain ⟨hwords, hdigits, rfl⟩ := knownLine_announces hknown hc
  have hpos : 0 < d.toSecsMultiplier := by
    rcases hc with ⟨-, h⟩ | ⟨-, h⟩ <;> omega
  exact ⟨⟨l, e, hinput, he, hwords, hdigits⟩, Duration.exact_iff hdigits hpos⟩

theorem announced_exact_iff_delay : Duration.Exact 1 ⟨⟨ascii "900"⟩, 1⟩ :=
  have hline : Parser.capability (ascii "LOGIN-DELAY 900\r\n") =
      .ok [] (.loginDelay ⟨⟨ascii "900"⟩, 1⟩) := by decide
  (announced_exact_iff hline (.inl ⟨rfl, rfl⟩)).2.mpr (.inl (by decide))

/-- A number of days that fits in 64 bits, unlike its seconds. -/
theorem expire_overflow :
    let days : Duration := ⟨⟨ascii "213503982334602"⟩, 24 * 60 * 60⟩
    Parser.capability (ascii "EXPIRE 213503982334602\r\n") = .ok [] (.expire (.time days)) ∧
      days.value true = .error .panicked ∧ days.value false = .ok 61184 ∧
      ¬ days.Exact (24 * 60 * 60) := by
  refine ⟨by decide, by decide, by decide, fun h => ?_⟩
  have := h true
  rw [if_neg (by decide)] at this
  obtain ⟨e, he⟩ := this
  have hpanic : Duration.value true ⟨⟨ascii "213503982334602"⟩, 24 * 60 * 60⟩ = .error .panicked := by
    decide
  cases hpanic.symm.trans he

end Pop
