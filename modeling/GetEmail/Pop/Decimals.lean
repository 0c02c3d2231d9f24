-- SUMMARY: The numbers that the client prints are read back, and nothing but numbers has a value.
import GetEmail.Pop.Numbers

/-!
# Decimals
-/

namespace Pop

open Nom

theorem isDigit_of_char {c : Char} (h : c.isDigit) : isDigit (UInt8.ofNat c.toNat) = true ∧
    (UInt8.ofNat c.toNat).toNat = c.toNat := by
  have hrange : 48 ≤ c.toNat ∧ c.toNat ≤ 57 := by
    simpa [Char.isDigit, UInt32.le_iff_toNat_le] using h
  have hbyte : (UInt8.ofNat c.toNat).toNat = c.toNat := by
    rw [UInt8.toNat_ofNat']
    exact Nat.mod_eq_of_lt (by omega)
  refine ⟨?_, hbyte⟩
  simp only [isDigit, Bool.and_eq_true, decide_eq_true_eq, UInt8.le_iff_toNat_le, hbyte]
  exact hrange

/-- A number is printed as digits. -/
theorem display_run (n : Nat) : Run isDigit (Display.display n) where
  ne_nil := by simp [Display.display]
  all c hc := by
    obtain ⟨d, hd, rfl⟩ := List.mem_map.mp hc
    exact (isDigit_of_char (Nat.isDigit_of_mem_toDigits (by decide) (by decide) hd)).1

theorem decimal_chars {s : List Char} (hs : ∀ c ∈ s, c.isDigit) :
    decimal (s.map fun c => UInt8.ofNat c.toNat) = Nat.ofDigitChars 10 s 0 := by
  induction s using List.reverseRecOn with
  | nil => rfl
  | append_singleton s c ih =>
    have hc := (isDigit_of_char (hs c (by simp))).2
    rw [List.map_append, List.map_singleton, decimal_concat, ih fun c hc => hs c (by simp [hc]), hc]
    simp [Nat.ofDigitChars, List.foldl_append, Nat.mul_comm]

/-- The digits of a number denote it. -/
@[simp] theorem decimal_display (n : Nat) : decimal (Display.display n) = n := by
  refine (decimal_chars fun c hc => Nat.isDigit_of_mem_toDigits (by decide) (by decide) hc).trans ?_
  exact Nat.ofDigitChars_toDigits (by decide) (by decide)

theorem Number.value_display (n : Nat) : Number.value ⟨Display.display n⟩ =
    if n < 2 ^ 64 then .ok n else .error (.ofParseInt .posOverflow) := by
  rw [Number.value_digits (display_run n), decimal_display]

/-! ## What has a value -/

theorem foldlM_addDigit_eq_ok {d : Bytes} {n : Nat} : d.foldlM addDigit 0 = .ok n ↔
    (∀ c ∈ d, isDigit c = true) ∧ decimal d = n ∧ n < 2 ^ 64 := by
  by_cases hd : ∀ c ∈ d, isDigit c = true
  · rw [foldlM_addDigit hd]
    by_cases hfits : decimal d < 2 ^ 64
    · simp only [if_pos hfits, Except.ok.injEq]
      exact ⟨fun h => ⟨hd, h, h ▸ hfits⟩, fun h => h.2.1⟩
    · rw [if_neg hfits]
      exact iff_of_false nofun fun h => hfits (h.2.1 ▸ h.2.2)
  · refine iff_of_false (fun h => hd ?_) fun h => hd h.1
    -- a turn with another byte has no value
    clear hd
    induction d using List.reverseRecOn generalizing n with
    | nil => exact nofun
    | append_singleton d c ih =>
      rw [List.foldlM_append] at h
      cases hrest : d.foldlM addDigit 0 with
      | error e =>
        rw [hrest] at h
        cases h
      | ok k =>
        rw [hrest] at h
        simp only [List.foldlM_cons, List.foldlM_nil, bind_pure] at h
        have hc : isDigit c = true := by
          by_contra hc
          have h : addDigit k c = .ok n := h
          rw [addDigit, if_pos (by simpa using hc)] at h
          cases h
        intro c' hc'
        rcases List.mem_append.mp hc' with hc' | hc'
        · exact ih hrest c' hc'
        · rwa [List.mem_singleton.mp hc']

theorem usizeFromStr_eq_ok {b : Bytes} {n : Nat} : usizeFromStr b = .ok n ↔
    ∃ d, (b = d ∨ b = 0x2b :: d) ∧ Run isDigit d ∧ decimal d = n ∧ n < 2 ^ 64 := by
  have hplus : isDigit 0x2b = false := rfl
  have hfold {d : Bytes} (hd : d ≠ []) : d.foldlM addDigit 0 = .ok n ↔
      Run isDigit d ∧ decimal d = n ∧ n < 2 ^ 64 := by
    rw [foldlM_addDigit_eq_ok]
    exact and_congr_left fun _ => ⟨fun h => ⟨hd, h⟩, fun h => h.all⟩
  -- digits do not start with a plus sign
  have hsign {c : UInt8} {d : Bytes} (hd : Run isDigit (c :: d)) : c ≠ 0x2b := by
    rintro rfl
    have := hd.all 0x2b (by simp)
    rw [hplus] at this
    cases this
  match b with
  | [] =>
    refine iff_of_false nofun ?_
    rintro ⟨d, h | h, hd, -⟩
    · exact hd.ne_nil h.symm
    · cases h
  | [c] =>
    rw [usizeFromStr, hfold (by simp)]
    constructor
    · exact fun h => ⟨[c], .inl rfl, h⟩
    · rintro ⟨d, rfl | h, hd, hvalue⟩
      · exact ⟨hd, hvalue⟩
      · exact absurd (List.cons.inj h).2.symm hd.ne_nil
  | c :: c' :: d =>
    rw [usizeFromStr.eq_3 _ _ (by simp)]
    by_cases hc : c = 0x2b
    · subst hc
      rw [if_pos rfl, hfold (by simp)]
      constructor
      · exact fun h => ⟨c' :: d, .inr rfl, h⟩
      · rintro ⟨d', rfl | h, hd, hvalue⟩
        · exact absurd rfl (hsign hd)
        · exact (List.cons.inj h).2 ▸ ⟨hd, hvalue⟩
    · rw [if_neg hc, hfold (by simp)]
      constructor
      · exact fun h => ⟨c :: c' :: d, .inl rfl, h⟩
      · rintro ⟨d', rfl | h, hd, hvalue⟩
        · exact ⟨hd, hvalue⟩
        · exact absurd (List.cons.inj h).1 hc

/-- Exactly the decimal numbers below `2 ^ 64` have a value, with or without a plus sign,
and what is printed is read back. -/
theorem number_value_exact (b : Bytes) (n : Nat) :
    (Number.value ⟨b⟩ = .ok n ↔
      ∃ d, (b = d ∨ b = 0x2b :: d) ∧ Run isDigit d ∧ decimal d = n ∧ n < 2 ^ 64) ∧
      (Number.value ⟨Display.display n⟩ = .ok n ↔ n < 2 ^ 64) := by
  refine ⟨?_, ?_⟩
  · rw [← usizeFromStr_eq_ok, Number.value]
    by_cases hvalid : Utf8.valid b = true
    · rw [if_pos hvalid]
      cases usizeFromStr b <;> simp
    · rw [if_neg hvalid]
      refine iff_of_false (by simp) fun h => hvalid ?_
      obtain ⟨d, hb, hd, -⟩ := usizeFromStr_eq_ok.mp h
      rcases hb with rfl | rfl
      · exact valid_digits hd.all
      · have hranges : Utf8.ranges 0x2b = some [] := by decide
        simpa [Utf8.valid, Utf8.validAfter, hranges] using valid_digits hd.all
  · rw [Number.value_display]
    by_cases h : n < 2 ^ 64
    · rw [if_pos h]
      exact iff_of_true rfl h
    · rw [if_neg h]
      exact iff_of_false (by simp) h

end Pop
