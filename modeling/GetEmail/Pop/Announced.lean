-- SUMMARY: When the lookup of capabilities is inclusion in the announced ones.
import Mathlib.Data.List.Perm.Subperm
import GetEmail.Pop.Client

/-!
# Lookups among the announced capabilities

`has_capability` counts the announced capabilities that are asked for, and compares
with the length of the list that asks. Equal capabilities on that list count once only.
-/

namespace Pop.Client

variable {κ : Type}

/-- All of `query` is found when it is announced and free of repetitions. -/
theorem hasCapability_eq_true (client : Client κ) (query : List Capability) :
    client.hasCapability query = true ↔ query.Nodup ∧ ∀ c ∈ query, c ∈ client.capabilities := by
  have hnodup : (client.capabilities.dedup.filter (· ∈ query)).Nodup :=
    (List.nodup_dedup _).filter _
  have hsubset : client.capabilities.dedup.filter (· ∈ query) ⊆ query := by
    intro c hc
    simpa using (List.mem_filter.mp hc).2
  rw [hasCapability, decide_eq_true_iff]
  constructor
  · intro hlength
    have hperm := (hnodup.subperm hsubset).perm_of_length_le hlength.ge
    refine ⟨hperm.nodup_iff.mp hnodup, fun c hc => ?_⟩
    have hfound := hperm.symm.subset hc
    simpa using (List.mem_filter.mp hfound).1
  · rintro ⟨hquery, hannounced⟩
    have hback : query ⊆ client.capabilities.dedup.filter (· ∈ query) := fun c hc =>
      List.mem_filter.mpr ⟨List.mem_dedup.mpr (hannounced c hc), by simpa using hc⟩
    exact le_antisymm (hnodup.subperm hsubset).length_le (hquery.subperm hback).length_le

/-- The lookup is inclusion in the announced list exactly when nothing is asked for twice
or something is not announced. Reordering and repetition elsewhere never show; two
queries of the same capabilities are answered alike exactly when both or none repeat one;
and a query is answered as its two halves are exactly when they share nothing. -/
theorem hasCapability_inclusion_iff (client : Client κ) (query : List Capability) :
    ((client.hasCapability query = true ↔ ∀ c ∈ query, c ∈ client.capabilities) ↔
        query.Nodup ∨ ∃ c ∈ query, c ∉ client.capabilities) ∧
      (∀ (client' : Client κ) (query' : List Capability),
        (∀ c, c ∈ client'.capabilities ↔ c ∈ client.capabilities) → (∀ c, c ∈ query' ↔ c ∈ query) →
        (client'.hasCapability query' = client.hasCapability query ↔
          (query'.Nodup ↔ query.Nodup) ∨ ∃ c ∈ query, c ∉ client.capabilities)) ∧
      ∀ a b : List Capability, query = a ++ b →
        (client.hasCapability query = (client.hasCapability a && client.hasCapability b) ↔
          a.Disjoint b ∨ ¬ a.Nodup ∨ ¬ b.Nodup ∨ ∃ c ∈ query, c ∉ client.capabilities) := by
  have hmissing (query : List Capability) : (∃ c ∈ query, c ∉ client.capabilities) ↔
      ¬ ∀ c ∈ query, c ∈ client.capabilities := by
    simp
  refine ⟨?_, fun client' query' hclient hquery => ?_, ?_⟩
  · rw [hasCapability_eq_true, hmissing]
    tauto
  · rw [Bool.eq_iff_iff, hasCapability_eq_true, hasCapability_eq_true, hmissing]
    simp only [hclient, hquery]
    tauto
  · rintro a b rfl
    rw [Bool.eq_iff_iff, Bool.and_eq_true, hasCapability_eq_true, hasCapability_eq_true,
      hasCapability_eq_true, hmissing, List.nodup_append']
    simp only [List.forall_mem_append]
    tauto

/-- `Top` is announced, and asked for twice. -/
theorem hasCapability_twice :
    let client : Client Unit := ⟨none, [.top], [], none, false, .none⟩
    client.hasCapability [.top, .top] = false ∧ client.hasCapability [.top] = true ∧
      ∀ c ∈ [Capability.top, .top], c ∈ client.capabilities := by
  decide

end Pop.Client
