-- SUMMARY: Hash maps as lists of entries, and iterations over them in any order.
import Mathlib.Data.List.AList

/-!
# Hash maps

A hash map holds one value for a key, and has no order: what an iteration visits
is some permutation of its entries.
-/

namespace Collections

abbrev HashMap (κ ν : Type) := AList fun _ : κ => ν

namespace HashMap

variable {κ ν : Type}

/-- The entries, in some order. -/
def Iterates (map : HashMap κ ν) (entries : List (κ × ν)) : Prop :=
  (entries.map fun entry => (⟨entry.1, entry.2⟩ : (_ : κ) × ν)).Perm map.entries

/-- One order is that of the list itself. -/
theorem iterates_entries (map : HashMap κ ν) :
    map.Iterates (map.entries.map fun entry => (entry.1, entry.2)) := by
  rw [Iterates, List.map_map]
  exact (List.map_id _).symm ▸ List.Perm.refl _

variable {map : HashMap κ ν} {entries : List (κ × ν)}

/-- No key is visited twice. -/
theorem Iterates.keys (h : map.Iterates entries) : (entries.map (·.1)).Nodup := by
  have hkeys := (h.map Sigma.fst).nodup_iff.mpr map.keys_nodup
  rwa [List.map_map] at hkeys

variable [DecidableEq κ]

/-- What is visited is what the map holds. -/
theorem Iterates.mem (h : map.Iterates entries) {key : κ} {value : ν} :
    (key, value) ∈ entries ↔ map.lookup key = some value := by
  have hentry : (⟨key, value⟩ : (_ : κ) × ν) ∈ map.entries ↔ (key, value) ∈ entries := by
    rw [← h.mem_iff, List.mem_map]
    refine ⟨?_, fun hmem => ⟨_, hmem, rfl⟩⟩
    rintro ⟨⟨key', value'⟩, hmem, heq⟩
    cases heq
    exact hmem
  rw [← hentry]
  exact AList.mem_lookup_iff.symm

/-- Insert the same value under each of the keys. -/
def insertAll (map : HashMap κ ν) (keys : List κ) (value : ν) : HashMap κ ν :=
  keys.foldl (fun map key => map.insert key value) map

@[simp] theorem lookup_insertAll (map : HashMap κ ν) (keys : List κ) (value : ν) (key : κ) :
    (map.insertAll keys value).lookup key = if key ∈ keys then some value else map.lookup key := by
  unfold insertAll
  induction keys generalizing map with
  | nil => simp
  | cons first keys ih =>
    rw [List.foldl_cons, ih]
    by_cases hmem : key ∈ keys
    · simp [hmem]
    · by_cases heq : key = first
      · subst heq
        simp [hmem]
      · simp [hmem, heq, AList.lookup_insert_ne heq]

/-- `entry(key).and_modify(modify).or_insert(new)` -/
def modifyOrInsert (map : HashMap κ ν) (key : κ) (modify : ν → ν) (new : ν) : HashMap κ ν :=
  match map.lookup key with
  | some value => map.insert key (modify value)
  | none => map.insert key new

theorem lookup_modifyOrInsert (map : HashMap κ ν) (key : κ) (modify : ν → ν) (new : ν) (key' : κ) :
    (map.modifyOrInsert key modify new).lookup key' =
      if key' = key then some ((map.lookup key).elim new modify) else map.lookup key' := by
  unfold modifyOrInsert
  by_cases heq : key' = key
  · subst heq
    cases map.lookup key' <;> simp
  · cases map.lookup key <;> simp [heq, AList.lookup_insert_ne heq]

end HashMap

end Collections
