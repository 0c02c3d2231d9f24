-- SUMMARY: Values that data is serialized to, and how derived deserializers read them.
import Mathlib.Logic.Basic

/-!
# Derived deserializers

A struct reads its fields by their keys and ignores other keys. An untagged enum
tries its variants in the order of their declaration. A flattened field reads the
keys that the outer struct does not claim.
-/

namespace Serde

inductive Value where
  | number (n : Nat)
  | string (s : String)
  | seq (items : List Value)
  | map (entries : List (String × Value))

abbrev Deserializer (α : Type) := Value → Option α

variable {α β : Type}

def string : Deserializer String
  | .string s => some s
  | _ => none

def u16 : Deserializer UInt16
  | .number n => if n < UInt16.size then some (.ofNat n) else none
  | _ => none

def seq (item : Deserializer α) : Deserializer (List α)
  | .seq items => items.mapM item
  | _ => none

/-- The field of a struct. The key has to be there, and only once. -/
def field (key : String) (value : Deserializer α) (entries : List (String × Value)) : Option α :=
  match entries.filter (·.1 = key) with
  | [entry] => value entry.2
  | _ => none

def struct (fields : List (String × Value) → Option α) : Deserializer α
  | .map entries => fields entries
  | _ => none

def untagged (variants : List (Deserializer α)) : Deserializer α := fun value =>
  variants.findSome? (· value)

/-- The entries that are left for a flattened field. -/
def unclaimed (keys : List String) (entries : List (String × Value)) : List (String × Value) :=
  entries.filter (·.1 ∉ keys)

/-! ## What they read -/

@[simp] theorem string_string (s : String) : string (.string s) = some s := rfl

@[simp] theorem u16_number (n : UInt16) : u16 (.number n.toNat) = some n := by
  rw [u16, if_pos n.toNat_lt, UInt16.ofNat_toNat]

@[simp] theorem struct_map (fields : List (String × Value) → Option α)
    (entries : List (String × Value)) : struct fields (.map entries) = fields entries := rfl

theorem mapM_map {item : Deserializer β} {write : α → Value} {read : α → β}
    (h : ∀ a, item (write a) = some (read a)) (items : List α) :
    (items.map write).mapM item = some (items.map read) := by
  induction items with
  | nil => rfl
  | cons a items ih => simp [h, ih]

theorem seq_map {item : Deserializer α} {write : α → Value} (h : ∀ a, item (write a) = some a)
    (items : List α) : seq item (.seq (items.map write)) = some items := by
  rw [seq, mapM_map h, List.map_id']

end Serde
