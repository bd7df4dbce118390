import Atomr.Library.KeyList
import Mathlib.Data.String.Basic

/-! Values of a configuration, and the places in them.

A float is a value of a type that is not looked into. An object is a list of entries in the
order of the keys, as the tree map of the program is gone through.
-/

namespace Atomr.Config

open Library

inductive ConfigValue (F : Type) where
  | null
  | bool (value : Bool)
  | int (value : Int)
  | float (value : F)
  | string (value : String)
  | array (items : List (ConfigValue F))
  | object (entries : List (String × ConfigValue F))
  deriving Repr

abbrev Entries (F : Type) := List (String × ConfigValue F)

inductive Place where
  | key (key : String)
  | index (index : Nat)
  deriving DecidableEq, Repr

namespace ConfigValue

variable {F : Type}

def child : ConfigValue F → Place → Option (ConfigValue F)
  | .object entries, .key key => KeyList.get entries key
  | .array items, .index index => items[index]?
  | _, _ => none

def find : List Place → ConfigValue F → Option (ConfigValue F)
  | [], value => some value
  | place :: rest, value => (value.child place).bind (find rest)

theorem child_eq_some {v inner : ConfigValue F} {place : Place} (found : v.child place = some inner) :
    (∃ xs i, v = .array xs ∧ place = .index i ∧ xs[i]? = some inner) ∨
      ∃ es k, v = .object es ∧ place = .key k ∧ KeyList.get es k = some inner := by
  unfold child at found
  split at found
  next es k => exact .inr ⟨es, k, rfl, rfl, found⟩
  next xs i => exact .inl ⟨xs, i, rfl, rfl, found⟩
  · cases found

section Equality

variable [DecidableEq F]

mutual

def same : ConfigValue F → ConfigValue F → Bool
  | .null, .null => true
  | .bool a, .bool b => a = b
  | .int a, .int b => a = b
  | .float a, .float b => a = b
  | .string a, .string b => a = b
  | .array a, .array b => sameItems a b
  | .object a, .object b => sameEntries a b
  | _, _ => false

def sameItems : List (ConfigValue F) → List (ConfigValue F) → Bool
  | [], [] => true
  | a :: rest, b :: others => a.same b && sameItems rest others
  | _, _ => false

def sameEntries : Entries F → Entries F → Bool
  | [], [] => true
  | (k, a) :: rest, (l, b) :: others => k = l && a.same b && sameEntries rest others
  | _, _ => false

end

mutual

theorem same_iff : (a b : ConfigValue F) → (a.same b = true ↔ a = b)
  | .null, b => by cases b <;> simp [same]
  | .bool _, b => by cases b <;> simp [same]
  | .int _, b => by cases b <;> simp [same]
  | .float _, b => by cases b <;> simp [same]
  | .string _, b => by cases b <;> simp [same]
  | .array items, b => by cases b <;> simp [same, sameItems_iff items]
  | .object entries, b => by cases b <;> simp [same, sameEntries_iff entries]

theorem sameItems_iff : (a b : List (ConfigValue F)) → (sameItems a b = true ↔ a = b)
  | [], b => by cases b <;> simp [sameItems]
  | item :: rest, b => by cases b <;> simp [sameItems, same_iff item, sameItems_iff rest]

theorem sameEntries_iff : (a b : Entries F) → (sameEntries a b = true ↔ a = b)
  | [], b => by cases b <;> simp [sameEntries]
  | (k, v) :: rest, b => by cases b <;> simp [sameEntries, same_iff v, sameEntries_iff rest, Prod.ext_iff]

end

instance : DecidableEq (ConfigValue F) := fun a b => decidable_of_iff _ (same_iff a b)

end Equality

/-- The keys of every object in the value are in order. -/
inductive WellFormed : ConfigValue F → Prop where
  | null : WellFormed .null
  | bool (value : Bool) : WellFormed (.bool value)
  | int (value : Int) : WellFormed (.int value)
  | float (value : F) : WellFormed (.float value)
  | string (value : String) : WellFormed (.string value)
  | array {items : List (ConfigValue F)} : (∀ item ∈ items, WellFormed item) → WellFormed (.array items)
  | object {entries : Entries F} : KeyList.InOrder entries → (∀ entry ∈ entries, WellFormed entry.2) →
      WellFormed (.object entries)

namespace WellFormed

variable {es : Entries F} {v : ConfigValue F}

theorem nil : WellFormed (.object [] : ConfigValue F) := .object .nil (fun _ mem => absurd mem List.not_mem_nil)

theorem get (wf : WellFormed (.object es)) {k : String} (found : KeyList.get es k = some v) :
    WellFormed v := by
  cases wf with
  | object _ vals => exact vals _ (KeyList.mem_of_get found)

theorem insert (wf : WellFormed (.object es)) (k : String) (valueWellFormed : WellFormed v) :
    WellFormed (.object (KeyList.insert k v es)) := by
  cases wf with
  | object inOrder vals =>
    refine .object (inOrder.insert k v) fun e mem => ?_
    rcases KeyList.mem_insert mem with rfl | old
    · exact valueWellFormed
    · exact vals e old

end WellFormed

end ConfigValue

end Atomr.Config
