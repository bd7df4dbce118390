import Mathlib.Data.List.Forall2
import Mathlib.Data.List.Induction

/-! Hash chains: each item is hashed together with the hash of the item before it.

A digest is binding only for the inputs that were hashed, so the results assume that those
inputs do not collide. A hash with outputs of one width cannot be injective on all inputs.
-/

namespace Atomr.Library.HashChain

open List

variable {A : Type} (hash : List UInt8 → List UInt8) (input : List UInt8 → A → List UInt8)

/-- The hash after the items. -/
def running (prev : List UInt8) (items : List A) : List UInt8 :=
  items.foldl (fun prev item => hash (input prev item)) prev

def inputs : List UInt8 → List A → List (List UInt8)
  | _, [] => []
  | prev, item :: rest => input prev item :: inputs (hash (input prev item)) rest

def links : List UInt8 → List A → List (List UInt8 × List UInt8)
  | _, [] => []
  | prev, item :: rest => (prev, hash (input prev item)) :: links (hash (input prev item)) rest

def CollisionFree (first second : List (List UInt8)) : Prop := ∀ x ∈ first, ∀ y ∈ second, hash x = hash y → x = y
deriving Decidable

variable {hash input} {prev other : List UInt8}

theorem links_append (first second : List A) :
    links hash input prev (first ++ second) =
      links hash input prev first ++ links hash input (running hash input prev first) second := by
  induction first generalizing prev with
  | nil => rfl
  | cons x rest ih => exact congrArg ((prev, hash (input prev x)) :: ·) ih

theorem getLast?_links (xs : List A) :
    ((links hash input prev xs).getLast?.map Prod.snd).getD prev = running hash input prev xs := by
  induction xs using List.reverseRecOn with
  | nil => rfl
  | append_singleton xs x _ =>
    rw [links_append]
    simp [links, running]

variable {first second : List (List UInt8)} {x y : List UInt8}

theorem CollisionFree.tail (free : CollisionFree hash (x :: first) (y :: second)) : CollisionFree hash first second :=
  fun _ left _ right => free _ (mem_cons_of_mem _ left) _ (mem_cons_of_mem _ right)

theorem CollisionFree.head (free : CollisionFree hash (x :: first) (y :: second)) (eq : hash x = hash y) : x = y :=
  free _ mem_cons_self _ mem_cons_self eq

/-- The last hash is binding: chains over items that correspond have the same items, and go on
from the same hash, when they end in the same hash. -/
theorem eq_of_running_eq {Corresponds : A → A → Prop} {width : Nat} (fixed : ∀ x, (hash x).length = width)
    (unambiguous : ∀ prev other first second, prev.length = other.length → Corresponds first second →
      input prev first = input other second → prev = other ∧ first = second)
    {first second : List A} (corresponds : List.Forall₂ Corresponds first second)
    (lengths : prev.length = other.length)
    (free : CollisionFree hash (inputs hash input prev first) (inputs hash input other second))
    (eq : running hash input prev first = running hash input other second) : prev = other ∧ first = second := by
  induction corresponds generalizing prev other with
  | nil => exact ⟨eq, rfl⟩
  | cons here _ ih =>
    -- The rest binds the hashes of the first items, and these bind the first items.
    obtain ⟨hashes, rest⟩ := ih (by rw [fixed, fixed]) free.tail eq
    obtain ⟨pre, xs⟩ := unambiguous _ _ _ _ lengths here (free.head hashes)
    exact ⟨pre, by rw [xs, rest]⟩

end Atomr.Library.HashChain
