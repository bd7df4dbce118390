import Mathlib.Order.Lattice
import Mathlib.Order.Nat

/-! Replicated values explained by the writes a version has seen.

Every node numbers its own events. A version says how far each node's events
have been seen; an event assigns values to some keys, and may assign `none` to
delete one. The histories below list the newest event first, in one order for
the whole system. What a replica should hold follows from its version alone.
-/

namespace Atomr.Library

open List

variable {N K V : Type}

/-- The `index`-th event of `node`, with the keys it assigns. -/
structure StampedWrite (N K V : Type) where
  node : N
  index : Nat
  writes : K → Option (Option V)

namespace StampedWrite

def SeenBy (event : StampedWrite N K V) (version : N → Nat) : Prop := event.index ≤ version event.node
deriving Decidable

def latest : List (StampedWrite N K V) → (N → Nat) → K → Option V
  | [], _, _ => none
  | event :: older, version, key =>
    if event.SeenBy version then (event.writes key).getD (latest older version key)
    else latest older version key

variable {ev : StampedWrite N K V} {v w ver : N → Nat} {hist : List (StampedWrite N K V)} {k : K}

theorem seenBy_sup : ev.SeenBy (v ⊔ w) ↔ ev.SeenBy v ∨ ev.SeenBy w := le_sup_iff

theorem latest_congr (eq : ∀ ev ∈ hist, ev.SeenBy v ↔ ev.SeenBy w) (k : K) :
    latest hist v k = latest hist w k := by
  induction hist with
  | nil => rfl
  | cons ev older ih =>
    have tail := ih fun other mem => eq other (mem_cons_of_mem ev mem)
    simp only [latest, eq ev mem_cons_self, tail]

theorem latest_cons_unseen (unseen : ¬ ev.SeenBy ver) (hist : List (StampedWrite N K V)) (k : K) :
    latest (ev :: hist) ver k = latest hist ver k :=
  if_neg unseen

theorem latest_cons_seen (seen : ev.SeenBy ver) (hist : List (StampedWrite N K V)) (k : K) :
    latest (ev :: hist) ver k = (ev.writes k).getD (latest hist ver k) :=
  if_pos seen

theorem latest_sup_of_eq (agree : latest hist v k = latest hist w k) :
    latest hist (v ⊔ w) k = latest hist v k := by
  induction hist with
  | nil => rfl
  | cons ev older ih =>
    simp only [latest, seenBy_sup] at agree ⊢
    -- Only an event that assigns the key matters, and the join sees it when either version does.
    cases written : ev.writes k with
    | none =>
      simp only [written, Option.getD_none, ite_self] at agree ⊢
      exact ih agree
    | some val =>
      simp only [written] at agree ⊢
      by_cases first : ev.SeenBy v
      · simp [first]
      · by_cases second : ev.SeenBy w
        · simp only [first, second] at agree ⊢
          exact agree.symm
        · simp only [first, second] at agree ⊢
          exact ih agree

theorem latest_sup_of_unwritten (unwritten : ∀ ev ∈ hist, ev.SeenBy v → ev.writes k = none) :
    latest hist (v ⊔ w) k = latest hist w k := by
  induction hist with
  | nil => rfl
  | cons ev older ih =>
    have tail := ih fun other mem => unwritten other (mem_cons_of_mem ev mem)
    simp only [latest, seenBy_sup, tail]
    by_cases first : ev.SeenBy v
    · simp [unwritten ev mem_cons_self first]
    · simp [first]

theorem unwritten_of_latest_eq_none (kept : ∀ ev ∈ hist, ev.writes k ≠ some none)
    (ha : latest hist ver k = none) :
    ∀ ev ∈ hist, ev.SeenBy ver → ev.writes k = none := by
  induction hist with
  | nil => simp
  | cons ev older ih =>
    have older_kept := fun other mem => kept other (mem_cons_of_mem ev mem)
    have here := kept ev mem_cons_self
    intro other mem seen
    cases written : ev.writes k with
    | none =>
      have tail : latest older ver k = none := by simpa [latest, written] using ha
      rcases mem_cons.mp mem with rfl | mem
      · exact written
      · exact ih older_kept tail other mem seen
    | some v =>
      -- Had the version seen this value it would read it, so the older events decide.
      cases v with
      | none => exact absurd written here
      | some v =>
        by_cases first : ev.SeenBy ver
        · simp [latest, first, written] at ha
        · rcases mem_cons.mp mem with rfl | mem
          · exact absurd seen first
          · exact ih older_kept (by simpa [latest, first] using ha) other mem seen

end StampedWrite

end Atomr.Library
