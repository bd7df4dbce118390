import Mathlib.Init

/-! Streams that a step function unfolds.

A step leaves the next state, with an element or with none at the end. Only streams that end are described, so that
to unfold to a list says that the stream ends after it.
-/

namespace Atomr.Library

variable {S V : Type} {step : S → Option V × S}

/-- From the first state the stream gives these elements and ends, in the last state. -/
inductive Unfolds (step : S → Option V × S) : S → List V → S → Prop where
  | ended {state last : S} : step state = (none, last) → Unfolds step state [] last
  | emits {state next last : S} {value : V} {rest : List V} : step state = (some value, next) →
      Unfolds step next rest last → Unfolds step state (value :: rest) last

variable {st other last last' : S} {vals values' : List V}

theorem Unfolds.unique (first : Unfolds step st vals last) (second : Unfolds step st values' last') :
    vals = values' ∧ last = last' := by
  induction first generalizing values' with
  | ended ends =>
    cases second with
    | ended again =>
      rw [ends] at again
      cases again
      exact ⟨rfl, rfl⟩
    | emits hem =>
      rw [ends] at hem
      cases hem
  | emits hem rest ih =>
    cases second with
    | ended ends =>
      rw [hem] at ends
      cases ends
    | emits again later =>
      rw [hem] at again
      cases again
      obtain ⟨rfl, rfl⟩ := ih later
      exact ⟨rfl, rfl⟩

theorem Unfolds.of_step (eq : step st = step other) (unf : Unfolds step other vals last) :
    Unfolds step st vals last := by
  cases unf with
  | ended ends => exact .ended (eq.trans ends)
  | emits hem rest => exact .emits (eq.trans hem) rest

end Atomr.Library
