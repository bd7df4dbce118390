import Mathlib.Init

/-! Runs of a labelled transition system.

A step may be disabled. A guard restricts the actions a run may take in the
state before each of them; the unrestricted runs are those guarded by `True`.
-/

namespace Atomr.Library

open List

variable {State Action : Type} {step : State → Action → Option State} {guard : State → Action → Prop}

/-- The actions lead from the first state to the last, in order, and each one
meets the guard in the state where it is taken. -/
inductive Run (step : State → Action → Option State) (guard : State → Action → Prop) :
    State → List Action → State → Prop where
  | nil (state : State) : Run step guard state [] state
  | cons {state next final : State} {action : Action} {rest : List Action} :
      guard state action → step state action = some next → Run step guard next rest final →
      Run step guard state (action :: rest) final

variable {acts : List Action} {fin first : State} (run : Run step guard first acts fin)
include run

theorem Run.imp {weaker : State → Action → Prop} (implies : ∀ st act, guard st act → weaker st act) :
    Run step weaker first acts fin := by
  induction run with
  | nil st => exact .nil st
  | cons allowed taken _ ih => exact .cons (implies _ _ allowed) taken ih

/-- What every guarded step keeps, every guarded run keeps. -/
theorem Run.invariant (Inv : State → Prop)
    (pres : ∀ st act next, Inv st → guard st act → step st act = some next → Inv next)
    (start : Inv first) : Inv fin := by
  induction run with
  | nil st => exact start
  | cons allowed taken rest ih => exact ih (pres _ _ _ start allowed taken)

theorem Run.length_add_le (Inv : State → Prop) (measure : State → Nat)
    (lower : ∀ st act next, Inv st → guard st act → step st act = some next →
      Inv next ∧ measure next < measure st) (start : Inv first) :
    Inv fin ∧ acts.length + measure fin ≤ measure first := by
  induction run with
  | nil st => exact ⟨start, Nat.le_of_eq (Nat.zero_add _)⟩
  | cons allowed taken _ ih =>
    obtain ⟨kept, less⟩ := lower _ _ _ start allowed taken
    obtain ⟨h, bound⟩ := ih kept
    refine ⟨h, ?_⟩
    rw [length_cons]
    omega
omit run

/-- A relation between the ends of a run, from one between the ends of a step.
The step may use the invariant and the action it is labelled with. -/
theorem Run.relation {Inv : State → Prop} (Rel : State → State → Prop) {allowed : Action → Prop}
    (run : Run step guard first acts fin) (labels : ∀ act ∈ acts, allowed act)
    (pres : ∀ st act next, Inv st → guard st act → step st act = some next → Inv next)
    (refl : ∀ st, Rel st st)
    (extend : ∀ st act next last, Inv st → guard st act → allowed act →
      step st act = some next → Rel next last → Rel st last) (start : Inv first) : Rel first fin := by
  induction run with
  | nil st => exact refl st
  | cons guarded taken rest ih =>
    have tail := ih (fun act mem => labels act (mem_cons_of_mem _ mem))
      (pres _ _ _ start guarded taken)
    exact extend _ _ _ _ start guarded (labels _ mem_cons_self) taken tail

theorem Run.of_foldlM [∀ st act, Decidable (guard st act)]
    (exec : acts.foldlM (fun st act => if guard st act then step st act else none)
      first = some fin) : Run step guard first acts fin := by
  induction acts generalizing first with
  | nil =>
    cases exec
    exact .nil _
  | cons act rest ih =>
    rw [foldlM_cons, Option.bind_eq_bind, Option.bind_eq_some_iff] at exec
    obtain ⟨next, taken, exec⟩ := exec
    split at taken
    next allowed => exact .cons allowed taken (ih exec)
    · cases taken

/-- Executing the actions yields a run, and with it what follows from that. -/
theorem Run.executed [∀ st act, Decidable (guard st act)] {P : State → Prop}
    (reached : acts.foldlM (fun st act => if guard st act then step st act else none)
      first = some fin) (holds : Run step guard first acts fin → P fin) :
    ∃ fin, Run step guard first acts fin ∧ P fin :=
  ⟨fin, Run.of_foldlM reached, holds (Run.of_foldlM reached)⟩

/-- A run is found by executing its actions, and what holds at its end by evaluation there. -/
theorem Run.exists_of_foldlM [∀ st act, Decidable (guard st act)] {P : State → Prop} [DecidablePred P]
    (exec : ((acts.foldlM (fun st act => if guard st act then step st act else none)
      first).any fun fin => P fin) = true) : ∃ fin, Run step guard first acts fin ∧ P fin := by
  obtain ⟨fin, reached, holds⟩ := (Option.any_eq_true ..).mp exec
  exact ⟨fin, Run.of_foldlM reached, of_decide_eq_true holds⟩

/-- What a step of one of several parts leaves alone. -/
theorem map_set_of_eq {α β : Type} {parts : List α} {i : Nat} {part changed : α}
    (found : parts[i]? = some part) {f : α → β} (eq : f changed = f part) :
    (parts.set i changed).map f = parts.map f := by
  obtain ⟨hi, rfl⟩ := List.getElem?_eq_some_iff.mp found
  rw [map_set, eq, ← map_set, set_getElem_self]

end Atomr.Library
