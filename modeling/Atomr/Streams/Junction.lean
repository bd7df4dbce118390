import Atomr.Library.Runs
import Atomr.Library.Unfold
import Mathlib.Algebra.Ring.Nat
import Mathlib.Data.List.Infix

/-! Junctions that merge two inputs.

Elements are sent with the input they came from, so that the order of each input can be read off the output. Which
input is ready when `select` looks at both is for the labels of a run to say.
-/

namespace Atomr.Streams

open Library List

inductive Input where
  | a
  | b
  deriving DecidableEq

def Input.other : Input → Input
  | .a => .b
  | .b => .a

section Sent

variable {T : Type} {sent : List (Input × T)} {input : Input} {v : T}

def sentFrom (input : Input) (sent : List (Input × T)) : List T := (sent.filter (·.1 = input)).map (·.2)

theorem mem_sentFrom : v ∈ sentFrom input sent ↔ (input, v) ∈ sent := by
  simp [sentFrom]

end Sent

structure PrioritizedMerge (T : Type) where
  source : Input → List T
  budget : Input → Nat
  ended : Input → Bool
  panicked : Bool
  sent : List (Input × T)

namespace PrioritizedMerge

variable {T : Type}

def new (source : Input → List T) (weight : Input → Nat) : PrioritizedMerge T :=
  ⟨source, weight, fun _ => false, false, []⟩

/-- One turn of the loop, in which `select` takes this input. To poll an input again after its end is a panic,
unless the input is fused and gives its end again. -/
def step (fused : Input → Bool) (weight : Input → Nat) (state : PrioritizedMerge T) (input : Input) :
    Option (PrioritizedMerge T) :=
  if state.panicked = false ∧ state.budget input > 0 then
    match state.source input with
    | v :: rest =>
      let budget := Function.update state.budget input (state.budget input - 1)
      some { state with
        source := Function.update state.source input rest
        budget := if budget .a = 0 ∧ budget .b = 0 then weight else budget
        sent := state.sent ++ [(input, v)] }
    | [] =>
      if state.ended input = true ∧ fused input = false then some { state with panicked := true }
      else some { state with
        budget := Function.update state.budget input 0
        ended := Function.update state.ended input true }
  else none

/-- An end is seen only while the budget of the other input is not used up, or nothing is left there, and not
again unless the input is fused. -/
def Timely (fused : Input → Bool) (state : PrioritizedMerge T) (input : Input) : Prop :=
  state.source input = [] → (state.budget input.other = 0 → state.source input.other = []) ∧
    (state.ended input = true → fused input = true)

instance [DecidableEq T] (fused : Input → Bool) (state : PrioritizedMerge T) (input : Input) :
    Decidable (Timely fused state input) := inferInstanceAs (Decidable (_ → _ ∧ _))

variable {fused : Input → Bool} {weight : Input → Nat} {source : Input → List T} {state next : PrioritizedMerge T}
  {input : Input} {actions : List Input}

theorem step_cases (stepped : step fused weight state input = some next) :
    state.panicked = false ∧ 0 < state.budget input ∧
    ((∃ v rest, state.source input = v :: rest ∧ next.source = Function.update state.source input rest ∧
        next.panicked = false ∧ next.sent = state.sent ++ [(input, v)] ∧
        (next.budget = weight ∨ ∃ other, next.budget other ≠ 0)) ∨
      state.source input = [] ∧ next.source = state.source ∧ next.sent = state.sent ∧
        ((state.ended input = true ∧ fused input = false) ∧ next.panicked = true ∨
          next.panicked = false ∧ next.budget = Function.update state.budget input 0)) := by
  unfold step at stepped
  split at stepped
  next allowed =>
    refine ⟨allowed.1, allowed.2, ?_⟩
    split at stepped
    next v rest more =>
      cases stepped
      refine .inl ⟨v, rest, more, rfl, allowed.1, rfl, ?_⟩
      dsimp only
      split
      · exact .inl rfl
      next spent =>
        refine .inr (Classical.not_forall.mp fun none => ?_)
        exact spent ⟨none .a, none .b⟩
    next empty =>
      split at stepped <;> cases stepped
      next again => exact .inr ⟨empty, rfl, rfl, .inl ⟨again, rfl⟩⟩
      next => exact .inr ⟨empty, rfl, rfl, .inr ⟨allowed.1, rfl⟩⟩
  · cases stepped

/-- Turns that a merge can still take: an element may bring back both budgets, and with them the sight of two ends. -/
def turns (state : PrioritizedMerge T) : Nat :=
  if state.panicked then 0
  else 3 * ((state.source .a).length + (state.source .b).length) + min (state.budget .a) 1 + min (state.budget .b) 1

theorem turns_step (stepped : step fused weight state input = some next) : turns next < turns state := by
  obtain ⟨running, allowed, ⟨v, rest, more, src, running', -⟩ | ⟨-, src, -, ⟨-, panicked⟩ | ⟨running', spent⟩⟩⟩ :=
    step_cases stepped
  · cases input <;> simp [turns, src, more, running, running'] <;> omega
  · cases input <;> simp [turns, running, panicked] <;> omega
  · cases input <;> simp [turns, src, running, running', spent] <;> omega

theorem kept_run {guard : PrioritizedMerge T → Input → Prop}
    (run : Run (step fused weight) guard (.new source weight) actions state) (input : Input) :
    sentFrom input state.sent ++ state.source input = source input := by
  refine run.invariant (fun state => ∀ input, sentFrom input state.sent ++ state.source input = source input) ?_
    (fun _ => rfl) input
  intro state taken next kept _ stepped other
  rw [← kept other]
  obtain ⟨-, -, ⟨v, rest, more, left, -, sent, -⟩ | ⟨-, left, sent, -⟩⟩ := step_cases stepped
  · rw [left, sent]
    by_cases same : taken = other
    · subst same
      simp [sentFrom, more]
    · simp [sentFrom, same, Function.update_of_ne (Ne.symm same)]
  · rw [left, sent]

def Finished (state : PrioritizedMerge T) : Prop :=
  state.panicked = false ∧ ((∀ input, state.budget input = 0) → ∀ input, state.source input = [])

theorem finished_run (positive : ∀ input, 1 ≤ weight input)
    (run : Run (step fused weight) (Timely fused) (.new source weight) actions state) : Finished state := by
  refine run.invariant Finished ?_ ⟨rfl, fun none => absurd (none .a) (Nat.one_le_iff_ne_zero.mp (positive .a))⟩
  intro state input next _ timely stepped
  obtain ⟨-, -, ⟨v, rest, -, -, running, -, refilled | ⟨other, left⟩⟩ | ⟨empty, src, -, ⟨again, -⟩ | ⟨running, spent⟩⟩⟩ :=
    step_cases stepped
  · refine ⟨running, fun none => absurd (none input) ?_⟩
    rw [refilled]
    exact Nat.one_le_iff_ne_zero.mp (positive input)
  · exact ⟨running, fun none => absurd (none other) left⟩
  · have fine := (timely empty).2 again.1
    rw [again.2] at fine
    cases fine
  · refine ⟨running, fun none => ?_⟩
    rw [spent] at none
    have last : state.source input.other = [] := by
      refine (timely empty).1 ?_
      cases input with
      | a => exact none .b
      | b => exact none .a
    rw [src]
    intro other
    cases input <;> cases other <;> assumption

theorem merge_prioritized_complete (fused : Input → Bool) {weight : Input → Nat} (positive : ∀ input, 1 ≤ weight input)
    {source : Input → List T} {actions : List Input} {state : PrioritizedMerge T}
    (run : Run (step fused weight) (fun _ _ => True) (.new source weight) actions state) :
    (∀ input, sentFrom input state.sent <+: source input) ∧
      actions.length ≤ 3 * ((source .a).length + (source .b).length) + 2 ∧
      (Run (step fused weight) (Timely fused) (.new source weight) actions state →
        (∀ input, step fused weight state input = none) → ∀ input, sentFrom input state.sent = source input) := by
  refine ⟨fun input => ⟨_, kept_run run input⟩, ?_, fun timely returned input => ?_⟩
  · have bound := (run.length_add_le (fun _ => True) turns (fun _ _ _ _ _ taken => ⟨trivial, turns_step taken⟩) trivial).2
    simp only [turns, new, Bool.false_eq_true, if_false] at bound
    omega
  · obtain ⟨running, finished⟩ := finished_run positive timely
    have spent : ∀ input, state.budget input = 0 := by
      intro other
      have stopped := returned other
      unfold step at stopped
      split at stopped
      · split at stopped
        · cases stopped
        · split at stopped <;> cases stopped
      next stays => exact Nat.eq_zero_of_not_pos fun left => stays ⟨running, left⟩
    rw [← kept_run run input, finished spent input, append_nil]

def twoAndOne : Input → List Nat
  | .a => [1, 2]
  | .b => [3]

theorem merge_prioritized_two_and_one : ∃ state,
    Run (step (fun _ => false) fun _ => 1) (Timely fun _ => false) (.new twoAndOne fun _ => 1) [.a, .b, .a, .b] state ∧
      ∀ input, sentFrom input state.sent = twoAndOne input := by
  obtain ⟨state, run, atA, atB⟩ : ∃ state,
      Run (step (fun _ => false) fun _ => 1) (Timely fun _ => false) (.new twoAndOne fun _ => 1) [.a, .b, .a, .b] state ∧
      (step (fun _ => false) (fun _ => 1) state .a).isNone ∧ (step (fun _ => false) (fun _ => 1) state .b).isNone :=
    Run.exists_of_foldlM (by decide)
  have returned : ∀ input, step (fun _ => false) (fun _ => 1) state input = none := by
    intro input
    cases input with
    | a => exact Option.isNone_iff_eq_none.mp atA
    | b => exact Option.isNone_iff_eq_none.mp atB
  exact ⟨state, run,
    (merge_prioritized_complete _ (fun _ => le_rfl) (run.imp fun _ _ _ => trivial)).2.2 run returned⟩

/-- The end of an empty input is seen while the budget of the other is used up, and its second element is lost. -/
theorem merge_prioritized_drops : ∃ state : PrioritizedMerge Nat,
    Run (step (fun _ => true) fun _ => 1) (fun _ _ => True)
      (.new (fun input => if input = .a then [1, 2] else []) fun _ => 1) [.a, .b] state ∧
      (step (fun _ => true) (fun _ => 1) state .a).isNone ∧ (step (fun _ => true) (fun _ => 1) state .b).isNone ∧
      state.sent = [(.a, 1)] :=
  Run.exists_of_foldlM (by decide)

end PrioritizedMerge

/-- One element of each input is held ahead. -/
structure SortedMerge (T : Type) where
  headA : Option T
  headB : Option T
  sa : List T
  sb : List T

namespace SortedMerge

variable {T : Type}

def new (a b : List T) : SortedMerge T := ⟨a.head?, b.head?, a.tail, b.tail⟩

/-- The element sent next. To drain one input is to go on with its head alone. -/
def step [LE T] [DecidableLE T] (state : SortedMerge T) : Option (Input × T) × SortedMerge T :=
  match state.headA, state.headB with
  | none, none => (none, state)
  | some x, none => (some (.a, x), { state with headA := state.sa.head?, sa := state.sa.tail })
  | none, some y => (some (.b, y), { state with headB := state.sb.head?, sb := state.sb.tail })
  | some x, some y =>
    if x ≤ y then (some (.a, x), { state with headA := state.sa.head?, sa := state.sa.tail })
    else (some (.b, y), { state with headB := state.sb.head?, sb := state.sb.tail })

/-- In ascending order, and an element of `b` before one of `a` only if it is less. -/
def Before [LE T] (first second : Input × T) : Prop :=
  first.2 ≤ second.2 ∧ (first.1 = .b → second.1 = .a → ¬ second.2 ≤ first.2)

structure StableMerge [LE T] (a b : List T) (out : List (Input × T)) : Prop where
  fromA : sentFrom .a out = a
  fromB : sentFrom .b out = b
  ordered : out.Pairwise Before

section Merged

variable [Preorder T] {a b : List T} {x y : T} {out : List (Input × T)} (merged : StableMerge a b out)
include merged

theorem StableMerge.before {first : Input × T} (beforeA : ∀ v ∈ a, Before first (.a, v))
    (beforeB : ∀ v ∈ b, Before first (.b, v)) : ∀ second ∈ out, Before first second := by
  rintro ⟨inp, v⟩ mem
  cases inp with
  | a => exact beforeA v (merged.fromA ▸ mem_sentFrom.mpr mem)
  | b => exact beforeB v (merged.fromB ▸ mem_sentFrom.mpr mem)

theorem StableMerge.consA (leastA : ∀ v ∈ a, x ≤ v) (leastB : ∀ v ∈ b, x ≤ v) :
    StableMerge (x :: a) b ((.a, x) :: out) where
  fromA := by
    rw [← merged.fromA]
    rfl
  fromB := merged.fromB
  ordered := .cons (merged.before (fun v mem => ⟨leastA v mem, nofun⟩) fun v mem => ⟨leastB v mem, nofun⟩)
    merged.ordered

theorem StableMerge.consB (less : ∀ v ∈ a, y ≤ v ∧ ¬ v ≤ y) (leastB : ∀ v ∈ b, y ≤ v) :
    StableMerge a (y :: b) ((.b, y) :: out) where
  fromA := merged.fromA
  fromB := by
    rw [← merged.fromB]
    rfl
  ordered := .cons (merged.before (fun v mem => ⟨(less v mem).1, fun _ _ => (less v mem).2⟩)
    fun v mem => ⟨leastB v mem, nofun⟩) merged.ordered
omit merged

theorem merge_sorted [DecidableLE T] (total : ∀ x y : T, x ≤ y ∨ y ≤ x) {a b : List T} (ascendingA : a.Pairwise (· ≤ ·))
    (ascendingB : b.Pairwise (· ≤ ·)) :
    ∃ out last, Unfolds step (new a b) out last ∧ StableMerge a b out := by
  induction a generalizing b with
  | nil =>
    induction b with
    | nil => exact ⟨[], _, .ended rfl, rfl, rfl, .nil⟩
    | cons y b ih =>
      obtain ⟨leastB, laterB⟩ := pairwise_cons.mp ascendingB
      obtain ⟨out, last, unfolds, merged⟩ := ih laterB
      exact ⟨_, last, .emits rfl unfolds, merged.consB (forall_mem_nil _) leastB⟩
  | cons x a ihA =>
    obtain ⟨leastA, laterA⟩ := pairwise_cons.mp ascendingA
    induction b with
    | nil =>
      obtain ⟨out, last, unfolds, merged⟩ := ihA laterA .nil
      exact ⟨_, last, .emits rfl unfolds, merged.consA leastA (forall_mem_nil _)⟩
    | cons y b ihB =>
      obtain ⟨leastB, laterB⟩ := pairwise_cons.mp ascendingB
      by_cases first : x ≤ y
      · obtain ⟨out, last, unfolds, merged⟩ := ihA laterA ascendingB
        refine ⟨_, last, .emits (if_pos first) unfolds, merged.consA leastA ?_⟩
        exact forall_mem_cons.mpr ⟨first, fun v mem => first.trans (leastB v mem)⟩
      · obtain ⟨out, last, unfolds, merged⟩ := ihB laterB
        have least : y ≤ x := (total x y).resolve_left first
        refine ⟨_, last, .emits (if_neg first) unfolds, merged.consB (forall_mem_cons.mpr ⟨⟨least, first⟩, ?_⟩) leastB⟩
        exact fun v mem => ⟨least.trans (leastA v mem), fun back => first ((leastA v mem).trans back)⟩

end Merged

theorem merge_sorted_tied :
    ∃ last, Unfolds step (new [1, 3] [1, 2]) [(.a, 1), (.b, 1), (.b, 2), (.a, 3)] last ∧
      StableMerge [1, 3] [1, 2] [(.a, 1), (.b, 1), (.b, 2), (.a, 3)] := by
  obtain ⟨out, last, unfolds, merged⟩ := merge_sorted Nat.le_total (a := [1, 3]) (b := [1, 2]) (by decide) (by decide)
  obtain ⟨rfl, rfl⟩ := unfolds.unique (.emits rfl (.emits rfl (.emits rfl (.emits rfl (.ended rfl)))))
  exact ⟨_, unfolds, merged⟩

end SortedMerge

end Atomr.Streams
