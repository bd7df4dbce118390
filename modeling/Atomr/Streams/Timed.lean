import Atomr.Library.Runs
import Mathlib.Data.List.Basic

/-! Elements grouped by number and by time.

What ends a wait is for the labels of a run to say: the deadline, from its instant on, or the next item. The elements
of a chunk are kept with the instants at which they arrived.
-/

namespace Atomr.Streams

open Library List Bool

structure Chunk (T : Type) where
  items : List (Nat × T)
  now : Nat
  inputEnded : Bool

inductive DeadlineOrItem where
  | deadline
  | item

structure GroupedWithin (T : Type) where
  inner : List T
  buf : List (Nat × T)
  deadline : Option Nat
  upstreamDone : Bool
  ended : Bool
  emitted : List (Chunk T)

namespace GroupedWithin

variable {T : Type}

def new (input : List T) : GroupedWithin T := ⟨input, [], none, false, false, []⟩

def emit (state : GroupedWithin T) (now : Nat) : GroupedWithin T :=
  { state with buf := [], emitted := state.emitted ++ [⟨state.buf, now, state.upstreamDone⟩] }

/-- An item is pulled into the buffer; the first one sets the deadline. -/
def push (duration now : Nat) (item : T) (rest : List T) (state : GroupedWithin T) : GroupedWithin T :=
  { state with
    inner := rest
    deadline := if state.buf.isEmpty then some (now + duration) else state.deadline
    buf := state.buf ++ [(now, item)] }

/-- One turn of the loop, with the instant and the outcome of its wait. -/
def step (n duration : Nat) (state : GroupedWithin T) (wait : Nat × DeadlineOrItem) : Option (GroupedWithin T) :=
  if state.ended then none
  else if state.upstreamDone then
    some (if state.buf.isEmpty then { state with ended := true } else state.emit wait.1)
  else
    match wait.2 with
    | .deadline =>
      if ∃ instant ∈ state.deadline, instant ≤ wait.1 then
        some { if state.buf.isEmpty then state else state.emit wait.1 with deadline := none }
      else none
    | .item =>
      match state.inner with
      | [] =>
        let state := { state with upstreamDone := true }
        some (if state.buf.isEmpty then { state with ended := true } else state.emit wait.1)
      | item :: rest =>
        let state := state.push duration wait.1 item rest
        some (if state.buf.length ≥ n then { state.emit wait.1 with deadline := none } else state)

end GroupedWithin

def Chunk.values {T : Type} (chunk : Chunk T) : List T := chunk.items.map (·.2)

def Chunk.Expired {T : Type} (duration : Nat) (chunk : Chunk T) : Prop :=
  ∃ first ∈ chunk.items.head?, first.1 + duration ≤ chunk.now

structure Chunk.Proper {T : Type} (n duration : Nat) (chunk : Chunk T) : Prop where
  nonempty : 1 ≤ chunk.items.length
  bounded : chunk.items.length ≤ n
  early : chunk.items.length < n → chunk.inputEnded ∨ chunk.Expired duration

namespace GroupedWithin

variable {T : Type} {n duration now : Nat} {input : List T} {state next : GroupedWithin T}
  {actions : List (Nat × DeadlineOrItem)}

/-- Turns that are left. An element may set a deadline. -/
def turns (state : GroupedWithin T) : Nat :=
  3 * state.inner.length + state.buf.length + state.deadline.isSome.toNat + (!state.upstreamDone).toNat + (!state.ended).toNat

structure Grouping (n duration : Nat) (input : List T) (state : GroupedWithin T) : Prop where
  whole : state.emitted.flatMap Chunk.values ++ (state.buf.map (·.2) ++ state.inner) = input
  proper : ∀ chunk ∈ state.emitted, chunk.Proper n duration
  bounded : state.buf.length ≤ n
  since : ∀ instant ∈ state.deadline, ∀ first ∈ state.buf.head?, instant = first.1 + duration
  done : state.upstreamDone → state.inner = []
  closed : state.ended → state.upstreamDone ∧ state.buf = []

theorem Grouping.emit (grouping : Grouping n duration input state) (hr : state.ended = false) (some : state.buf ≠ [])
    (early : state.buf.length < n → state.upstreamDone ∨ (⟨state.buf, now, state.upstreamDone⟩ : Chunk T).Expired duration) :
    Grouping n duration input (state.emit now) where
  whole := by
    rw [← grouping.whole]
    simp [GroupedWithin.emit, Chunk.values]
  proper := by
    refine forall_mem_append.mpr ⟨grouping.proper, forall_mem_singleton.mpr ⟨?_, grouping.bounded, early⟩⟩
    exact length_pos_iff.mpr some
  bounded := Nat.zero_le _
  since := fun _ _ _ first => by cases first
  done := grouping.done
  closed := fun ended => by simp [GroupedWithin.emit, hr] at ended

theorem turns_emit (some : state.buf ≠ []) : turns (state.emit now) < turns state := by
  have h := length_pos_iff.mpr some
  simp only [turns, GroupedWithin.emit, length_nil]
  omega

theorem Grouping.reset (grouping : Grouping n duration input state) :
    Grouping n duration input { state with deadline := none } :=
  { grouping with since := fun _ none => by cases none }

theorem turns_reset_le : turns { state with deadline := none } ≤ turns state := by
  simp only [turns, Option.isSome_none, toNat_false]
  omega

variable (grouping : Grouping n duration input state)
include grouping

theorem Grouping.finish (t : Nat) (room : state.buf.length < n) (hr : state.ended = false)
    (last : state.inner = []) :
    let fin := { state with upstreamDone := true }
    let next := if fin.buf.isEmpty then { fin with ended := true } else fin.emit t
    (Grouping n duration input next ∧ next.buf.length < n) ∧ turns next < turns state := by
  have fin : Grouping n duration input { state with upstreamDone := true } :=
    { grouping with done := fun _ => last, closed := fun ended => by rw [hr] at ended; cases ended }
  have fewer : turns { state with upstreamDone := true } ≤ turns state := by
    simp [turns]
  dsimp only
  split
  next empty =>
    rw [List.isEmpty_iff] at empty
    refine ⟨⟨{ fin with closed := fun _ => ⟨rfl, empty⟩ }, room⟩, ?_⟩
    refine Nat.lt_of_lt_of_le ?_ fewer
    simp [turns, hr]
  next some =>
    rw [List.isEmpty_iff] at some
    exact ⟨⟨fin.emit hr some fun _ => .inl rfl, Nat.zero_lt_of_lt room⟩, Nat.lt_of_lt_of_le (turns_emit some) fewer⟩

theorem Grouping.push (room : state.buf.length < n) (hr : state.ended = false) {x : T} {rest : List T}
    (more : state.inner = x :: rest) : Grouping n duration input (state.push duration now x rest) where
  whole := by
    rw [← grouping.whole, more]
    simp [GroupedWithin.push]
  proper := grouping.proper
  bounded := by
    simp only [GroupedWithin.push, length_append]
    exact room
  since := by
    intro instant set first h
    have since := grouping.since instant
    unfold GroupedWithin.push at set h
    cases shape : state.buf with
    | nil =>
      rw [shape] at set h
      cases set
      cases h
      rfl
    | cons => simp_all
  done := fun done => by
    have none := grouping.done done
    rw [more] at none
    cases none
  closed := fun ended => by
    rw [show (state.push duration now x rest).ended = false from hr] at ended
    cases ended

theorem Grouping.step (room : state.buf.length < n) {wait : Nat × DeadlineOrItem}
    (taken : step n duration state wait = some next) :
    (Grouping n duration input next ∧ next.buf.length < n) ∧ turns next < turns state := by
  unfold GroupedWithin.step at taken
  split at taken
  · cases taken
  next hr =>
  rw [not_eq_true] at hr
  split at taken
  next done =>
    cases taken
    have finish := grouping.finish (wait.1) room hr (grouping.done done)
    rwa [show ({ state with upstreamDone := true } : GroupedWithin T) = state by rw [← done]] at finish
  split at taken
  · split at taken <;> cases taken
    next expired =>
      obtain ⟨instant, set, past⟩ := expired
      have fewer : turns { state with deadline := none } < turns state := by
        rw [Option.mem_def] at set
        simp [turns, set]
      split
      · exact ⟨⟨grouping.reset, room⟩, fewer⟩
      next some =>
        rw [List.isEmpty_iff] at some
        have early : (⟨state.buf, wait.1, state.upstreamDone⟩ : Chunk T).Expired duration := by
          obtain ⟨first, rest, shape⟩ := exists_cons_of_ne_nil some
          have h : first ∈ state.buf.head? := by rw [shape]; rfl
          exact ⟨first, h, grouping.since instant set first h ▸ past⟩
        refine ⟨⟨(grouping.emit hr some fun _ => .inr early).reset, Nat.zero_lt_of_lt room⟩, ?_⟩
        exact Nat.lt_of_le_of_lt turns_reset_le (turns_emit some)
  · split at taken <;> cases taken
    next last => exact grouping.finish wait.1 room hr last
    next x rest more =>
      have added : Grouping n duration input (state.push duration wait.1 x rest) := grouping.push room hr more
      have fewer : turns (state.push duration wait.1 x rest) < turns state := by
        simp only [turns, GroupedWithin.push, more, length_append, length_cons]
        split <;> grind
      split
      next full =>
        have some : (state.push duration wait.1 x rest).buf ≠ [] := append_ne_nil_of_right_ne_nil _ (cons_ne_nil _ _)
        refine ⟨⟨(added.emit hr some ?_).reset, Nat.zero_lt_of_lt room⟩, ?_⟩
        · exact fun short => absurd short (Nat.not_lt.mpr full)
        · exact Nat.lt_of_le_of_lt turns_reset_le (Nat.lt_trans (turns_emit some) fewer)
      next short => exact ⟨⟨added, Nat.lt_of_not_ge short⟩, fewer⟩
omit grouping

theorem grouped_within (positive : 1 ≤ n) (run : Run (step n duration) (fun _ _ => True) (.new input) actions state) :
    (∀ chunk ∈ state.emitted, chunk.Proper n duration) ∧ state.emitted.flatMap Chunk.values <+: input ∧
      (if state.ended then state.emitted.flatMap Chunk.values = input
        else ∀ now, (step n duration state (now, .item)).isSome) ∧
      actions.length ≤ 3 * input.length + 2 := by
  obtain ⟨⟨grouping, -⟩, bound⟩ := run.length_add_le
    (fun state => Grouping n duration input state ∧ state.buf.length < n) turns (fun _ _ _ kept _ taken => kept.1.step kept.2 taken)
    ⟨⟨rfl, forall_mem_nil _, Nat.zero_le _, nofun, nofun, nofun⟩, positive⟩
  refine ⟨grouping.proper, ⟨_, grouping.whole⟩, ?_, ?_⟩
  · split
    next ended =>
      obtain ⟨done, empty⟩ := grouping.closed ended
      have whole := grouping.whole
      rwa [empty, grouping.done done, map_nil, append_nil, append_nil] at whole
    next running =>
      intro now
      unfold step
      rw [if_neg running]
      split
      · rfl
      · dsimp only
        split <;> rfl
  · simp only [turns, new, length_nil, Option.isSome_none, Bool.not_false, Bool.toNat_true, Bool.toNat_false] at bound
    omega

/-- Two elements in time and one that waits until its deadline. -/
theorem grouped_within_expired : ∃ state, Run (step 2 5) (fun _ _ => True) (.new ["a", "b", "c"])
    [(0, .item), (1, .item), (2, .item), (7, .deadline), (9, .item)] state ∧
      state.emitted.map Chunk.values = [["a", "b"], ["c"]] ∧ ∀ chunk ∈ state.emitted, chunk.Proper 2 5 := by
  obtain ⟨state, run, chunks⟩ : ∃ state, Run (step 2 5) (fun _ _ => True) (.new ["a", "b", "c"])
      [(0, .item), (1, .item), (2, .item), (7, .deadline), (9, .item)] state ∧
        state.emitted.map Chunk.values = [["a", "b"], ["c"]] := Run.exists_of_foldlM (by decide)
  exact ⟨state, run, chunks, (grouped_within (by decide) run).1⟩

end GroupedWithin

end Atomr.Streams
