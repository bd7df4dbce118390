import Atomr.Core.ActorCell

/-! The names of the children of an actor.

The table of names is part of the parent's context, and the children end in their own cells. No name is struck out.
-/

namespace Atomr.Core

open Library List

variable {P M : Type}

inductive SpawnError where
  | nameTaken (name : String)
  | systemTerminated
  deriving DecidableEq

def Context.spawn (ctx : Context P) (systemUp : Bool) (name : String) (childPath : P) : Except SpawnError (Context P) :=
  if name ∈ ctx.children then .error (.nameTaken name)
  else if systemUp then .ok { ctx with children := ctx.children.insert name childPath }
  else .error .systemTerminated

structure Child (P M : Type) where
  name : String
  strategy : Option SupervisorStrategy
  cell : Cell P M

/-- A parent's context with all children that it ever spawned. -/
structure Family (P M : Type) where
  ctx : Context P
  spawned : List (Child P M)

def names (spawned : List (Child P M)) : List String := spawned.map Child.name

/-- A name is in the table from its first use on. -/
structure Registered (family : Family P M) : Prop where
  nodup : (names family.spawned).Nodup
  table : ∀ name, name ∈ family.ctx.children ↔ name ∈ names family.spawned

theorem Context.spawn_eq_nameTaken {ctx : Context P} {systemUp : Bool} {nm : String} {childPath : P} :
    ctx.spawn systemUp nm childPath = .error (.nameTaken nm) ↔ nm ∈ ctx.children := by
  unfold spawn
  split
  next taken => exact iff_of_true rfl taken
  next free =>
    refine iff_of_false ?_ free
    split <;> simp

theorem Registered.of_names {spawned : List (Child P M)} {family : Family P M} (reg : Registered family)
    (same : names spawned = names family.spawned) : Registered { family with spawned } :=
  ⟨same ▸ reg.nodup, fun nm => same ▸ reg.table nm⟩

inductive FamilyAction (P M : Type) where
  | spawn (systemUp : Bool) (name : String) (childPath : P) (strategy : Option SupervisorStrategy)
  | stopChild (name : String)
  /-- Whatever happens to a child: messages and the turns of its loop. -/
  | child (index : Nat) (action : CellAction P M)

variable [DecidableEq P]

/-- The result of the send is ignored. -/
def Child.send (child : Child P M) (msg : SystemMsg P) : Child P M :=
  { child with cell := (child.cell.step child.strategy (.tellSystem msg)).getD child.cell }

namespace Family

def start (path : P) : Family P M := ⟨.new path, []⟩

def step (family : Family P M) : FamilyAction P M → Option (Family P M)
  | .spawn systemUp name childPath strategy =>
    match family.ctx.spawn systemUp name childPath with
    | .ok ctx => some ⟨ctx, family.spawned ++ [⟨name, strategy, .spawn childPath⟩]⟩
    | .error _ => some family
  | .stopChild name =>
    if name ∈ family.ctx.children then
      some { family with spawned := family.spawned.map fun child => if child.name = name then child.send .stop else child }
    else some family
  | .child index action => do
    let child ← family.spawned[index]?
    let cell ← child.cell.step child.strategy action
    some { family with spawned := family.spawned.set index { child with cell } }

end Family

variable {family next : Family P M} {act : FamilyAction P M}

theorem registered_step (reg : Registered family) (taken : family.step act = some next) :
    Registered next := by
  cases act with
  | spawn systemUp nm childPath strat =>
    simp only [Family.step, Context.spawn] at taken
    by_cases known : nm ∈ family.ctx.children
    · rw [if_pos known] at taken
      cases taken
      exact reg
    rw [if_neg known] at taken
    cases systemUp with
    | false =>
      cases taken
      exact reg
    | true =>
      cases taken
      refine ⟨?_, fun other => ?_⟩
      · have fresh : nm ∉ names family.spawned := fun mem => known ((reg.table nm).mpr mem)
        simpa [names, nodup_append] using ⟨reg.nodup, fun child mem eq => fresh (mem_map.mpr ⟨child, mem, eq⟩)⟩
      · rw [AList.mem_insert, reg.table]
        simp [names, or_comm]
  | stopChild nm =>
    simp only [Family.step] at taken
    split at taken
    · cases taken
      refine reg.of_names ?_
      rw [names, map_map]
      refine map_congr_left fun child _ => ?_
      simp only [Function.comp_apply]
      split <;> rfl
    · cases taken
      exact reg
  | child i act =>
    obtain ⟨child, found, taken⟩ := Option.bind_eq_some_iff.mp taken
    obtain ⟨c, _, taken⟩ := Option.bind_eq_some_iff.mp taken
    cases taken
    exact reg.of_names (map_set_of_eq found rfl)

/-- Whether a name is taken tells that its child is alive, exactly when no child of that name has ended. -/
theorem child_names_iff {path : P} {actions : List (FamilyAction P M)} {family : Family P M}
    (run : Run Family.step (fun _ _ => True) (.start path) actions family) (systemUp : Bool) (childPath : P)
    (name : String) :
    (family.ctx.spawn systemUp name childPath = .error (.nameTaken name) ↔
      ∃ child ∈ family.spawned, child.name = name ∧ child.cell.position ≠ .ended) ↔
    ∀ child ∈ family.spawned, child.name = name → child.cell.position ≠ .ended := by
  have registered := run.invariant Registered (fun _ _ _ kept _ taken => registered_step kept taken)
    ⟨nodup_nil, by simp [Family.start, Context.new, names]⟩
  simp only [Context.spawn_eq_nameTaken, registered.table, names, mem_map]
  constructor
  · intro live child mem named ended
    obtain ⟨other, present, same, alive⟩ := live.mp ⟨child, mem, named⟩
    rw [inj_on_of_nodup_map registered.nodup present mem (same.trans named.symm)] at alive
    exact alive ended
  · intro live
    exact ⟨fun ⟨child, mem, named⟩ => ⟨child, mem, named, live child mem named⟩,
      fun ⟨child, mem, named, _⟩ => ⟨child, mem, named⟩⟩

def idle : Turn Nat := ⟨fun _ => [], [], none, 0, false⟩

theorem child_names_one : ∃ family : Family Nat Unit,
    Run Family.step (fun _ _ => True) (.start 0) [.spawn true "a" 1 none, .child 0 (.turn idle)] family ∧
    family.ctx.spawn true "a" 2 = .error (.nameTaken "a") := by
  refine Run.executed rfl fun run => ?_
  refine ((child_names_iff run true 2 "a").mpr ?_).mpr ?_
  · decide +kernel
  · exact ⟨_, mem_cons_self, rfl, by decide⟩

/-- The child has stopped, and its name stays taken. -/
theorem name_of_ended_child_taken : ∃ family : Family Nat Unit,
    Run Family.step (fun _ _ => True) (.start 0)
      [.spawn true "a" 1 none, .child 0 (.turn idle), .stopChild "a", .child 0 (.turn idle)] family ∧
    family.spawned.map (·.cell.position) = [.ended] ∧
    family.ctx.spawn true "a" 2 = .error (.nameTaken "a") :=
  ⟨_, Run.of_foldlM rfl, rfl, rfl⟩

end Atomr.Core
