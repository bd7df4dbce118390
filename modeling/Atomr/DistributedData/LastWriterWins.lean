import Atomr.DistributedData.Collections
import Atomr.Library.Replication
import Mathlib.Data.Prod.Lex
import Mathlib.Data.String.Basic

/-! Last-writer-wins registers on several replicas, and merges of last-write-wins maps.

The merge of registers compares timestamps and then node names. A local write compares
timestamps only, so it is dropped on a tie that it should win. The merge of maps keeps
its own side on a tie, whichever side that is.
-/

namespace Atomr.DistributedData

open Library Finset

variable {ι T : Type}

namespace LwwRegister

def stamp (register : LwwRegister T) : Nat ×ₗ String := toLex (register.timestamp, register.node)

theorem later_iff {other self : LwwRegister T} : Later other self ↔ self.stamp < other.stamp := by
  rw [stamp, stamp, Prod.Lex.toLex_lt_toLex, Later]
  simp only [eq_comm]

theorem merge_eq_max (self other : LwwRegister T) :
    merge self other = if self.stamp < other.stamp then other else self := by
  simp only [merge_eq, later_iff]

theorem stamp_le_merge (self other : LwwRegister T) :
    self.stamp ≤ (merge self other).stamp ∧ other.stamp ≤ (merge self other).stamp := by
  rw [merge_eq_max]
  split
  next later => exact ⟨le_of_lt later, le_rfl⟩
  next notLater => exact ⟨le_rfl, not_lt.mp notLater⟩

theorem set_eq_max {h written : LwwRegister T}
    (ord : h.timestamp = written.timestamp → ¬ h.node < written.node) :
    h.set written.value written.timestamp written.node = if h.stamp < written.stamp then written else h := by
  have eq : h.stamp < written.stamp ↔ h.timestamp < written.timestamp := by
    rw [stamp, stamp, Prod.Lex.toLex_lt_toLex]
    constructor
    · rintro (earlier | ⟨tie, less⟩)
      · exact earlier
      · exact absurd less (ord tie)
    · exact .inl
  simp only [set, eq]

/-- The first write of a replica creates its register. -/
def write (_ : ι) (written : LwwRegister T) : Option (LwwRegister T) → Option (LwwRegister T)
  | none => some (.new written.node written.value written.timestamp)
  | some held => some (held.set written.value written.timestamp written.node)

/-- A replica without a register takes a copy of the other one. -/
def mergeHeld : Option (LwwRegister T) → Option (LwwRegister T) → Option (LwwRegister T) := Option.merge merge

/-- No write meets a register with its own timestamp and a smaller node name. -/
def WinsNoTie (state : Option (LwwRegister T)) (written : LwwRegister T) : Prop :=
  ∀ held ∈ state, held.timestamp = written.timestamp → ¬ held.node < written.node
deriving Decidable

end LwwRegister

open LwwRegister

/-- The register is one of the writes received, and none of them is newer. -/
structure Newest (history : List (Update ι (LwwRegister T))) (received : Finset Nat)
    (state : Option (LwwRegister T)) : Prop where
  covers : ∀ id ∈ received, ∀ u, history[id]? = some u → ∃ held ∈ state, u.op.stamp ≤ held.stamp
  written : ∀ held ∈ state, ∃ id ∈ received, ∃ u, history[id]? = some u ∧ u.op = held

variable {s : Option (LwwRegister T)}

theorem Newest.snoc {hist : List (Update ι (LwwRegister T))} {recv : Finset Nat}
    (closed : Closed hist recv) (newest : Newest hist recv s) (u : Update ι (LwwRegister T)) :
    Newest (hist ++ [u]) recv s where
  covers id mem v found := by
    rw [getElem?_snoc_of_lt (closed.bounded id mem)] at found
    exact newest.covers id mem v found
  written h hp := by
    obtain ⟨id, mem, v, found, eq⟩ := newest.written h hp
    exact ⟨id, mem, v, (getElem?_snoc_of_lt (closed.bounded id mem) u).trans found, eq⟩

theorem write_held {i : ι} {written : LwwRegister T} (ord : WinsNoTie s written) :
    ∃ h ∈ write i written s, written.stamp ≤ h.stamp ∧
      (h = written ∨ h ∈ s) ∧ ∀ pre ∈ s, pre.stamp ≤ h.stamp := by
  cases s with
  | none => exact ⟨written, rfl, le_rfl, .inl rfl, fun _ ha => by cases ha⟩
  | some pre =>
    have res := set_eq_max (ord pre rfl)
    by_cases newer : pre.stamp < written.stamp
    · rw [if_pos newer] at res
      refine ⟨written, congrArg some res, le_rfl, .inl rfl, fun _ eq => ?_⟩
      cases eq
      exact le_of_lt newer
    · rw [if_neg newer] at res
      refine ⟨pre, congrArg some res, not_lt.mp newer, .inr rfl, fun _ eq => ?_⟩
      cases eq
      exact le_rfl

theorem mergeHeld_held (st other : Option (LwwRegister T)) :
    (∀ h ∈ mergeHeld st other, h ∈ st ∨ h ∈ other) ∧
      ∀ h, h ∈ st ∨ h ∈ other → ∃ kept ∈ mergeHeld st other, h.stamp ≤ kept.stamp := by
  cases st with
  | none =>
    cases other with
    | none => simp [mergeHeld]
    | some b => simp [mergeHeld]
  | some a =>
    cases other with
    | none => simp [mergeHeld]
    | some b =>
      obtain ⟨left, right⟩ := stamp_le_merge a b
      have choice : merge a b = a ∨ merge a b = b := by
        rw [merge_eq_max]
        split
        · exact .inr rfl
        · exact .inl rfl
      constructor
      · intro h kept
        cases kept
        exact choice.imp (fun eq => congrArg some eq.symm) fun eq => congrArg some eq.symm
      · rintro h (here | there)
        · cases here
          exact ⟨_, rfl, left⟩
        · cases there
          exact ⟨_, rfl, right⟩

section
variable {hist : List (Update ι (LwwRegister T))} {recv other : Finset Nat}
  {st state' : Option (LwwRegister T)}

theorem Newest.write {i : ι} {written : LwwRegister T} (closed : Closed hist recv)
    (ord : WinsNoTie st written) (newest : Newest hist recv st) :
    Newest (hist ++ [⟨i, written, recv⟩]) (insert hist.length recv) (write i written st) := by
  have framed := newest.snoc closed ⟨i, written, recv⟩
  obtain ⟨h, hp, atLeast, origin, kept⟩ := write_held ord
  constructor
  · intro id mem u found
    rcases mem_insert.mp mem with rfl | old
    · rw [getElem?_snoc_length] at found
      cases found
      exact ⟨h, hp, atLeast⟩
    · obtain ⟨pre, was, le⟩ := framed.covers id old u found
      exact ⟨h, hp, le.trans (kept pre was)⟩
  · intro t eq
    obtain rfl : h = t := Option.mem_unique hp eq
    rcases origin with rfl | was
    · exact ⟨_, mem_insert_self _ _, _, getElem?_snoc_length _, rfl⟩
    · obtain ⟨id, mem, found⟩ := framed.written h was
      exact ⟨id, mem_insert_of_mem mem, found⟩

theorem Newest.mergeHeld (newest : Newest hist recv st) (newest' : Newest hist other state') :
    Newest hist (recv ∪ other) (mergeHeld st state') := by
  obtain ⟨origin, kept⟩ := mergeHeld_held st state'
  constructor
  · intro id mem u found
    have h : ∃ h, (h ∈ st ∨ h ∈ state') ∧ u.op.stamp ≤ h.stamp := by
      rcases mem_union.mp mem with here | there
      · obtain ⟨h, hp, le⟩ := newest.covers id here u found
        exact ⟨h, .inl hp, le⟩
      · obtain ⟨h, hp, le⟩ := newest'.covers id there u found
        exact ⟨h, .inr hp, le⟩
    obtain ⟨h, hp, le⟩ := h
    obtain ⟨post, t, le'⟩ := kept h hp
    exact ⟨post, t, le.trans le'⟩
  · intro h t
    rcases origin h t with here | there
    · obtain ⟨id, mem, found⟩ := newest.written h here
      exact ⟨id, mem_union_left _ mem, found⟩
    · obtain ⟨id, mem, found⟩ := newest'.written h there
      exact ⟨id, mem_union_right _ mem, found⟩

end

theorem newest_interprets :
    InterpretsWhen (write : ι → LwwRegister T → _) mergeHeld none
      (fun _ replica _ written => WinsNoTie replica.state written) Newest where
  start := ⟨by simp, by simp⟩
  frame _ _ _ u closed newest := newest.snoc closed u
  update _ _ _ _ _ closed _ ord newest := newest.write closed ord
  merge _ _ _ _ _ _ _ _ newest newest' := newest.mergeHeld newest'

abbrev RegisterNet (ι T : Type) := Replicas ι (LwwRegister T) (Option (LwwRegister T))

namespace RegisterNet

variable (net : RegisterNet ι T)

def Writes (written : LwwRegister T) : Prop := ∃ u ∈ net.history, u.op = written

def HasEvery (i : ι) : Prop :=
  ∀ written, net.Writes written → ∃ id ∈ (net.replica i).received, ∃ u, net.history[id]? = some u ∧ u.op = written

def DistinctStamps : Prop :=
  ∀ first second, net.Writes first → net.Writes second → first.stamp = second.stamp → first = second

def NoTieWon : ReplicaAction ι (LwwRegister T) → Prop
  | .update i written => WinsNoTie (net.replica i).state written
  | .publish _ | .receive _ _ => True

instance (net : RegisterNet ι T) (action : ReplicaAction ι (LwwRegister T)) : Decidable (net.NoTieWon action) := by
  cases action <;> unfold NoTieWon <;> infer_instance

theorem holds_largest [DecidableEq ι] {acts : List (ReplicaAction ι (LwwRegister T))} {net : RegisterNet ι T}
    (run : Run (Replicas.step write mergeHeld) NoTieWon (.start none) acts net) (nodup : net.DistinctStamps)
    {i : ι} (full : net.HasEvery i) {largest : LwwRegister T} (written : net.Writes largest)
    (bound : ∀ other, net.Writes other → other.stamp ≤ largest.stamp) : (net.replica i).state = some largest := by
  have newest := newest_interprets.run (fun _ _ _ guarded => guarded) run _ (.inl ⟨i, rfl⟩)
  obtain ⟨id, mem, u, found, rfl⟩ := full largest written
  obtain ⟨h, hp, atLeast⟩ := newest.covers id mem u found
  obtain ⟨id', _, v, found', rfl⟩ := newest.written h hp
  have known : net.Writes v.op := ⟨v, List.mem_of_getElem? found', rfl⟩
  rw [nodup u.op v.op written known (le_antisymm atLeast (bound _ known))]
  exact hp

end RegisterNet

namespace LWWMap

variable {K V : Type} [DecidableEq K]

theorem lookup_merge (a b : LWWMap K V) (k : K) :
    (merge a b).entries.lookup k =
      (a.entries.lookup k).merge (fun x y => if x.1 ≥ y.1 then x else y) (b.entries.lookup k) := by
  change (a.entries.mergeWith newer b.entries).lookup k = _
  rw [Table.lookup_mergeWith]
  rcases a.entries.lookup k with _ | x <;> rcases b.entries.lookup k with _ | y <;> rfl

/-- Where both maps hold a key with the same timestamp, they hold the same value. -/
def AgreeOnTies (a b : LWWMap K V) : Prop :=
  ∀ key x y, a.entries.lookup key = some x → b.entries.lookup key = some y → x.1 = y.1 → x.2 = y.2

theorem merges_agree_iff (a b : LWWMap K V) :
    (∀ k, (merge a b).get k = (merge b a).get k) ↔ AgreeOnTies a b := by
  have h : ∀ k x y, a.entries.lookup k = some x → b.entries.lookup k = some y →
      ((merge a b).get k = (merge b a).get k ↔ (x.1 = y.1 → x.2 = y.2)) := by
    intro k x y here there
    simp only [get, lookup_merge, here, there]
    rcases Nat.lt_trichotomy x.1 y.1 with less | tie | greater
    · simp [Nat.not_le.mpr less, Nat.le_of_lt less, Nat.ne_of_lt less]
    · simp [tie]
    · simp [Nat.not_le.mpr greater, Nat.le_of_lt greater, Nat.ne_of_gt greater]
  constructor
  · intro agree k x y here there
    exact (h k x y here there).mp (agree k)
  · intro ties k
    cases here : a.entries.lookup k with
    | none => simp [get, lookup_merge, here]
    | some x =>
      cases there : b.entries.lookup k with
      | none => simp [get, lookup_merge, there]
      | some y => exact (h k x y here there).mpr (ties k x y here there)

end LWWMap

/-- Registers converge to the largest write as long as no local write has to win a tie. Two maps
merge to the same values in either direction exactly when they agree on ties. -/
theorem last_writer_wins {ι T K V : Type} [DecidableEq ι] [DecidableEq K]
    {actions : List (ReplicaAction ι (LwwRegister T))} {net : RegisterNet ι T}
    (run : Run (Replicas.step write mergeHeld) RegisterNet.NoTieWon (.start none) actions net)
    (distinct : net.DistinctStamps) (a b : LWWMap K V) :
    (∀ i, net.HasEvery i → ∀ largest, net.Writes largest →
      (∀ other, net.Writes other → other.stamp ≤ largest.stamp) → (net.replica i).state = some largest) ∧
    ((∀ key, (merge a b).get key = (merge b a).get key) ↔ LWWMap.AgreeOnTies a b) :=
  ⟨fun _ full _ written bound => RegisterNet.holds_largest run distinct full written bound,
    LWWMap.merges_agree_iff a b⟩

def tiedWrites : List (ReplicaAction Bool (LwwRegister Nat)) :=
  [.update true ⟨1, 5, "a"⟩, .update false ⟨2, 5, "b"⟩, .publish true, .publish false, .receive true 1,
    .receive false 0, .receive true 1]

theorem last_writer_wins_tied :
    (∃ net : RegisterNet Bool Nat,
      Run (Replicas.step write mergeHeld) RegisterNet.NoTieWon (.start none) tiedWrites net ∧
      (net.replica true).state = some ⟨2, 5, "b"⟩) ∧
    ∀ key, (merge (LWWMap.new.put "k" 1 100) (LWWMap.new.put "k" 2 200)).get key =
      (merge (LWWMap.new.put "k" 2 200) (LWWMap.new.put "k" 1 100)).get key := by
  have run : Run (Replicas.step write mergeHeld) RegisterNet.NoTieWon (.start none) tiedWrites _ := Run.of_foldlM rfl
  have converge := last_writer_wins run (by
    rintro _ _ ⟨u, first, rfl⟩ ⟨v, second, rfl⟩
    revert v u
    decide +kernel) (LWWMap.new.put "k" 1 100) (LWWMap.new.put "k" 2 200)
  obtain ⟨registers, maps⟩ := converge
  refine ⟨⟨_, run, registers true ?_ _ ⟨_, .tail _ (.head _), rfl⟩ ?_⟩, ?_⟩
  · rintro _ ⟨u, mem, rfl⟩
    revert u
    decide +kernel
  · rintro _ ⟨u, mem, rfl⟩
    revert u
    decide +kernel
  · have single : ∀ (val timestamp : Nat) (key : String) (held : Nat × Nat),
        (LWWMap.new.put "k" val timestamp).entries.lookup key = some held → held.1 = timestamp := by
      intro val timestamp key held found
      rw [LWWMap.put, Table.lookup_upsert_if] at found
      split at found
      · cases found
        rfl
      · cases found
    refine maps.mpr fun key x y here there tie => ?_
    rw [single 1 100 key x here, single 2 200 key y there] at tie
    cases tie

/-- Both replicas set the same two writes, in different orders: the second one is dropped on the
tie. Two maps with different values and one timestamp keep their own value. -/
theorem tied_write_dropped :
    (∃ net : RegisterNet Bool Nat,
      Run (Replicas.step write mergeHeld) (fun _ _ => True) (.start none)
        [.update true ⟨1, 5, "a"⟩, .update true ⟨2, 5, "b"⟩, .update false ⟨2, 5, "b"⟩, .update false ⟨1, 5, "a"⟩] net ∧
      net.HasEvery true ∧ net.HasEvery false ∧
      (net.replica true).state = some ⟨1, 5, "a"⟩ ∧ (net.replica false).state = some ⟨2, 5, "b"⟩) ∧
    (merge (LWWMap.new.put "k" 1 100) (LWWMap.new.put "k" 2 100)).get "k" = some 1 ∧
    (merge (LWWMap.new.put "k" 2 100) (LWWMap.new.put "k" 1 100)).get "k" = some 2 := by
  refine ⟨⟨_, Run.of_foldlM rfl, ?_, ?_, by decide +kernel, by decide +kernel⟩, by decide +kernel, by decide +kernel⟩
  · rintro _ ⟨u, mem, rfl⟩
    revert u
    decide +kernel
  · rintro _ ⟨u, mem, rfl⟩
    revert u
    decide +kernel

end Atomr.DistributedData
