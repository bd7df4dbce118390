import Atomr.Persistence.Snapshot
import Mathlib.Data.List.Induction

/-! What the snapshotter leaves in the store.

It prunes by sequence numbers: a snapshot goes when the newest is `keepLast` or more numbers
ahead of it, however many snapshots there are.
-/

namespace Atomr.Persistence

open List Bool

structure SnapshotSave where
  sequenceNr : Nat
  payload : List UInt8
  now : Nat
  deriving DecidableEq, Repr

def SnapshotSave.entry (persistenceId : String) (save : SnapshotSave) : SnapshotMetadata × List UInt8 :=
  (⟨persistenceId, save.sequenceNr, save.now⟩, save.payload)

theorem entry_injective (pid : String) : Function.Injective (SnapshotSave.entry pid) := by
  rintro ⟨_, _, _⟩ ⟨_, _, _⟩ eq
  cases eq
  rfl

namespace AsyncSnapshotter

def saveAll (snapshotter : AsyncSnapshotter InMemorySnapshotStore) (persistenceId : String) (saves : List SnapshotSave) :
    AsyncSnapshotter InMemorySnapshotStore :=
  saves.foldl (fun snapshotter save => snapshotter.save persistenceId save.sequenceNr save.payload save.now) snapshotter

/-- The numbers are close enough for a bound on them to count snapshots. -/
def InStep (keepLast : Nat) (saves : List SnapshotSave) : Prop :=
  ∀ last ∈ saves.getLast?,
    if last.sequenceNr ≤ keepLast then saves.length ≤ keepLast
    else ∀ save ∈ saves.drop (saves.length - keepLast), last.sequenceNr < save.sequenceNr + keepLast

variable {snapshotter : AsyncSnapshotter InMemorySnapshotStore} {persistenceId : String} {saves : List SnapshotSave}

/-- The pruning of the save with this number spares the other. -/
def spares (keepLast last other : Nat) : Bool := last ≤ keepLast || last < other + keepLast

theorem keepLast_saveAll (snap : AsyncSnapshotter InMemorySnapshotStore) (pid : String)
    (saves : List SnapshotSave) : (snap.saveAll pid saves).keepLast = snap.keepLast := by
  induction saves generalizing snap with
  | nil => rfl
  | cons save rest ih =>
    refine (ih _).trans ?_
    unfold AsyncSnapshotter.save
    dsimp only
    split <;> rfl

theorem entries_save (snap : AsyncSnapshotter InMemorySnapshotStore) (pid : String)
    (save : SnapshotSave) :
    (snap.save pid save.sequenceNr save.payload save.now).store.entries pid =
      (snap.store.entries pid ++ [save.entry pid]).filter fun e =>
        spares snap.keepLast save.sequenceNr e.1.sequenceNr := by
  have pos := snap.positive
  unfold AsyncSnapshotter.save
  dsimp only [SnapshotStore.save, SnapshotStore.delete]
  split
  next pruned =>
    rw [InMemorySnapshotStore.entries_delete, if_pos rfl, InMemorySnapshotStore.entries_save, if_pos rfl]
    refine filter_congr fun e _ => ?_
    rw [spares, ← decide_or, decide_eq_decide]
    omega
  next unpruned =>
    rw [InMemorySnapshotStore.entries_save, if_pos rfl]
    refine (filter_eq_self.mpr fun e _ => ?_).symm
    rw [spares, ← decide_or, decide_eq_true_eq]
    omega

variable {last : SnapshotSave} {keepLast : Nat}

/-- The last pruning reaches furthest, so that the store is what it spares. -/
theorem entries_saveAll (fresh : snapshotter.store.entries persistenceId = [])
    (incr : ((saves ++ [last]).map SnapshotSave.sequenceNr).Pairwise (· < ·)) :
    (snapshotter.saveAll persistenceId (saves ++ [last])).store.entries persistenceId =
      ((saves ++ [last]).map (SnapshotSave.entry persistenceId)).filter fun e =>
        spares snapshotter.keepLast last.sequenceNr e.1.sequenceNr := by
  induction saves using List.reverseRecOn generalizing last with
  | nil => rw [nil_append, saveAll, foldl_cons, foldl_nil, entries_save, fresh]; rfl
  | append_singleton saves prev ih =>
    rw [map_append, pairwise_append] at incr
    have later : prev.sequenceNr < last.sequenceNr := incr.2.2 _ (by simp) _ (mem_singleton_self _)
    have whole : (saves ++ [prev] ++ [last]).map (SnapshotSave.entry persistenceId) =
        (saves ++ [prev]).map (SnapshotSave.entry persistenceId) ++ [last.entry persistenceId] := map_append
    rw [saveAll, foldl_append, foldl_cons, foldl_nil, entries_save, ← saveAll, keepLast_saveAll,
      ih incr.1, whole, filter_append, filter_append, filter_filter]
    congr 1
    refine filter_congr fun e _ => ?_
    simp only [spares, ← decide_or, ← decide_and, decide_eq_decide]
    omega

theorem add_length_le {first : SnapshotSave} {between : List SnapshotSave}
    (incr : ((first :: (between ++ [last])).map SnapshotSave.sequenceNr).Pairwise (· < ·)) :
    first.sequenceNr + between.length + 1 ≤ last.sequenceNr := by
  induction between generalizing first with
  | nil =>
    rw [map_cons, pairwise_cons] at incr
    exact incr.1 _ (mem_singleton_self _)
  | cons next between ih =>
    rw [map_cons, pairwise_cons] at incr
    have step := incr.1 _ mem_cons_self
    have rest := ih incr.2
    rw [length_cons]
    omega

theorem add_keepLast_le (pos : 1 ≤ keepLast) {save : SnapshotSave}
    (incr : ((saves ++ [last]).map SnapshotSave.sequenceNr).Pairwise (· < ·))
    (older : save ∈ (saves ++ [last]).take (saves.length + 1 - keepLast)) :
    save.sequenceNr + keepLast ≤ last.sequenceNr := by
  have short : saves.length + 1 - keepLast ≤ saves.length := by omega
  rw [take_append_of_le_length short] at older
  obtain ⟨front, back, cut⟩ := append_of_mem older
  have whole : saves ++ [last] = front ++ save :: (back ++ saves.drop (saves.length + 1 - keepLast) ++ [last]) := by
    nth_rewrite 1 [← take_append_drop (saves.length + 1 - keepLast) saves, cut]
    simp
  have places : 0 < (saves.take (saves.length + 1 - keepLast)).length := length_pos_of_mem older
  rw [whole, map_append, pairwise_append] at incr
  have apart := add_length_le incr.2.1
  rw [length_append, length_drop] at apart
  rw [length_take] at places
  omega

theorem filter_spares_eq_drop_iff (pos : 1 ≤ keepLast)
    (incr : ((saves ++ [last]).map SnapshotSave.sequenceNr).Pairwise (· < ·)) :
    ((saves ++ [last]).filter fun save => spares keepLast last.sequenceNr save.sequenceNr) =
        (saves ++ [last]).drop ((saves ++ [last]).length - keepLast) ↔ InStep keepLast (saves ++ [last]) := by
  have newest : (saves ++ [last]).getLast? = some last := List.getLast?_concat
  have length : (saves ++ [last]).length = saves.length + 1 := by simp
  simp only [InStep, newest, Option.mem_some_iff, forall_eq', length]
  split
  next small =>
    rw [filter_eq_self.mpr fun save _ => by simp [spares, small]]
    constructor
    · intro eq
      have count := congrArg List.length eq
      rw [length_drop] at count
      omega
    · intro few
      rw [Nat.sub_eq_zero_of_le few, drop_zero]
  next large =>
    constructor
    · intro eq save mem
      rw [← eq] at mem
      simpa [spares, large] using of_mem_filter mem
    -- The numbers in between take up room, so that what is further back is pruned.
    · intro close
      have pruned : ((saves ++ [last]).take (saves.length + 1 - keepLast)).filter
          (fun save => spares keepLast last.sequenceNr save.sequenceNr) = [] := by
        refine filter_eq_nil_iff.mpr fun save older => ?_
        have far := add_keepLast_le pos incr older
        simp only [spares, or_eq_true, decide_eq_true_eq]
        omega
      have kept : ((saves ++ [last]).drop (saves.length + 1 - keepLast)).filter
          (fun save => spares keepLast last.sequenceNr save.sequenceNr) =
            (saves ++ [last]).drop (saves.length + 1 - keepLast) :=
        filter_eq_self.mpr fun save mem => by simp [spares, close save mem]
      nth_rewrite 1 [← take_append_drop (saves.length + 1 - keepLast) (saves ++ [last])]
      rw [filter_append, pruned, kept, nil_append]

theorem snapshots_retained_iff (fresh : snapshotter.store.entries persistenceId = [])
    (increasing : (saves.map SnapshotSave.sequenceNr).Pairwise (· < ·)) :
    (snapshotter.saveAll persistenceId saves).store.entries persistenceId =
        (saves.drop (saves.length - snapshotter.keepLast)).map (SnapshotSave.entry persistenceId) ↔
      InStep snapshotter.keepLast saves := by
  rcases eq_nil_or_concat' saves with rfl | ⟨earlier, last, rfl⟩
  · exact ⟨fun _ _ mem => (by cases mem), fun _ => by simpa [saveAll] using fresh⟩
  · rw [entries_saveAll fresh increasing, filter_map,
      (map_injective_iff.mpr (entry_injective persistenceId)).eq_iff]
    exact filter_spares_eq_drop_iff snapshotter.positive increasing

def keepingTwo : AsyncSnapshotter InMemorySnapshotStore := ⟨.new, .manual, 2, by decide⟩

theorem snapshots_retained_in_step :
    (keepingTwo.saveAll "p" [⟨10, [1], 0⟩, ⟨11, [2], 0⟩, ⟨12, [3], 0⟩]).store.entries "p" =
      [(⟨"p", 11, 0⟩, [2]), (⟨"p", 12, 0⟩, [3])] :=
  (snapshots_retained_iff rfl (by decide)).mpr (by simp [InStep, keepingTwo])

/-- Both snapshots are to be kept, and one is left. -/
theorem distant_snapshot_pruned :
    let saves : List SnapshotSave := [⟨10, [1], 0⟩, ⟨20, [2], 0⟩]
    (saves.map SnapshotSave.sequenceNr).Pairwise (· < ·) ∧
      (keepingTwo.saveAll "p" saves).store.entries "p" = [(⟨"p", 20, 0⟩, [2])] ∧
      (saves.drop (saves.length - keepingTwo.keepLast)).map (SnapshotSave.entry "p") =
        [(⟨"p", 10, 0⟩, [1]), (⟨"p", 20, 0⟩, [2])] := by
  decide

end AsyncSnapshotter

end Atomr.Persistence
