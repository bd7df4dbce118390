import Atomr.Library.Table
import Atomr.Library.Text
import Mathlib.Data.Finset.Sort
import Mathlib.Data.String.Basic

/-! The durable store in files.

A key is kept in the file of its sanitized name. What the store knows of its keys after it is opened are the names of
the files.
-/

namespace Atomr.DistributedData

open Library Text Function AList

def sanitize (key : String) : String := key.map fun c => if c.isAlphanum || c = '-' || c = '_' then c else '_'

theorem sanitize_sanitize (key : String) : sanitize (sanitize key) = sanitize key := by
  apply String.toList_injective
  simp only [sanitize, String.toList_map, List.map_map]
  refine List.map_congr_left fun c _ => ?_
  by_cases kept : c.isAlphanum || c = '-' || c = '_'
  · simp only [comp_apply, if_pos kept]
  · simp only [comp_apply, if_neg kept]
    rfl

def unsanitize (name : String) : String := name

/-- The directory gives each file name its content. -/
structure FileDurableStore where
  dir : Table String (List UInt8)
  keys : Finset String

inductive StoreCall where
  | persist (key : String) (blob : List UInt8)
  | deleteMarker (key : String)
  | reopen

namespace FileDurableStore

def pathFor (key : String) : String := sanitize key ++ ".bin"

/-- The store on a directory, which is read for its keys. -/
def openDir (dir : Table String (List UInt8)) : FileDurableStore :=
  ⟨dir, ((dir.keys.filterMap (stripSuffix ".bin")).map unsanitize).toFinset⟩

def step (store : FileDurableStore) : StoreCall → FileDurableStore
  | .persist key blob => ⟨store.dir.insert (pathFor key) blob, insert key store.keys⟩
  | .deleteMarker key => ⟨store.dir.erase (pathFor key), store.keys.erase key⟩
  | .reopen => .openDir store.dir

/-- The calls on a new directory. -/
def after (calls : List StoreCall) : FileDurableStore := calls.foldl step (.openDir ∅)

variable (store : FileDurableStore)

def load (key : String) : Option (List UInt8) := store.dir.lookup (pathFor key)

def listKeys : List String := store.keys.sort

end FileDurableStore

/-- A map from keys to blobs under the same calls. -/
def record (map : String → Option (List UInt8)) : StoreCall → String → Option (List UInt8)
  | .persist key blob => Function.update map key (some blob)
  | .deleteMarker key => Function.update map key none
  | .reopen => map

def stored (calls : List StoreCall) : String → Option (List UInt8) := calls.foldl record fun _ => none

/-- The key of the call is its own sanitized name. -/
def StoreCall.Plain : StoreCall → Prop
  | .persist key _ | .deleteMarker key => sanitize key = key
  | .reopen => True

structure Mirrors (store : FileDurableStore) (map : String → Option (List UInt8)) : Prop where
  files : ∀ key, sanitize key = key → store.load key = map key
  names : ∀ file ∈ store.dir, ∃ key, sanitize key = key ∧ file = key ++ ".bin"
  keys : ∀ key, key ∈ store.keys ↔ (map key).isSome
  plain : ∀ key, (map key).isSome → sanitize key = key

namespace Mirrors

variable {s : FileDurableStore} {map : String → Option (List UInt8)} (mir : Mirrors s map)
include mir

/-- The file of one key gets another content or none, and the key is listed accordingly. -/
theorem put {k : String} (plain : sanitize k = k) {v : Option (List UInt8)} {dir : Table String (List UInt8)}
    (file : ∀ nm, dir.lookup nm = if nm = FileDurableStore.pathFor k then v else s.dir.lookup nm)
    {keys : Finset String} (known : ∀ other, other ∈ keys ↔ if other = k then v.isSome = true else other ∈ s.keys) :
    Mirrors ⟨dir, keys⟩ (Function.update map k v) where
  files other own := by
    rw [FileDurableStore.load, file, update_apply, ← mir.files other own, FileDurableStore.load]
    simp [FileDurableStore.pathFor, own, plain]
  names nm mem := by
    by_cases same : nm = FileDurableStore.pathFor k
    · exact ⟨k, plain, by rw [same, FileDurableStore.pathFor, plain]⟩
    · refine mir.names nm (lookup_isSome.mp ?_)
      have h := lookup_isSome.mpr mem
      rwa [file, if_neg same] at h
  keys other := by
    simp only [known, update_apply, mir.keys]
    split <;> rfl
  plain other h := by
    rw [update_apply] at h
    split at h
    next same => rw [same, plain]
    · exact mir.plain other h

theorem reopen : Mirrors (.openDir s.dir) map where
  files := mir.files
  names := mir.names
  keys k := by
    have listed : k ∈ (FileDurableStore.openDir s.dir).keys ↔ k ++ ".bin" ∈ s.dir := by
      simp [FileDurableStore.openDir, unsanitize, stripSuffix_eq_some, mem_keys]
    rw [listed]
    constructor
    · intro file
      obtain ⟨other, own, same⟩ := mir.names _ file
      obtain rfl := (String.append_left_inj _).mp same
      rw [← mir.files k own, FileDurableStore.load, FileDurableStore.pathFor, own]
      exact lookup_isSome.mpr file
    · intro h
      have own := mir.plain k h
      rw [← mir.files k own, FileDurableStore.load, FileDurableStore.pathFor, own] at h
      exact lookup_isSome.mp h
  plain := mir.plain

theorem step {c : StoreCall} (plain : c.Plain) : Mirrors (s.step c) (record map c) := by
  cases c with
  | persist k blob =>
    exact mir.put plain (fun nm => Table.lookup_insert_if ..) fun other => by
      by_cases same : other = k <;> simp [same]
  | deleteMarker k =>
    exact mir.put plain (fun nm => Table.lookup_erase_if ..) fun other => by simp
  | reopen => exact mir.reopen

theorem run {cs : List StoreCall} (plain : ∀ c ∈ cs, c.Plain) :
    Mirrors (cs.foldl .step s) (cs.foldl record map) := by
  induction cs generalizing s map with
  | nil => exact mir
  | cons c rest ih =>
    obtain ⟨first, later⟩ := List.forall_mem_cons.mp plain
    exact ih (mir.step first) later

end Mirrors

theorem mirrors_openDir : Mirrors (.openDir ∅) fun _ => none where
  files _ _ := rfl
  names _ mem := absurd mem (notMem_empty _)
  keys _ := by simp [FileDurableStore.openDir]
  plain _ h := by cases h

/-- While every key that is written is its own sanitized name, the store lists the keys with a value, and the value of
a key is read unless another key has its file. -/
theorem durable_store_is_map {calls : List StoreCall} (plain : ∀ call ∈ calls, call.Plain) :
    (∀ key, (FileDurableStore.after calls).load key = stored calls key ↔
      sanitize key = key ∨ stored calls (sanitize key) = none) ∧
    (FileDurableStore.after calls).listKeys.Nodup ∧
    ∀ key, key ∈ (FileDurableStore.after calls).listKeys ↔ (stored calls key).isSome := by
  have mirrors : Mirrors (.after calls) (stored calls) := mirrors_openDir.run plain
  refine ⟨fun key => ?_, Finset.sort_nodup .., fun key => (Finset.mem_sort _).trans (mirrors.keys key)⟩
  have read : (FileDurableStore.after calls).load key = stored calls (sanitize key) := by
    rw [← mirrors.files _ (sanitize_sanitize key), FileDurableStore.load, FileDurableStore.load,
      FileDurableStore.pathFor, FileDurableStore.pathFor, sanitize_sanitize]
  rw [read]
  by_cases own : sanitize key = key
  · simp [own]
  · have absent : stored calls key = none := Option.not_isSome_iff_eq_none.mp (mt (mirrors.plain key) own)
    simp [own, absent]

theorem durable_store_one_key :
    (FileDurableStore.after [.persist "a_b" [1], .reopen]).load "a_b" = some [1] ∧
    (FileDurableStore.after [.persist "a_b" [1], .reopen]).load "b/c" = none := by
  have plain : ∀ call ∈ [StoreCall.persist "a_b" [1], .reopen], call.Plain := by
    have own : sanitize "a_b" = "a_b" := by decide +kernel
    simp [StoreCall.Plain, own]
  exact ⟨((durable_store_is_map plain).1 "a_b").mpr (by decide +kernel),
    ((durable_store_is_map plain).1 "b/c").mpr (by decide +kernel)⟩

/-- Two keys share a file, and the store lists another key once it is opened again. -/
theorem sanitized_keys_collide :
    (FileDurableStore.after [.persist "a/b" [1], .persist "a_b" [2]]).load "a/b" = some [2] ∧
    stored [.persist "a/b" [1], .persist "a_b" [2]] "a/b" = some [1] ∧
    (FileDurableStore.after [.persist "a/b" [1], .reopen]).listKeys = ["a_b"] := by
  decide +kernel

end Atomr.DistributedData
