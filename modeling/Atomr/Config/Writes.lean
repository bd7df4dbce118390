import Atomr.Config.Substitution

/-! What a sequence of assignments leaves at a path.

An assignment decides what is at its own path, at every path above it and at every path below it, and
leaves the others alone. So the last assignment that concerns a path decides what is there.
-/

namespace Atomr.Config

open Library List
open ConfigValue (WellFormed)

variable {F : Type}

def valueAt (root : ConfigValue F) (path : List String) : Option (ConfigValue F) := path.foldlM segment root

def IsObject (value : ConfigValue F) : Prop := ∃ entries, value = .object entries

abbrev Write (F : Type) := List String × ConfigValue F

variable (obj : Entries F)

def writeAll (writes : List (Write F)) : Entries F :=
  writes.foldl (fun obj write => insertDotted obj write.1 write.2) obj

/-- The object at a key, or an empty one to be put there. -/
def childOf (held : Option (ConfigValue F)) : Entries F :=
  match held with
  | some (.object child) => child
  | _ => []

theorem insertDotted_cons (k : String) {rest : List String} (more : rest ≠ []) (v : ConfigValue F) :
    insertDotted obj (k :: rest) v =
      KeyList.insert k (.object (insertDotted (childOf (KeyList.get obj k)) rest v)) obj := by
  obtain ⟨next, later, rfl⟩ := exists_cons_of_ne_nil more
  rfl

theorem valueAt_cons (k : String) (rest : List String) :
    valueAt (.object obj) (k :: rest) = (KeyList.get obj k).bind fun v => valueAt v rest := by
  rfl

variable {path : List String} {value : ConfigValue F}

theorem valueAt_leaf (leaf : ¬ IsObject value) (more : path ≠ []) : valueAt value path = none := by
  obtain ⟨k, rest, rfl⟩ := exists_cons_of_ne_nil more
  cases value with
  | object es => exact absurd ⟨es, rfl⟩ leaf
  | _ => rfl

theorem mergeValue_leaf (leaf : ¬ IsObject value) (h : Option (ConfigValue F)) :
    mergeValue h value = value := by
  unfold mergeValue
  split
  next inner => exact absurd ⟨inner, rfl⟩ leaf
  · rfl

theorem mergeValue_none (v : ConfigValue F) : mergeValue none v = v := by
  unfold mergeValue
  rfl

theorem valueAt_childOf (h : Option (ConfigValue F)) (more : path ≠ []) :
    valueAt (.object (childOf h)) path = h.bind fun v => valueAt v path := by
  obtain ⟨k, rest, rfl⟩ := exists_cons_of_ne_nil more
  cases h with
  | none => rfl
  | some v =>
    cases v with
    | object es => rfl
    | _ => rfl

variable {key : List String} {writes : List (Write F)} {entries : Entries F}

/-- What is at a path after an assignment of a leaf, by which of the two paths extends the other. -/
theorem valueAt_insertDotted (leaf : ¬ IsObject value) (keyed : key ≠ []) (loc : path ≠ []) :
    (key = path → valueAt (.object (insertDotted obj key value)) path = some value) ∧
    (path <+: key → path ≠ key → ∃ es, valueAt (.object (insertDotted obj key value)) path = some (.object es)) ∧
    (key <+: path → path ≠ key → valueAt (.object (insertDotted obj key value)) path = none) ∧
    (¬ path <+: key → ¬ key <+: path →
      valueAt (.object (insertDotted obj key value)) path = valueAt (.object obj) path) := by
  induction key generalizing obj path with
  | nil => exact absurd rfl keyed
  | cons first more ih =>
    obtain ⟨head, rest, rfl⟩ := exists_cons_of_ne_nil loc
    by_cases eq : head = first
    swap
    · -- The paths part at once.
      have apart : ¬ head :: rest <+: first :: more := fun hi => eq (cons_prefix_cons.mp hi).1
      have apart' : ¬ first :: more <+: head :: rest := fun hi => eq (cons_prefix_cons.mp hi).1.symm
      refine ⟨fun equal => absurd (List.cons.inj equal).1.symm eq, fun hi => absurd hi apart,
        fun hi => absurd hi apart', fun _ _ => ?_⟩
      have kept : ∃ h, insertDotted obj (first :: more) value = KeyList.insert first h obj := by
        cases more with
        | nil => exact ⟨_, rfl⟩
        | cons next later => exact ⟨_, rfl⟩
      obtain ⟨h, shape⟩ := kept
      rw [shape, valueAt_cons, KeyList.get_insert, if_neg eq, valueAt_cons]
    subst eq
    cases more with
    | nil =>
      have put : valueAt (.object (insertDotted obj [head] value)) (head :: rest) = valueAt value rest := by
        rw [insertDotted, mergeValue_leaf leaf, valueAt_cons, KeyList.get_insert, if_pos rfl, Option.bind_some]
      rw [put]
      refine ⟨fun equal => ?_, fun hi ne => ?_, fun _ ne => ?_, fun _ apart => ?_⟩
      · cases equal
        rfl
      · exact absurd (by rw [prefix_nil.mp (cons_prefix_cons.mp hi).2]) ne
      · exact valueAt_leaf leaf fun empty => ne (by rw [empty])
      · exact absurd (cons_prefix_cons.mpr ⟨rfl, List.nil_prefix⟩) apart
    | cons next later =>
      have put : valueAt (.object (insertDotted obj (head :: next :: later) value)) (head :: rest) =
          valueAt (.object (insertDotted (childOf (KeyList.get obj head)) (next :: later) value)) rest := by
        rw [insertDotted_cons obj head (cons_ne_nil _ _), valueAt_cons, KeyList.get_insert, if_pos rfl,
          Option.bind_some]
      rw [put]
      by_cases short : rest = []
      · subst short
        refine ⟨fun equal => absurd equal (by simp), fun _ _ => ⟨_, rfl⟩, fun hi => absurd hi (by simp),
          fun apart => absurd (by simp) apart⟩
      · obtain ⟨equal, above, below, apart⟩ := ih (childOf (KeyList.get obj head)) (cons_ne_nil _ _) short
        refine ⟨fun eq => equal (List.cons.inj eq).2, fun hi ne => ?_, fun hi ne => ?_,
          fun notAbove notBelow => ?_⟩
        · exact above (cons_prefix_cons.mp hi).2 fun eq => ne (by rw [eq])
        · exact below (cons_prefix_cons.mp hi).2 fun eq => ne (by rw [eq])
        · rw [apart (fun hi => notAbove (cons_prefix_cons.mpr ⟨rfl, hi⟩))
            (fun hi => notBelow (cons_prefix_cons.mpr ⟨rfl, hi⟩)), valueAt_childOf _ short, valueAt_cons]

/-- One path is the other or extends it. -/
def Related (key path : List String) : Prop := path <+: key ∨ key <+: path

/-- Every path is one, and no object is assigned. -/
def Leafy (writes : List (Write F)) : Prop := ∀ write ∈ writes, write.1 ≠ [] ∧ ¬ IsObject write.2

theorem writeAll_append (first second : List (Write F)) :
    writeAll obj (first ++ second) = writeAll (writeAll obj first) second := foldl_append

theorem valueAt_writeAll_unrelated (leafy : Leafy writes) (loc : path ≠ [])
    (unrelated : ∀ write ∈ writes, ¬ Related write.1 path) :
    valueAt (.object (writeAll obj writes)) path = valueAt (.object obj) path := by
  induction writes generalizing obj with
  | nil => rfl
  | cons write rest ih =>
    obtain ⟨⟨keyed, leaf⟩, later⟩ := forall_mem_cons.mp leafy
    obtain ⟨here, others⟩ := forall_mem_cons.mp unrelated
    obtain ⟨notAbove, notBelow⟩ := not_or.mp here
    have step := (valueAt_insertDotted obj leaf keyed loc).2.2.2 notAbove notBelow
    exact (ih _ later others).trans step

theorem valueAt_empty (loc : path ≠ []) : valueAt (.object [] : ConfigValue F) path = none := by
  obtain ⟨k, rest, rfl⟩ := exists_cons_of_ne_nil loc
  rfl

mutual

/-- The values of an object that are no objects, with their paths. -/
def leaves : ConfigValue F → List (Write F)
  | .object entries => leavesOfEntries entries
  | value => [([], value)]

def leavesOfEntries : Entries F → List (Write F)
  | [] => []
  | (key, value) :: rest => (leaves value).map (fun leaf => (key :: leaf.1, leaf.2)) ++ leavesOfEntries rest

end

/-- No object in the value is empty, and it is none itself. -/
inductive Filled : ConfigValue F → Prop where
  | leaf {value : ConfigValue F} : ¬ IsObject value → Filled value
  | object {entries : Entries F} : entries ≠ [] → (∀ entry ∈ entries, Filled entry.2) → Filled (.object entries)

theorem leaves_leaf (leaf : ¬ IsObject value) : leaves value = [([], value)] := by
  cases value with
  | object es => exact absurd ⟨es, rfl⟩ leaf
  | _ => rfl

theorem leaves_ne_nil (filled : Filled value) : leaves value ≠ [] := by
  induction filled with
  | leaf notObject =>
    rw [leaves_leaf notObject]
    exact cons_ne_nil _ _
  | @object es ne _ ih =>
    obtain ⟨⟨k, value⟩, rest, rfl⟩ := exists_cons_of_ne_nil ne
    refine append_ne_nil_of_left_ne_nil (mt map_eq_nil_iff.mp ?_) _
    exact ih (k, value) mem_cons_self

theorem path_ne_nil_of_leavesOfEntries : ∀ leaf ∈ leavesOfEntries entries, leaf.1 ≠ [] := by
  induction entries with
  | nil => exact fun _ mem => absurd mem not_mem_nil
  | cons e rest ih =>
    intro leaf mem
    rcases mem_append.mp mem with here | later
    · obtain ⟨inner, -, rfl⟩ := mem_map.mp here
      exact cons_ne_nil _ _
    · exact ih leaf later

/-- Writes below one key are writes to the object there. -/
theorem writeAll_under (k : String) (ne : writes ≠ []) (loc : ∀ write ∈ writes, write.1 ≠ []) :
    writeAll obj (writes.map fun write => (k :: write.1, write.2)) =
      KeyList.insert k (.object (writeAll (childOf (KeyList.get obj k)) writes)) obj := by
  induction writes generalizing obj with
  | nil => exact absurd rfl ne
  | cons write rest ih =>
    obtain ⟨here, later⟩ := forall_mem_cons.mp loc
    rw [map_cons, writeAll, foldl_cons, insertDotted_cons obj k here]
    by_cases last : rest = []
    · subst last
      rfl
    · have tail := ih (KeyList.insert k (.object (insertDotted (childOf (KeyList.get obj k)) write.1 write.2)) obj)
        last later
      rw [KeyList.get_insert, if_pos rfl, KeyList.insert_insert] at tail
      exact tail

theorem deepMerge_append {front other : Entries F} (inOrder : KeyList.InOrder (front ++ other)) :
    deepMerge front other = front ++ other := by
  induction other generalizing front with
  | nil => rw [deepMerge, append_nil]
  | cons e rest ih =>
    obtain ⟨k, v⟩ := e
    have above : ∀ e ∈ front, e.1 < k := fun e mem =>
      (pairwise_append.mp inOrder).2.2 e mem (k, v) mem_cons_self
    have split : front ++ (k, v) :: rest = (front ++ [(k, v)]) ++ rest := by simp
    have put := KeyList.insert_above above v
    rw [deepMerge, put.2, mergeValue_none, put.1, split]
    exact ih (split ▸ inOrder)

theorem mergeValue_object (h : Option (ConfigValue F)) (inOrder : KeyList.InOrder entries) :
    mergeValue h (.object entries) = .object (deepMerge (childOf h) entries) := by
  by_cases obj : ∃ old, h = some (.object old)
  · obtain ⟨old, rfl⟩ := obj
    rw [mergeValue, childOf]
  · have fresh : childOf h = [] := by
      unfold childOf
      split
      next old => exact absurd ⟨old, rfl⟩ obj
      · rfl
    have rep : mergeValue h (.object entries) = .object entries := by
      unfold mergeValue
      split
      next old _ _ => exact absurd ⟨old, rfl⟩ obj
      · rfl
    have alone : deepMerge [] entries = entries := deepMerge_append inOrder
    rw [rep, fresh, alone]

/-- An object under a key has the leaves of the object under that key. -/
theorem writeAll_leaves (filled : Filled value) (wf : WellFormed value) (obj : Entries F) (k : String) :
    writeAll obj ((leaves value).map fun leaf => (k :: leaf.1, leaf.2)) =
      KeyList.insert k (mergeValue (KeyList.get obj k) value) obj := by
  induction filled generalizing obj k with
  | leaf notObject =>
    rw [leaves_leaf notObject]
    rfl
  | @object es ne _ ih =>
    cases wf with
    | object inOrder vals =>
      have merged : ∀ (part : Entries F) (into : Entries F), (∀ e ∈ part, e ∈ es) →
          writeAll into (leavesOfEntries part) = deepMerge into part := by
        intro part
        induction part with
        | nil => intro into _; rfl
        | cons e rest step =>
          intro into hi
          obtain ⟨here, later⟩ := forall_mem_cons.mp hi
          rw [leavesOfEntries, writeAll_append, ih e here (vals e here), step _ later, deepMerge]
      rw [leaves, writeAll_under obj k, merged es _ fun _ mem => mem, mergeValue_object _ inOrder]
      · exact leaves_ne_nil (.object ne ‹_›)
      · exact path_ne_nil_of_leavesOfEntries

theorem insertDotted_leaves (filled : Filled value) (wf : WellFormed value) (obj : Entries F)
    (keyed : key ≠ []) :
    insertDotted obj key value = writeAll obj ((leaves value).map fun leaf => (key ++ leaf.1, leaf.2)) := by
  induction key generalizing obj with
  | nil => exact absurd rfl keyed
  | cons first rest ih =>
    cases rest with
    | nil => exact (writeAll_leaves filled wf obj first).symm
    | cons next later =>
      have below : (leaves value).map (fun leaf => (first :: next :: later ++ leaf.1, leaf.2)) =
          ((leaves value).map fun leaf => (next :: later ++ leaf.1, leaf.2)).map fun write => (first :: write.1, write.2) := by
        rw [map_map]
        rfl
      rw [below, writeAll_under obj first, insertDotted_cons obj first (cons_ne_nil _ _),
        ih _ (cons_ne_nil _ _)]
      · exact mt map_eq_nil_iff.mp (leaves_ne_nil filled)
      · intro write mem
        obtain ⟨leaf, -, rfl⟩ := mem_map.mp mem
        exact cons_ne_nil _ _

/-- The last assignment that concerns a path decides what is at it, and an object without empty objects is
assigned as its leaves are. -/
theorem last_write_decides (writes : List (Write F)) (leafy : Leafy writes) :
    (∀ path, path ≠ [] → ∀ before write after, writes = before ++ write :: after → Related write.1 path →
      (∀ later ∈ after, ¬ Related later.1 path) →
        (write.1 = path → valueAt (.object (writeAll [] writes)) path = some write.2) ∧
        (path <+: write.1 → path ≠ write.1 →
          ∃ entries, valueAt (.object (writeAll [] writes)) path = some (.object entries)) ∧
        (write.1 <+: path → path ≠ write.1 → valueAt (.object (writeAll [] writes)) path = none)) ∧
    (∀ path, path ≠ [] → (∀ write ∈ writes, ¬ Related write.1 path) →
      valueAt (.object (writeAll [] writes)) path = none) ∧
    ∀ (obj : Entries F) (key : List String) (entries : Entries F), key ≠ [] → Filled (.object entries) →
      WellFormed (.object entries) →
        insertDotted obj key (.object entries) =
          writeAll obj ((leaves (.object entries)).map fun leaf => (key ++ leaf.1, leaf.2)) := by
  refine ⟨?_, ?_, fun obj key entries keyed filled wf => insertDotted_leaves filled wf obj keyed⟩
  · rintro path located before write after rfl - last
    have inside : ∀ later ∈ after, later.1 ≠ [] ∧ ¬ IsObject later.2 := fun later mem =>
      leafy later (mem_append_right _ (mem_cons_of_mem _ mem))
    obtain ⟨keyed, leaf⟩ := leafy write (mem_append_right _ mem_cons_self)
    have kept : valueAt (.object (writeAll [] (before ++ write :: after))) path =
        valueAt (.object (insertDotted (writeAll [] before) write.1 write.2)) path := by
      rw [writeAll_append]
      exact valueAt_writeAll_unrelated _ inside located last
    rw [kept]
    obtain ⟨equal, above, below, -⟩ := valueAt_insertDotted (writeAll [] before) leaf keyed located
    exact ⟨equal, above, below⟩
  · intro path located unrelated
    rw [valueAt_writeAll_unrelated [] leafy located unrelated, valueAt_empty located]

/-- A scalar in the way of a deeper path gives way to an object. -/
theorem last_write_decides_replaced :
    let writes : List (Write Empty) := [(["a"], .int 1), (["a", "b"], .int 2), (["c"], .null)]
    valueAt (.object (writeAll [] writes)) ["a", "b"] = some (.int 2) ∧
      (∃ entries, valueAt (.object (writeAll [] writes)) ["a"] = some (.object entries)) ∧
      valueAt (.object (writeAll [] writes)) ["d"] = none ∧
      insertDotted (writeAll [] writes) ["a"] (.object [("d", .null)]) =
        writeAll (writeAll [] writes) [(["a", "d"], .null)] := by
  intro writes
  have leafy : Leafy writes := by
    intro write mem
    simp only [writes, mem_cons, not_mem_nil, or_false] at mem
    rcases mem with rfl | rfl | rfl
    all_goals exact ⟨cons_ne_nil _ _, fun ⟨_, object⟩ => by cases object⟩
  obtain ⟨decides, absent, whole⟩ := last_write_decides writes leafy
  have later (path : List String) (other : ¬ Related ["c"] path) :
      ∀ write ∈ [((["c"], .null) : Write Empty)], ¬ Related write.1 path := by
    intro write mem
    rw [mem_singleton.mp mem]
    exact other
  refine ⟨?_, ?_, ?_, ?_⟩
  · exact (decides ["a", "b"] (by simp) [(["a"], .int 1)] (["a", "b"], .int 2) [(["c"], .null)] rfl (.inl (by simp))
      (later _ (by simp [Related]))).1 rfl
  · exact (decides ["a"] (by simp) [(["a"], .int 1)] (["a", "b"], .int 2) [(["c"], .null)] rfl (.inl (by simp))
      (later _ (by simp [Related]))).2.1 (by simp) (by simp)
  · exact absent ["d"] (by simp) (by simp [writes, Related])
  · refine whole _ ["a"] [("d", .null)] (by simp) (.object (by simp) ?_) (.object (pairwise_singleton _ _) ?_)
    all_goals intro entry mem; rw [mem_singleton.mp mem]
    · exact .leaf fun ⟨_, object⟩ => by cases object
    · exact .null

/-- The empty object has no object inside it and no leaves, but its key is written. -/
theorem empty_object_is_written :
    (∀ entry ∈ ([] : Entries Empty), Filled entry.2) ∧ WellFormed (.object ([] : Entries Empty)) ∧
      insertDotted ([] : Entries Empty) ["k"] (.object []) ≠
        writeAll [] ((leaves (.object ([] : Entries Empty))).map fun leaf => (["k"] ++ leaf.1, leaf.2)) := by
  refine ⟨fun _ mem => absurd mem not_mem_nil, .nil, ?_⟩
  intro eq
  cases eq

end Atomr.Config
