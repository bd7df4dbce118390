import Atomr.Config.Writes

/-! Layers of configuration: one tree over another, and what is found at a path of the result.

The same merge is used with both answers to the question which side wins where they clash. Read from the
other side it is the merge with the other answer.
-/

set_option linter.dupNamespace false

namespace Atomr.Config

open Library List
open ConfigValue (WellFormed)

@[ext] structure Config (F : Type) where
  root : Entries F
  wellFormed : WellFormed (.object root)

namespace ConfigPath

/-- The segments of a dotted path; empty ones do not count. -/
def parse (path : String) : List String := (segments path).filter fun segment => segment ≠ ""

end ConfigPath

variable {F : Type}

def lookup : (root : Entries F) → (segs : List String) → Option (ConfigValue F)
  | _, [] => none
  | root, [head] => KeyList.get root head
  | root, head :: tail => match KeyList.get root head with
    | some (.object o) => lookup o tail
    | _ => none

mutual

/-- Merge the entries of another object. An entry that is kept is put back. -/
def mergeObject (overrideRhs : Bool) : (dst src : Entries F) → Entries F
  | dst, [] => dst
  | dst, (k, v) :: rest =>
    mergeObject overrideRhs (KeyList.insert k (mergeHeld overrideRhs (KeyList.get dst k) v) dst) rest
termination_by structural _ src => src

def mergeHeld (overrideRhs : Bool) : (held : Option (ConfigValue F)) → (value : ConfigValue F) → ConfigValue F
  | some (.object inner), .object srcInner => .object (mergeObject overrideRhs inner srcInner)
  | some held, v => if overrideRhs then v else held
  | none, v => v
termination_by structural _ value => value

end

variable (overrideRhs : Bool)

theorem mergeHeld_none (v : ConfigValue F) : mergeHeld overrideRhs none v = v := by
  unfold mergeHeld
  rfl

variable {value : ConfigValue F} {src dst : Entries F}

theorem mergeHeld_clash {h : ConfigValue F} (clash : ¬ (IsObject h ∧ IsObject value)) :
    mergeHeld overrideRhs (some h) value = if overrideRhs then value else h := by
  unfold mergeHeld
  split
  next inner srcInner eq =>
    cases eq
    exact absurd ⟨⟨inner, rfl⟩, ⟨srcInner, rfl⟩⟩ clash
  next eq _ =>
    cases eq
    rfl
  next eq => cases eq

theorem mergeHeld_objects (inner srcInner : Entries F) :
    mergeHeld overrideRhs (some (.object inner)) (.object srcInner) = .object (mergeObject overrideRhs inner srcInner) := by
  rw [mergeHeld]

def mergedAt : (held value : Option (ConfigValue F)) → Option (ConfigValue F)
  | held, none => held
  | held, some value => some (mergeHeld overrideRhs held value)

theorem get_mergeObject (dst : Entries F) (inOrder : KeyList.InOrder src) (key : String) :
    KeyList.get (mergeObject overrideRhs dst src) key =
      mergedAt overrideRhs (KeyList.get dst key) (KeyList.get src key) := by
  induction src generalizing dst with
  | nil =>
    rfl
  | cons e rest ih =>
    obtain ⟨k, v⟩ := e
    obtain ⟨above, later⟩ := pairwise_cons.mp inOrder
    rw [mergeObject, ih _ later, KeyList.get_insert, KeyList.get_cons]
    by_cases eq : key = k
    · subst eq
      rw [if_pos rfl, if_pos rfl, KeyList.get_of_below above]
      rfl
    · rw [if_neg eq, if_neg eq]

def LayersWell (value : ConfigValue F) : Prop :=
  ∀ held : Option (ConfigValue F), (∀ old, held = some old → WellFormed old) → WellFormed (mergeHeld overrideRhs held value)

theorem mergeObject_of_layersWell {overrideRhs : Bool} (vals : ∀ e ∈ src, LayersWell overrideRhs e.2)
    (kept : WellFormed (.object dst)) : WellFormed (.object (mergeObject overrideRhs dst src)) := by
  induction src generalizing dst with
  | nil => rwa [mergeObject]
  | cons e rest ih =>
    obtain ⟨first, later⟩ := forall_mem_cons.mp vals
    exact ih later (kept.insert _ (first _ fun old found => kept.get found))

theorem clash_wellFormed {h : Option (ConfigValue F)} (kept : ∀ old, h = some old → WellFormed old)
    (added : WellFormed value) (clash : ∀ old, h = some old → ¬ (IsObject old ∧ IsObject value)) :
    WellFormed (mergeHeld overrideRhs h value) := by
  cases h with
  | none => rwa [mergeHeld_none]
  | some old =>
    rw [mergeHeld_clash overrideRhs (clash old rfl)]
    split
    · exact added
    · exact kept old rfl

theorem layersWell (wf : WellFormed value) : LayersWell overrideRhs value := by
  have leaf {value : ConfigValue F} (added : WellFormed value) (notObject : ¬ IsObject value) :
      LayersWell overrideRhs value := fun h kept =>
    clash_wellFormed overrideRhs kept added fun old _ objects => notObject objects.2
  induction wf with
  | @object es inOrder vals ih =>
    intro h kept
    by_cases objects : ∃ inner, h = some (.object inner)
    · obtain ⟨inner, rfl⟩ := objects
      exact mergeObject_of_layersWell ih (kept _ rfl)
    · refine clash_wellFormed overrideRhs kept (.object inOrder vals) fun old eq clash => ?_
      obtain ⟨⟨inner, rfl⟩, -⟩ := clash
      exact objects ⟨inner, eq⟩
  | array xs => exact leaf (.array xs) (fun ⟨_, eq⟩ => by cases eq)
  | null => exact leaf .null (fun ⟨_, eq⟩ => by cases eq)
  | bool value => exact leaf (.bool value) (fun ⟨_, eq⟩ => by cases eq)
  | int value => exact leaf (.int value) (fun ⟨_, eq⟩ => by cases eq)
  | float value => exact leaf (.float value) (fun ⟨_, eq⟩ => by cases eq)
  | string value => exact leaf (.string value) (fun ⟨_, eq⟩ => by cases eq)

theorem mergeObject_wellFormed (kept : WellFormed (.object dst)) (added : WellFormed (.object src)) :
    WellFormed (.object (mergeObject overrideRhs dst src)) := by
  cases added with
  | object _ vals => exact mergeObject_of_layersWell (fun e mem => layersWell overrideRhs (vals e mem)) kept

namespace Config

def withFallback (c fallback : Config F) : Config F :=
  ⟨mergeObject false c.root fallback.root, mergeObject_wellFormed false c.wellFormed fallback.wellFormed⟩

def mergedWith (c other : Config F) : Config F :=
  ⟨mergeObject true c.root other.root, mergeObject_wellFormed true c.wellFormed other.wellFormed⟩

def get (c : Config F) (path : String) : Option (ConfigValue F) := lookup c.root (ConfigPath.parse path)

end Config

theorem inOrder_of_wellFormed {es : Entries F} (wf : WellFormed (.object es)) : KeyList.InOrder es := by
  cases wf with
  | object inOrder _ => exact inOrder

theorem mergeObject_swap {first : ConfigValue F} (wf : WellFormed first) (shape : first = .object dst)
    (other : WellFormed (.object src)) : mergeObject false dst src = mergeObject true src dst := by
  induction wf generalizing dst src with
  | @object es inOrder vals ih =>
    cases shape
    have kept : WellFormed (.object es) := .object inOrder vals
    refine (inOrder_of_wellFormed (mergeObject_wellFormed false kept other)).ext
      (inOrder_of_wellFormed (mergeObject_wellFormed true other kept)) fun k => ?_
    rw [get_mergeObject false es (inOrder_of_wellFormed other), get_mergeObject true src inOrder]
    cases h : KeyList.get es k with
    | none =>
      cases KeyList.get src k with
      | none => rfl
      | some v => rw [mergedAt, mergedAt, mergeHeld_none]
    | some v =>
      cases found : KeyList.get src k with
      | none => rw [mergedAt, mergedAt, mergeHeld_none]
      | some added =>
        rw [mergedAt, mergedAt]
        by_cases objects : IsObject v ∧ IsObject added
        · obtain ⟨⟨inner, rfl⟩, ⟨srcInner, rfl⟩⟩ := objects
          rw [mergeHeld_objects, mergeHeld_objects, ih _ (KeyList.mem_of_get h) rfl (other.get found)]
        · rw [mergeHeld_clash false objects, mergeHeld_clash true fun swapped => objects swapped.symm]
          rfl
  | _ => cases shape

section Paths

variable {a b : Entries F} {tail segs : List String} {head : String} {root : Entries F}

theorem lookup_cons (r : Entries F) (head : String) (more : tail ≠ []) :
    lookup r (head :: tail) = match KeyList.get r head with
      | some (.object other) => lookup other tail
      | _ => none := by
  obtain ⟨next, rest, rfl⟩ := exists_cons_of_ne_nil more
  rfl

variable {other : Entries F} {value : ConfigValue F}

theorem lookup_cons_object (found : KeyList.get root head = some (.object other)) (more : tail ≠ []) :
    lookup root (head :: tail) = lookup other tail := by
  rw [lookup_cons root head more, found]

theorem lookup_cons_other (b : ∀ other, KeyList.get root head ≠ some (.object other)) (more : tail ≠ []) :
    lookup root (head :: tail) = none := by
  rw [lookup_cons root head more]
  split
  next other found => exact absurd found (b other)
  · rfl

theorem object_of_lookup (more : tail ≠ []) (found : lookup root (head :: tail) = some value) :
    ∃ other, KeyList.get root head = some (.object other) ∧ lookup other tail = some value := by
  by_cases obj : ∃ other, KeyList.get root head = some (.object other)
  · obtain ⟨other, h⟩ := obj
    exact ⟨other, h, (lookup_cons_object h more).symm.trans found⟩
  · rw [lookup_cons_other (fun other h => obj ⟨other, h⟩) more] at found
    cases found

theorem get_fallback_object {k : String} (wf : WellFormed (.object b))
    (h : KeyList.get a k = some (.object other)) :
    (∃ s, KeyList.get b k = some (.object s) ∧
      KeyList.get (mergeObject false a b) k = some (.object (mergeObject false other s))) ∨
    ((∀ s, KeyList.get b k ≠ some (.object s)) ∧ KeyList.get (mergeObject false a b) k = some (.object other)) := by
  rw [get_mergeObject false a (inOrder_of_wellFormed wf), h]
  cases found : KeyList.get b k with
  | none => exact .inr ⟨fun s => (Option.some_ne_none _).symm, rfl⟩
  | some v =>
    by_cases obj : IsObject v
    · obtain ⟨s, rfl⟩ := obj
      exact .inl ⟨s, rfl, by rw [mergedAt, mergeHeld_objects]⟩
    · refine .inr ⟨fun s eq => obj ⟨s, Option.some.inj eq⟩, ?_⟩
      rw [mergedAt, mergeHeld_clash false fun both => obj both.2]
      rfl

theorem lookup_fallback_leaf (wf : WellFormed (.object b)) (found : lookup a segs = some value)
    (leaf : ¬ IsObject value) : lookup (mergeObject false a b) segs = some value := by
  induction segs generalizing a b with
  | nil => cases found
  | cons head tail ih =>
    by_cases last : tail = []
    · subst last
      have h : KeyList.get a head = some value := found
      change KeyList.get (mergeObject false a b) head = some value
      rw [get_mergeObject false a (inOrder_of_wellFormed wf), h]
      cases KeyList.get b head with
      | none => rfl
      | some other =>
        rw [mergedAt, mergeHeld_clash false fun both => leaf both.1]
        rfl
    · obtain ⟨other, h, hi⟩ := object_of_lookup last found
      rcases get_fallback_object wf h with ⟨s, foundB, merged⟩ | ⟨-, merged⟩
      · rw [lookup_cons_object merged last]
        exact ih (wf.get foundB) hi
      · rw [lookup_cons_object merged last]
        exact hi

/-- No value of a proper beginning of the path is in the way. -/
def Open (root : Entries F) (segs : List String) : Prop :=
  ∀ front, front <+: segs → front ≠ segs → ∀ value, lookup root front = some value → IsObject value

variable (wf : WellFormed (.object b))
include wf

theorem lookup_fallback_absent (loc : segs ≠ []) (ha : lookup a segs = none) (isOpen : Open a segs) :
    lookup (mergeObject false a b) segs = lookup b segs := by
  induction segs generalizing a b with
  | nil => exact absurd rfl loc
  | cons head tail ih =>
    cases h : KeyList.get a head with
    | none =>
      have merged : KeyList.get (mergeObject false a b) head = KeyList.get b head := by
        rw [get_mergeObject false a (inOrder_of_wellFormed wf), h]
        cases KeyList.get b head with
        | none => rfl
        | some v => rw [mergedAt, mergeHeld_none]
      by_cases last : tail = []
      · subst last
        exact merged
      · rw [lookup_cons _ _ last, lookup_cons _ _ last, merged]
    | some v =>
      have more : tail ≠ [] := by
        rintro rfl
        exact absurd (ha.symm.trans h) (by simp)
      obtain ⟨other, rfl⟩ := isOpen [head] (cons_prefix_cons.mpr ⟨rfl, List.nil_prefix⟩)
        (fun eq => more (List.cons.inj eq).2.symm) v h
      have hi : lookup other tail = none := (lookup_cons_object h more).symm.trans ha
      have openInside : Open other tail := by
        intro front pre ne v found
        cases front with
        | nil => cases found
        | cons next rest =>
          refine isOpen (head :: next :: rest) (cons_prefix_cons.mpr ⟨rfl, pre⟩)
            (fun eq => ne (List.cons.inj eq).2) v ?_
          rw [lookup_cons_object h (cons_ne_nil _ _)]
          exact found
      rcases get_fallback_object wf h with ⟨s, foundB, merged⟩ | ⟨other, merged⟩
      · rw [lookup_cons_object merged more, lookup_cons_object foundB more]
        exact ih (wf.get foundB) more hi openInside
      · rw [lookup_cons_object merged more, lookup_cons_other other more]
        exact hi

theorem lookup_fallback_object {x : Entries F} {v : ConfigValue F} (found : lookup a segs = some (.object x))
    (foundB : lookup b segs = some v) :
    (∃ y, v = .object y ∧ lookup (mergeObject false a b) segs = some (.object (mergeObject false x y))) ∨
      ¬ IsObject v ∧ lookup (mergeObject false a b) segs = some (.object x) := by
  induction segs generalizing a b with
  | nil => cases found
  | cons head tail ih =>
    by_cases last : tail = []
    · subst last
      have h : KeyList.get a head = some (.object x) := found
      rcases get_fallback_object wf h with ⟨s, heldB, merged⟩ | ⟨other, merged⟩
      · cases foundB.symm.trans heldB
        exact .inl ⟨s, rfl, merged⟩
      · refine .inr ⟨?_, merged⟩
        rintro ⟨y, rfl⟩
        exact other y foundB
    · obtain ⟨other, h, hi⟩ := object_of_lookup last found
      obtain ⟨s, heldB, insideB⟩ := object_of_lookup last foundB
      rcases get_fallback_object wf h with ⟨t, foundT, merged⟩ | ⟨other, -⟩
      · cases heldB.symm.trans foundT
        rw [lookup_cons_object merged last]
        exact ih (wf.get heldB) hi insideB
      · exact absurd heldB (other s)

theorem lookup_fallback_objects {x y : Entries F} (found : lookup a segs = some (.object x))
    (foundB : lookup b segs = some (.object y)) :
    lookup (mergeObject false a b) segs = some (.object (mergeObject false x y)) := by
  rcases lookup_fallback_object wf found foundB with ⟨_, eq, merged⟩ | ⟨leaf, -⟩
  · cases eq
    exact merged
  · exact absurd ⟨y, rfl⟩ leaf

end Paths

namespace Config

/-- A fallback is the merge from the other side. The first layer wins with its values, the second fills what
the first leaves open, and objects are layered in their turn. -/
theorem fallback_layers (a b : Config F) :
    a.withFallback b = b.mergedWith a ∧ ∀ segs, segs ≠ [] →
      (∀ value, lookup a.root segs = some value → ¬ IsObject value → lookup (a.withFallback b).root segs = some value) ∧
      (lookup a.root segs = none → Open a.root segs → lookup (a.withFallback b).root segs = lookup b.root segs) ∧
      ∀ x y : Config F, lookup a.root segs = some (.object x.root) → lookup b.root segs = some (.object y.root) →
        lookup (a.withFallback b).root segs = some (.object (x.withFallback y).root) := by
  constructor
  · exact Config.ext (mergeObject_swap a.wellFormed rfl b.wellFormed)
  · intro segs located
    refine ⟨fun value found leaf => lookup_fallback_leaf b.wellFormed found leaf,
      fun absent isOpen => lookup_fallback_absent b.wellFormed located absent isOpen, fun x y found foundB => ?_⟩
    exact lookup_fallback_objects b.wellFormed found foundB

end Config

end Atomr.Config
