import Atomr.Config.Layering

/-! Stacks of layers, and what grouping them otherwise changes.

A value of a middle layer that is no object hides the objects of the layers below it, but only from the
layers it is merged with first. Merged into the layer above, an object there has already won over it, and the
object of the lowest layer is then merged into that one.
-/

set_option linter.dupNamespace false

namespace Atomr.Config

open Library List
open ConfigValue (WellFormed)

variable {F : Type} {other r : Entries F} {first : ConfigValue F} {segs : List String}

theorem open_cons {head : String} (h : KeyList.get r head = some (.object other)) {tail : List String}
    (hi : Open other tail) : Open r (head :: tail) := by
  intro front pre ne v found
  cases front with
  | nil => cases found
  | cons first rest =>
    obtain ⟨rfl, within⟩ := cons_prefix_cons.mp pre
    by_cases last : rest = []
    · subst last
      cases h.symm.trans found
      exact ⟨other, rfl⟩
    · rw [lookup_cons_object h last] at found
      exact hi rest within (fun eq => ne (by rw [eq])) v found

/-- The second object has something at a path where the first has nothing and nothing in the way. -/
def Adds (x z : Entries F) : Prop :=
  ∃ segs, segs ≠ [] ∧ (∃ value, lookup z segs = some value) ∧ lookup x segs = none ∧ Open x segs

variable {key : String} {x z a b c : Entries F} {value : ConfigValue F}

theorem adds_of_inner {s : Entries F} (h : KeyList.get x key = some (.object other))
    (found : KeyList.get z key = some (.object s)) (adds : Adds other s) : Adds x z := by
  obtain ⟨segs, loc, ⟨v, there⟩, ha, isOpen⟩ := adds
  refine ⟨key :: segs, cons_ne_nil _ _, ⟨v, ?_⟩, ?_, open_cons h isOpen⟩
  · rw [lookup_cons_object found loc]
    exact there
  · rw [lookup_cons_object h loc]
    exact ha

theorem adds_of_key (ha : KeyList.get x key = none) (found : KeyList.get z key = some value) : Adds x z := by
  refine ⟨[key], cons_ne_nil _ _, ⟨value, found⟩, ha, ?_⟩
  intro front pre ne value found
  cases front with
  | nil => cases found
  | cons first rest =>
    obtain ⟨rfl, within⟩ := cons_prefix_cons.mp pre
    exact absurd (by rw [prefix_nil.mp within]) ne

theorem mergeObject_eq_self_iff (wf : WellFormed first) (shape : first = .object x)
    (b : WellFormed (.object z)) : mergeObject false x z = x ↔ ¬ Adds x z := by
  constructor
  · rintro eq ⟨segs, loc, ⟨v, there⟩, ha, isOpen⟩
    have filled := lookup_fallback_absent b loc ha isOpen
    rw [eq, ha, there] at filled
    cases filled
  · intro nothing
    induction wf generalizing x z with
    | @object es inOrder vals ih =>
      cases shape
      have kept : WellFormed (.object es) := .object inOrder vals
      refine (inOrder_of_wellFormed (mergeObject_wellFormed false kept b)).ext inOrder fun k => ?_
      rw [get_mergeObject false es (inOrder_of_wellFormed b)]
      cases found : KeyList.get z k with
      | none => rfl
      | some added =>
        cases h : KeyList.get es k with
        | none => exact absurd (adds_of_key h found) nothing
        | some v =>
          rw [mergedAt]
          by_cases objects : IsObject v ∧ IsObject added
          · obtain ⟨⟨other, rfl⟩, ⟨s, rfl⟩⟩ := objects
            have inner := ih _ (KeyList.mem_of_get h) rfl (b.get found) fun adds => nothing (adds_of_inner h found adds)
            rw [mergeHeld_objects, inner]
          · rw [mergeHeld_clash false objects]
            rfl
    | _ => cases shape

theorem wellFormed_of_lookup (wf : WellFormed (.object r)) (found : lookup r segs = some value) :
    WellFormed value := by
  induction segs generalizing r with
  | nil => cases found
  | cons head tail ih =>
    by_cases last : tail = []
    · subst last
      exact wf.get found
    · obtain ⟨other, h, hi⟩ := object_of_lookup last found
      exact ih (wf.get h) hi

theorem lookup_fallback_shadow (wf : WellFormed (.object b)) (found : lookup a segs = some (.object x))
    (foundB : lookup b segs = some value) (leaf : ¬ IsObject value) :
    lookup (mergeObject false a b) segs = some (.object x) := by
  rcases lookup_fallback_object wf found foundB with ⟨y, rfl, -⟩ | ⟨-, merged⟩
  · exact absurd ⟨y, rfl⟩ leaf
  · exact merged

/-- Where a value of the second layer lies between objects of the first and the third, the third adds nothing. -/
def Covered (a b c : Entries F) : Prop :=
  ∀ segs x z value, lookup a segs = some (.object x) → lookup b segs = some value → ¬ IsObject value →
    lookup c segs = some (.object z) → ¬ Adds x z

theorem covered_inner {y : Entries F} (cov : Covered a b c) (heldA : KeyList.get a key = some (.object x))
    (heldB : KeyList.get b key = some (.object y)) (heldC : KeyList.get c key = some (.object z)) : Covered x y z := by
  intro segs x' z' v found foundB leaf foundC
  have loc : segs ≠ [] := by
    rintro rfl
    cases found
  refine cov (key :: segs) x' z' v ?_ ?_ leaf ?_
  · rw [lookup_cons_object heldA loc]
    exact found
  · rw [lookup_cons_object heldB loc]
    exact foundB
  · rw [lookup_cons_object heldC loc]
    exact foundC

theorem mergedAt_regroups {a b c : Option (ConfigValue F)}
    (objects : ∀ x y z, a = some (.object x) → b = some (.object y) → c = some (.object z) →
      mergeObject false (mergeObject false x y) z = mergeObject false x (mergeObject false y z))
    (between : ∀ x z v, a = some (.object x) → b = some v → ¬ IsObject v → c = some (.object z) →
      mergeObject false x z = x) :
    mergedAt false (mergedAt false a b) c = mergedAt false a (mergedAt false b c) := by
  cases c with
  | none => rfl
  | some third =>
    cases b with
    | none => rw [mergedAt, mergedAt, mergedAt, mergeHeld_none, mergedAt]
    | some second =>
      cases a with
      | none => rw [mergedAt, mergedAt, mergedAt, mergeHeld_none, mergedAt, mergeHeld_none]
      | some first =>
        rw [mergedAt, mergedAt]
        refine congrArg some ?_
        by_cases isFirst : IsObject first
        swap
        · rw [mergeHeld_clash false fun both => isFirst both.1, mergeHeld_clash false fun both => isFirst both.1]
          exact mergeHeld_clash false fun both => isFirst both.1
        obtain ⟨x, rfl⟩ := isFirst
        by_cases isSecond : IsObject second
        · obtain ⟨y, rfl⟩ := isSecond
          by_cases isThird : IsObject third
          · obtain ⟨z, rfl⟩ := isThird
            rw [mergeHeld_objects, mergeHeld_objects, mergeHeld_objects, mergeHeld_objects, objects x y z rfl rfl rfl]
          · rw [mergeHeld_clash false fun both => isThird both.2,
              mergeHeld_clash false fun both => isThird both.2]
            exact (mergeHeld_objects false x y).symm
        · have hidden : mergeHeld false (some second) third = second := mergeHeld_clash false fun both => isSecond both.1
          have kept : mergeHeld false (some (.object x)) second = .object x := mergeHeld_clash false fun both => isSecond both.2
          rw [hidden, kept]
          by_cases isThird : IsObject third
          · obtain ⟨z, rfl⟩ := isThird
            rw [mergeHeld_objects, between x z second rfl rfl isSecond rfl]
          · exact mergeHeld_clash false fun both => isThird both.2

theorem regroups_of_covered (wf : WellFormed first) (shape : first = .object a)
    (wfB : WellFormed (.object b)) (wfC : WellFormed (.object c)) (cov : Covered a b c) :
    mergeObject false (mergeObject false a b) c = mergeObject false a (mergeObject false b c) := by
  induction wf generalizing a b c with
  | @object es inOrder vals ih =>
    cases shape
    have kept : WellFormed (.object es) := .object inOrder vals
    have lower := mergeObject_wellFormed false wfB wfC
    have upper := mergeObject_wellFormed false kept wfB
    refine (inOrder_of_wellFormed (mergeObject_wellFormed false upper wfC)).ext
      (inOrder_of_wellFormed (mergeObject_wellFormed false kept lower)) fun k => ?_
    rw [get_mergeObject false _ (inOrder_of_wellFormed wfC), get_mergeObject false _ (inOrder_of_wellFormed wfB),
      get_mergeObject false _ (inOrder_of_wellFormed lower), get_mergeObject false _ (inOrder_of_wellFormed wfC)]
    refine mergedAt_regroups (fun x y z heldA heldB heldC => ?_) fun x z v heldA heldB leaf heldC => ?_
    · exact ih _ (KeyList.mem_of_get heldA) rfl (wfB.get heldB) (wfC.get heldC)
        (covered_inner cov heldA heldB heldC)
    · exact (mergeObject_eq_self_iff (kept.get heldA) rfl (wfC.get heldC)).mpr
        (cov [k] x z v heldA heldB leaf heldC)
  | _ => cases shape

theorem covered_of_regroups (wellFormedA : WellFormed (.object a)) (wfB : WellFormed (.object b))
    (wfC : WellFormed (.object c))
    (eq : mergeObject false (mergeObject false a b) c = mergeObject false a (mergeObject false b c)) :
    Covered a b c := by
  intro segs x z v found foundB leaf foundC
  -- Grouped from above the third object is merged into the first, grouped from below it is hidden.
  have above : lookup (mergeObject false (mergeObject false a b) c) segs = some (.object (mergeObject false x z)) :=
    lookup_fallback_objects wfC (lookup_fallback_shadow wfB found foundB leaf) foundC
  have below : lookup (mergeObject false a (mergeObject false b c)) segs = some (.object x) :=
    lookup_fallback_shadow (mergeObject_wellFormed false wfB wfC) found
      (lookup_fallback_leaf wfC foundB leaf) leaf
  rw [eq, below] at above
  have unch : mergeObject false x z = x := (ConfigValue.object.inj (Option.some.inj above)).symm
  exact (mergeObject_eq_self_iff (wellFormed_of_lookup wellFormedA found) rfl (wellFormed_of_lookup wfC foundC)).mp unch

namespace Config

/-- Two groupings of three layers are the same exactly when no object of the lowest layer adds to an object of
the highest at a path where the middle one has some other value. -/
theorem fallback_regroups_iff (a b c : Config F) :
    (a.withFallback b).withFallback c = a.withFallback (b.withFallback c) ↔ Covered a.root b.root c.root := by
  constructor
  · intro eq
    exact covered_of_regroups a.wellFormed b.wellFormed c.wellFormed (congrArg Config.root eq)
  · intro covered
    exact Config.ext (regroups_of_covered a.wellFormed rfl b.wellFormed c.wellFormed covered)

end Config

def layerOf (key : String) (value : ConfigValue F) (wellFormed : WellFormed value) : Config F where
  root := [(key, value)]
  wellFormed := .object (List.pairwise_singleton _ _) fun entry member => by
    rw [List.mem_singleton.mp member]
    exact wellFormed

/-- The object of the lowest layer is merged past a number of the middle one, or is hidden by it. -/
theorem fallback_not_associative :
    let object (key : String) : Config Empty := layerOf key (.int 1) (.int 1)
    let a := layerOf "x" (.object (object "p").root) (object "p").wellFormed
    let b : Config Empty := layerOf "x" (.int 5) (.int 5)
    let c := layerOf "x" (.object (object "q").root) (object "q").wellFormed
    lookup ((a.withFallback b).withFallback c).root ["x", "q"] = some (.int 1) ∧
      lookup (a.withFallback (b.withFallback c)).root ["x", "q"] = none ∧
      (a.withFallback b).withFallback c ≠ a.withFallback (b.withFallback c) := by
  intro object a b c
  have above : lookup ((a.withFallback b).withFallback c).root ["x", "q"] = some (.int 1) := by rfl
  have below : lookup (a.withFallback (b.withFallback c)).root ["x", "q"] = none := by rfl
  refine ⟨above, below, fun eq => ?_⟩
  rw [eq] at above
  cases above

end Atomr.Config
