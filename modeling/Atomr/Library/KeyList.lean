import Mathlib.Data.List.Forall2
import Mathlib.Data.List.Induction
import Mathlib.Order.Lattice

/-! Maps as lists in the order of their keys.

A tree whose nodes hold maps of trees cannot carry the order in its type, so the list is
plain here and the order is a predicate. Looking up and inserting need no order to agree.
-/

namespace Atomr.Library.KeyList

open List

variable {K V : Type} [LinearOrder K]

def get (entries : List (K × V)) (key : K) : Option V := entries.lookup key

/-- The value of the key is replaced, or the key gets its place among the others. -/
def insert (key : K) (value : V) : List (K × V) → List (K × V)
  | [] => [(key, value)]
  | (k, v) :: rest =>
    if key < k then (key, value) :: (k, v) :: rest
    else if key = k then (k, value) :: rest
    else (k, v) :: insert key value rest

/-- The keys increase, so that none occurs twice. -/
def InOrder (entries : List (K × V)) : Prop := entries.Pairwise fun first second => first.1 < second.1

theorem get_cons (k key : K) (v : V) (rest : List (K × V)) :
    get ((k, v) :: rest) key = if key = k then some v else get rest key := by
  unfold get
  rw [lookup_cons]
  by_cases eq : key = k
  · simp [eq]
  · rw [beq_false_of_ne eq, if_neg eq]

variable {es : List (K × V)} {key : K} {v : V}

theorem mem_of_get (found : get es key = some v) : (key, v) ∈ es := by
  induction es with
  | nil => cases found
  | cons e rest ih =>
    rw [get_cons] at found
    split at found
    next eq =>
      cases found
      rw [eq]
      exact mem_cons_self
    · exact mem_cons_of_mem _ (ih found)

variable {W : Type} {R : V → W → Prop} {others : List (K × W)} {e : K × V}

theorem get_of_forall₂
    (related : List.Forall₂ (fun e other => other.1 = e.1 ∧ R e.2 other.2) es others)
    (found : get es key = some v) : ∃ other, get others key = some other ∧ R v other := by
  induction related with
  | nil => cases found
  | @cons e other rest _ p _ ih =>
    obtain ⟨k', w⟩ := other
    obtain ⟨eq, vals⟩ := p
    cases eq
    rw [get_cons] at found ⊢
    split
    next here =>
      rw [if_pos here] at found
      cases found
      exact ⟨w, rfl, vals⟩
    next elsewhere =>
      rw [if_neg elsewhere] at found
      exact ih found

theorem mem_insert (mem : e ∈ insert key v es) : e = (key, v) ∨ e ∈ es := by
  induction es with
  | nil => exact .inl (mem_singleton.mp mem)
  | cons first rest ih =>
    unfold insert at mem
    split at mem
    · exact mem_cons.mp mem
    · split at mem
      next eq =>
        rw [eq]
        exact (mem_cons.mp mem).imp id (mem_cons_of_mem _)
      · rcases mem_cons.mp mem with rfl | later
        · exact .inr mem_cons_self
        · exact (ih later).imp id (mem_cons_of_mem _)

theorem InOrder.insert (inOrder : InOrder es) (k : K) (v : V) : InOrder (insert k v es) := by
  induction es with
  | nil => exact pairwise_singleton _ _
  | cons first rest ih =>
    obtain ⟨above, later⟩ := pairwise_cons.mp inOrder
    unfold KeyList.insert
    split
    next pre =>
      refine pairwise_cons.mpr ⟨fun e mem => ?_, inOrder⟩
      rcases mem_cons.mp mem with rfl | later
      · exact pre
      · exact lt_trans pre (above e later)
    next notBefore =>
      split
      · exact pairwise_cons.mpr ⟨above, later⟩
      next ne =>
        refine pairwise_cons.mpr ⟨fun e mem => ?_, ih later⟩
        rcases mem_insert mem with rfl | old
        · exact lt_of_le_of_ne (not_lt.mp notBefore) fun eq => ne eq.symm
        · exact above e old

theorem InOrder.get_of_mem (inOrder : InOrder es) (mem : e ∈ es) :
    get es e.1 = some e.2 := by
  induction es with
  | nil => cases mem
  | cons first rest ih =>
    obtain ⟨above, later⟩ := pairwise_cons.mp inOrder
    rw [get_cons]
    rcases mem_cons.mp mem with rfl | mem
    · rw [if_pos rfl]
    · rw [if_neg (above e mem).ne', ih later mem]

theorem get_insert (key other : K) (val : V) (es : List (K × V)) :
    get (insert key val es) other = if other = key then some val else get es other := by
  induction es with
  | nil => rw [insert, get_cons]
  | cons first rest ih =>
    obtain ⟨k, v⟩ := first
    unfold insert
    split
    · rw [get_cons]
    · split
      next eq =>
        subst eq
        rw [get_cons, get_cons]
        split <;> rfl
      next ne =>
        rw [get_cons, get_cons, ih]
        by_cases here : other = k
        · rw [if_pos here, if_pos here, if_neg fun eq => ne (eq.symm.trans here)]
        · rw [if_neg here, if_neg here]

theorem insert_insert (key : K) (first second : V) (es : List (K × V)) :
    insert key second (insert key first es) = insert key second es := by
  have again (rest : List (K × V)) : insert key second ((key, first) :: rest) = (key, second) :: rest := by
    rw [insert, if_neg (lt_irrefl key), if_pos rfl]
  induction es with
  | nil => exact again []
  | cons e rest ih =>
    obtain ⟨k, v⟩ := e
    by_cases pre : key < k
    · rw [insert, if_pos pre, again, insert, if_pos pre]
    · by_cases eq : key = k
      · subst eq
        rw [insert, if_neg pre, if_pos rfl, again, insert, if_neg pre, if_pos rfl]
      · rw [insert, if_neg pre, if_neg eq, insert, if_neg pre, if_neg eq, ih, insert, if_neg pre,
          if_neg eq]

theorem insert_above (above : ∀ e ∈ es, e.1 < key) (v : V) :
    insert key v es = es ++ [(key, v)] ∧ get es key = none := by
  induction es with
  | nil => exact ⟨rfl, rfl⟩
  | cons e rest ih =>
    obtain ⟨here, later⟩ := forall_mem_cons.mp above
    obtain ⟨last, ha⟩ := ih later
    rw [insert, if_neg (lt_asymm here), if_neg (ne_of_gt here), last, get_cons, if_neg (ne_of_gt here), ha]
    exact ⟨rfl, rfl⟩

theorem get_of_below (below : ∀ e ∈ es, key < e.1) : get es key = none := by
  induction es with
  | nil => rfl
  | cons e rest ih =>
    obtain ⟨here, later⟩ := forall_mem_cons.mp below
    rw [get_cons, if_neg (ne_of_lt here), ih later]

theorem InOrder.get_of_lt_first {k : K} {v : V} {rest : List (K × V)} (inOrder : InOrder ((k, v) :: rest))
    (lower : key < k) : get ((k, v) :: rest) key = none := by
  obtain ⟨above, -⟩ := pairwise_cons.mp inOrder
  refine get_of_below (forall_mem_cons.mpr ⟨lower, fun e mem => ?_⟩)
  exact lt_trans lower (above e mem)

/-- Maps with the same values are the same list. -/
theorem InOrder.ext {first second : List (K × V)} (inOrder : InOrder first) (inOrder' : InOrder second)
    (eq : ∀ key, get first key = get second key) : first = second := by
  induction first generalizing second with
  | nil =>
    cases second with
    | nil => rfl
    | cons e rest =>
      have found := eq e.1
      rw [get_cons, if_pos rfl] at found
      cases found
  | cons e rest ih =>
    obtain ⟨k, v⟩ := e
    have found := eq k
    rw [get_cons, if_pos rfl] at found
    cases second with
    | nil => cases found
    | cons other others =>
      obtain ⟨key, w⟩ := other
      have keys : k = key := by
        rcases lt_trichotomy k key with lower | equal | higher
        · rw [inOrder'.get_of_lt_first lower] at found
          cases found
        · exact equal
        · have back := eq key
          rw [inOrder.get_of_lt_first higher, get_cons, if_pos rfl] at back
          cases back
      subst keys
      rw [get_cons, if_pos rfl] at found
      cases found
      obtain ⟨above, later⟩ := pairwise_cons.mp inOrder
      obtain ⟨above', later'⟩ := pairwise_cons.mp inOrder'
      refine congrArg _ (ih later later' fun key => ?_)
      by_cases here : key = k
      · rw [here, get_of_below above, get_of_below above']
      · have tails := eq key
        rwa [get_cons, get_cons, if_neg here, if_neg here] at tails

section Groups
variable {A : Type} (key : A → K)

def group (items : List A) : List (K × List A) :=
  items.foldl (fun groups item => insert (key item) ((get groups (key item)).getD [] ++ [item]) groups) []

theorem group_snoc (xs : List A) (x : A) :
    group key (xs ++ [x]) =
      insert (key x) ((get (group key xs) (key x)).getD [] ++ [x]) (group key xs) := by
  rw [group, foldl_append, foldl_cons, foldl_nil, group]

theorem get_group (xs : List A) (k : K) :
    (get (group key xs) k).getD [] = xs.filter fun x => key x = k := by
  induction xs using List.reverseRecOn with
  | nil => rfl
  | append_singleton xs x ih =>
    rw [group_snoc, get_insert, filter_append, ← ih]
    by_cases eq : k = key x
    · simp [eq]
    · simp [eq, Ne.symm eq]

variable {xs : List A} {k : K}

theorem key_of_mem_group {ms : List A} (found : (k, ms) ∈ group key xs) {x : A}
    (mem : x ∈ ms) : key x = k := by
  induction xs using List.reverseRecOn generalizing ms with
  | nil => cases found
  | append_singleton xs last ih =>
    rw [group_snoc] at found
    rcases mem_insert found with new | old
    · cases new
      rcases mem_append.mp mem with pre | t
      · rw [get_group] at pre
        exact of_decide_eq_true (mem_filter.mp pre).2
      · rw [mem_singleton.mp t]
    · exact ih old mem

theorem group_of_forall (ne : xs ≠ []) (eq : ∀ x ∈ xs, key x = k) :
    group key xs = [(k, xs)] := by
  induction xs using List.reverseRecOn with
  | nil => exact absurd rfl ne
  | append_singleton xs last ih =>
    have lastKey : key last = k := eq last mem_concat_self
    rw [group_snoc, lastKey]
    by_cases first : xs = []
    · subst first
      rfl
    · rw [ih first fun x mem => eq x (mem_append_left _ mem), get_cons, if_pos rfl, insert,
        if_neg (lt_irrefl k), if_pos rfl]
      rfl

end Groups

end Atomr.Library.KeyList
