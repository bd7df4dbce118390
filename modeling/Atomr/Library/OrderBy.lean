import Mathlib.Data.List.Sort

/-! Rows read in the order of a key, and the first least row of a comparison. -/

namespace Atomr.Library

open List

variable {R K : Type} [LinearOrder K] {key : R → K}

def orderBy (key : R → K) (rows : List R) : List R := rows.insertionSort fun first second => key first ≤ key second

def orderByDesc (key : R → K) (rows : List R) : List R := rows.insertionSort fun first second => key second ≤ key first

theorem perm_orderBy (k : R → K) (rows : List R) : (orderBy k rows).Perm rows := perm_insertionSort _ rows

variable {rows : List R}

theorem head?_orderBy {r : R} (first : (orderBy key rows).head? = some r) :
    r ∈ rows ∧ ∀ other ∈ rows, key r ≤ key other := by
  have ms := perm_orderBy key rows
  have sorted := pairwise_insertionSort (fun first second => key first ≤ key second) rows
  obtain ⟨rest, ord⟩ : ∃ rest, orderBy key rows = r :: rest := List.head?_eq_some_iff.mp first
  rw [ord] at ms
  unfold orderBy at ord
  rw [ord] at sorted
  refine ⟨ms.mem_iff.mp mem_cons_self, fun other mem => ?_⟩
  rcases mem_cons.mp (ms.mem_iff.mpr mem) with rfl | later
  · exact le_rfl
  · exact rel_of_pairwise_cons sorted later

theorem orderBy_of_sorted (sorted : rows.Pairwise fun first second => key first ≤ key second) :
    orderBy key rows = rows :=
  sorted.insertionSort_eq

theorem orderedInsert_of_below {r : R} (below : ∀ other ∈ rows, key r < key other) :
    rows.orderedInsert (fun first second => key second ≤ key first) r = rows ++ [r] := by
  induction rows with
  | nil => rfl
  | cons other rest ih =>
    obtain ⟨here, later⟩ := forall_mem_cons.mp below
    rw [orderedInsert_cons, if_neg (not_le.mpr here), ih later]
    rfl

theorem orderByDesc_of_increasing (incr : rows.Pairwise fun first second => key first < key second) :
    orderByDesc key rows = rows.reverse := by
  induction rows with
  | nil => rfl
  | cons r rest ih =>
    obtain ⟨below, later⟩ := pairwise_cons.mp incr
    have rest := ih later
    unfold orderByDesc at rest ⊢
    rw [insertionSort_cons, rest, orderedInsert_of_below, reverse_cons]
    exact fun other mem => below other (mem_reverse.mp mem)

theorem max?_range' (n : Nat) : (List.range' 1 n).max? = if n = 0 then none else some n := by
  cases n with
  | zero => rfl
  | succ n =>
    rw [if_neg n.succ_ne_zero, List.max?_eq_some_iff]
    simp only [mem_range'_1]
    exact ⟨by omega, fun b bounds => by omega⟩

section MinBy
variable {cmp : R → R → Ordering}

/-- The first row that no other precedes. -/
def minBy (cmp : R → R → Ordering) : List R → Option R
  | [] => none
  | first :: rest => some (rest.foldl (fun best row => if cmp best row = .gt then row else best) first)

def Least (cmp : R → R → Ordering) (rows : List R) (row : R) : Prop := ∀ other ∈ rows, (cmp row other).isLE

variable {records : List R}

theorem minBy_cons_of_least {r : R} (least : Least cmp records r) : minBy cmp (r :: records) = some r := by
  rw [minBy]
  induction records with
  | nil => rfl
  | cons other rest ih =>
    obtain ⟨here, later⟩ := forall_mem_cons.mp least
    have kept : cmp r other ≠ .gt := by
      intro greater
      rw [greater] at here
      cases here
    rw [foldl_cons, if_neg kept]
    exact ih later

theorem minBy_eq_none : minBy cmp records = none ↔ records = [] := by
  cases records <;> simp [minBy]

variable [Std.TransCmp cmp]

theorem isLE_better (cmp : R → R → Ordering) [Std.TransCmp cmp] (first r : R) :
    (cmp (if cmp first r = .gt then r else first) first).isLE ∧
      (cmp (if cmp first r = .gt then r else first) r).isLE := by
  split
  next greater =>
    rw [Std.OrientedCmp.gt_iff_lt] at greater
    exact ⟨by rw [greater]; rfl, Std.ReflCmp.isLE_rfl⟩
  next kept => exact ⟨Std.ReflCmp.isLE_rfl, Ordering.isLE_iff_ne_gt.mpr kept⟩

theorem foldl_better_least (first : R) (rest : List R) :
    (rest.foldl (fun best r => if cmp best r = .gt then r else best) first) ∈ first :: rest ∧
      Least cmp (first :: rest) (rest.foldl (fun best r => if cmp best r = .gt then r else best) first) := by
  induction rest generalizing first with
  | nil =>
    refine ⟨mem_singleton.mpr rfl, fun other mem => ?_⟩
    rw [mem_singleton.mp mem]
    exact Std.ReflCmp.isLE_rfl
  | cons r rest ih =>
    obtain ⟨mem, least⟩ := ih (if cmp first r = .gt then r else first)
    obtain ⟨passed, here⟩ := isLE_better cmp first r
    obtain ⟨best, later⟩ := forall_mem_cons.mp least
    rw [foldl_cons]
    refine ⟨?_, forall_mem_cons.mpr ⟨?_, forall_mem_cons.mpr ⟨?_, later⟩⟩⟩
    · rcases mem_cons.mp mem with eq | other
      · rw [eq]
        split
        · exact mem_cons_of_mem _ mem_cons_self
        · exact mem_cons_self
      · exact mem_cons_of_mem _ (mem_cons_of_mem _ other)
    · exact Std.TransCmp.isLE_trans best passed
    · exact Std.TransCmp.isLE_trans best here

theorem minBy_least {r : R} (found : minBy cmp records = some r) : r ∈ records ∧ Least cmp records r := by
  cases records with
  | nil => cases found
  | cons first rest =>
    cases found
    exact foldl_better_least first rest

/-- The order of the rows does not matter exactly if at most one row is least. -/
theorem minBy_perm_iff (rows : List R) :
    (∀ other : List R, other.Perm rows → minBy cmp other = minBy cmp rows) ↔
      ∀ r ∈ rows, ∀ row' ∈ rows, Least cmp rows r → Least cmp rows row' → r = row' := by
  constructor
  · intro eq
    -- A least row is found when it is moved to the front.
    have front : ∀ r ∈ rows, Least cmp rows r → minBy cmp rows = some r := by
      intro r mem least
      obtain ⟨pre, post, split⟩ := append_of_mem mem
      have perm : (r :: (pre ++ post)).Perm rows := split ▸ perm_middle.symm
      rw [← eq _ perm]
      exact minBy_cons_of_least fun other h => least other (perm.mem_iff.mp (mem_cons_of_mem _ h))
    intro r mem row' member' least least'
    exact Option.some.inj ((front r mem least).symm.trans (front row' member' least'))
  · intro unique other perm
    cases found : minBy cmp other with
    | none =>
      rw [minBy_eq_none.mp found] at perm
      rw [← perm.nil_eq]
      rfl
    | some r =>
      obtain ⟨mem, least⟩ := minBy_least found
      cases found' : minBy cmp rows with
      | none =>
        rw [perm.mem_iff, minBy_eq_none.mp found'] at mem
        cases mem
      | some row' =>
        obtain ⟨member', least'⟩ := minBy_least found'
        have least : Least cmp rows r := fun other h => least other (perm.mem_iff.mpr h)
        rw [unique r (perm.mem_iff.mp mem) row' member' least least']

end MinBy

end Atomr.Library
