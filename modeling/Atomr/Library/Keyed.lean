import Mathlib.Data.List.Nodup

/-! Records kept in a list and found by a key, as a program keeps them in a vector.

Searches stop at the first record with the key. While the keys are pairwise
different the list is a finite map, and `put` overwrites or appends.
-/

namespace Atomr.Library.Keyed

open List

variable {R K : Type} [DecidableEq K] (key : R → K)

def find (records : List R) (k : K) : Option R := records.find? fun r => key r = k

/-- Replace the first record with the key of `record`, or append it. -/
def put (records : List R) (record : R) : List R :=
  match records with
  | [] => [record]
  | first :: rest => if key first = key record then record :: rest else first :: put rest record

def modify (records : List R) (k : K) (f : R → R) : List R :=
  match records with
  | [] => []
  | first :: rest => if key first = k then f first :: rest else first :: modify rest k f

def Distinct (records : List R) : Prop := (records.map key).Nodup

variable {key}

theorem find_cons (first : R) (rest : List R) (k : K) :
    find key (first :: rest) k = if key first = k then some first else find key rest k := by
  by_cases here : key first = k <;> simp [find, here]

variable {k : K} {records others : List R} {r : R} {f : R → R}

theorem find_eq_none : find key records k = none ↔ k ∉ records.map key := by
  simp [find]

theorem find_of_mem (nodup : Distinct key records) (mem : r ∈ records) : find key records (key r) = some r := by
  induction records with
  | nil => cases mem
  | cons first rest ih =>
    obtain ⟨fresh, nodup⟩ := nodup_cons.mp nodup
    rcases mem_cons.mp mem with rfl | later
    · simp [find_cons]
    · have other : key first ≠ key r := fun eq => fresh (eq ▸ mem_map_of_mem later)
      rw [find_cons, if_neg other, ih nodup later]

theorem find_filter (nodup : Distinct key records) (keep : R → Bool) (k : K) :
    find key (records.filter keep) k = (find key records k).filter keep := by
  induction records with
  | nil => rfl
  | cons first rest ih =>
    obtain ⟨fresh, nodup⟩ := nodup_cons.mp nodup
    rw [filter_cons]
    by_cases here : key first = k
    · subst here
      have later : find key rest (key first) = none := find_eq_none.mpr fresh
      cases kept : keep first <;> simp [find_cons, ih nodup, later, Option.filter, kept]
    · cases keep first <;> simp [find_cons, here, ih nodup]

theorem find_map (keeps : ∀ r, key (f r) = key r) (recs : List R) (k : K) :
    find key (recs.map f) k = (find key recs k).map f := by
  unfold find
  rw [List.find?_map]
  simp only [Function.comp_def, keeps]

theorem find_modify (keeps : ∀ r, key (f r) = key r) (recs : List R) (k other : K) :
    find key (modify key recs k f) other =
      if k = other then (find key recs other).map f else find key recs other := by
  induction recs with
  | nil => simp [modify, find]
  | cons first rest ih =>
    by_cases here : key first = k
    · by_cases eq : k = other <;> simp [modify, find_cons, here, keeps, eq]
    · simp only [modify, here, if_false, find_cons, ih]
      by_cases there : key first = other
      · have ne : k ≠ other := fun eq => here (there.trans eq.symm)
        simp [ne]
      · simp [there]

theorem find_put (recs : List R) (r : R) (k : K) :
    find key (put key recs r) k = if key r = k then some r else find key recs k := by
  induction recs with
  | nil => rw [put, find_cons]
  | cons first rest ih =>
    by_cases eq : key first = key r
    · by_cases here : key r = k <;> simp [put, find_cons, eq, here]
    -- The record lands further down: a search for its key passes the first one.
    · simp only [put, eq, if_false, find_cons, ih]
      by_cases here : key first = k
      · have other : key r ≠ k := fun there => eq (here.trans there.symm)
        simp [other]
      · simp [here]

variable {record : R} {first : List R}

theorem mem_map_put : k ∈ (put key records r).map key ↔ k = key r ∨ k ∈ records.map key := by
  induction records with
  | nil => simp [put]
  | cons first rest ih =>
    by_cases eq : key first = key r
    · simp [put, eq]
    · simp only [put, eq, if_false, map_cons, mem_cons]
      tauto

theorem distinct_put (nodup : Distinct key records) (r : R) : Distinct key (put key records r) := by
  induction records with
  | nil => simp [put, Distinct]
  | cons first rest ih =>
    obtain ⟨fresh, nodup⟩ := nodup_cons.mp nodup
    by_cases eq : key first = key r
    · simpa [put, Distinct, eq] using nodup_cons.mpr ⟨eq ▸ fresh, nodup⟩
    · simp only [put, eq]
      refine nodup_cons.mpr ⟨fun mem => ?_, ih nodup⟩
      exact (mem_map_put.mp mem).elim eq fresh

theorem map_modify (keeps : ∀ r, key (f r) = key r) (recs : List R) (k : K) :
    (modify key recs k f).map key = recs.map key := by
  induction recs with
  | nil => rfl
  | cons first rest ih =>
    by_cases here : key first = k <;> simp [modify, here, keeps, ih]

theorem find_foldl_put (recs : List R) (nodup : Distinct key others) (k : K) :
    find key (others.foldl (put key) recs) k = (find key others k).or (find key recs k) := by
  induction others generalizing recs with
  | nil => rfl
  | cons first rest ih =>
    obtain ⟨fresh, nodup⟩ := nodup_cons.mp nodup
    -- No later record has the key of this one, so what it puts is not overwritten.
    rw [foldl_cons, ih _ nodup, find_put, find_cons]
    by_cases here : key first = k
    · subst here
      simp [find_eq_none.mpr fresh]
    · simp [here]

theorem put_of_mem (nodup : Distinct key records) (mem : r ∈ records) : put key records r = records := by
  induction records with
  | nil => cases mem
  | cons first rest ih =>
    obtain ⟨fresh, nodup⟩ := nodup_cons.mp nodup
    rcases mem_cons.mp mem with rfl | later
    · rw [put, if_pos rfl]
    · have other : key first ≠ key r := fun eq => fresh (eq ▸ mem_map_of_mem later)
      rw [put, if_neg other, ih nodup later]

theorem foldl_put_of_subset (nodup : Distinct key records) (h : others ⊆ records) :
    others.foldl (put key) records = records := by
  induction others with
  | nil => rfl
  | cons first rest ih =>
    rw [foldl_cons, put_of_mem nodup (h mem_cons_self)]
    exact ih fun r mem => h (mem_cons_of_mem _ mem)

theorem put_of_not_mem (ha : key r ∉ records.map key) : put key records r = records ++ [r] := by
  induction records with
  | nil => rfl
  | cons first rest ih =>
    rw [map_cons, mem_cons, not_or] at ha
    rw [put, if_neg (Ne.symm ha.1), ih ha.2, cons_append]

theorem foldl_put_append (nodup : Distinct key (records ++ others)) :
    others.foldl (put key) records = records ++ others := by
  induction others generalizing records with
  | nil => rw [append_nil, foldl_nil]
  | cons first rest ih =>
    have ha : key first ∉ records.map key := by
      intro mem
      rw [Distinct, map_append] at nodup
      exact (nodup_append.mp nodup).2.2 _ mem _ mem_cons_self rfl
    rw [append_cons] at nodup ⊢
    rw [foldl_cons, put_of_not_mem ha, ih nodup]

theorem find_foldl_put_or (recs others : List R) (k : K) :
    find key (others.foldl (put key) recs) k = find key recs k ∨
      ∃ r ∈ others, key r = k ∧ find key (others.foldl (put key) recs) k = some r := by
  induction others generalizing recs with
  | nil => exact .inl rfl
  | cons first rest ih =>
    rcases ih (put key recs first) with eq | ⟨r, mem, here, found⟩
    · rw [foldl_cons, eq, find_put]
      by_cases here : key first = k
      · exact .inr ⟨first, mem_cons_self, here, if_pos here⟩
      · exact .inl (if_neg here)
    · exact .inr ⟨r, mem_cons_of_mem _ mem, here, found⟩

theorem distinct_foldl_put (nodup : Distinct key records) (others : List R) :
    Distinct key (others.foldl (put key) records) := by
  induction others generalizing records with
  | nil => exact nodup
  | cons first rest ih => exact ih (distinct_put nodup first)

theorem mem_map_foldl_put :
    k ∈ (others.foldl (put key) records).map key ↔ k ∈ others.map key ∨ k ∈ records.map key := by
  induction others generalizing records with
  | nil => simp
  | cons first rest ih =>
    rw [foldl_cons, ih, mem_map_put, map_cons, mem_cons]
    tauto

theorem mem_of_mem_foldl_put (h : Distinct key records) (nodup : Distinct key others)
    (cov : records.map key ⊆ others.map key) (mem : r ∈ others.foldl (put key) records) : r ∈ others := by
  have found := find_of_mem (distinct_foldl_put h others) mem
  rw [find_foldl_put records nodup] at found
  cases here : find key others (key r) with
  | none =>
    rw [here] at found
    exact absurd (cov (mem_map_of_mem (mem_of_find?_eq_some found))) (find_eq_none.mp here)
  | some other =>
    rw [here] at found
    cases found
    exact mem_of_find?_eq_some here

theorem find_append_of_not_mem (ha : k ∉ first.map key) (rest : List R) :
    find key (first ++ rest) k = find key rest k := by
  unfold find
  rw [List.find?_append, show first.find? _ = none from find_eq_none.mpr ha, Option.none_or]

theorem modify_append (ha : k ∉ first.map key) (rest : List R) :
    modify key (first ++ rest) k f = first ++ modify key rest k f := by
  induction first with
  | nil => rfl
  | cons head tail ih =>
    rw [map_cons, mem_cons, not_or] at ha
    rw [cons_append, modify, if_neg (Ne.symm ha.1), ih ha.2]
    rfl

theorem foldl_modify (keeps : ∀ r, key (f r) = key r) (nodup : Distinct key records) :
    (records.map key).foldl (fun h k => modify key h k f) records = records.map f := by
  -- The keys of the records rewritten so far do not come again.
  suffices all : ∀ done : List R, (∀ r ∈ records, key r ∉ done.map key) →
      (records.map key).foldl (fun h k => modify key h k f) (done ++ records) = done ++ records.map f from
    all [] fun _ _ => not_mem_nil
  induction records with
  | nil => exact fun _ _ => rfl
  | cons first rest ih =>
    intro done apart
    obtain ⟨fresh, nodup⟩ := nodup_cons.mp nodup
    obtain ⟨here, later⟩ := forall_mem_cons.mp apart
    have next := ih nodup (done ++ [f first]) fun r mem => by
      rw [map_append, mem_append, not_or]
      refine ⟨later r mem, fun eq => fresh ?_⟩
      rw [← keeps, ← mem_singleton.mp eq]
      exact mem_map_of_mem mem
    rw [map_cons, foldl_cons, modify_append here, modify, if_pos rfl, append_cons]
    exact next.trans (append_cons ..).symm

end Atomr.Library.Keyed
