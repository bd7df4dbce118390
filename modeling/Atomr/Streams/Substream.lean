import Mathlib.Data.List.Induction

/-! Streams split into substreams.

A substream is what was sent into its channel. The splitting operators send into the one opened last, if it is still
current; `groupBy` keeps all of them open, by their keys.
-/

namespace Atomr.Streams

open List Bool

structure Substreams (T : Type) where
  closed : List (List T)
  current : Option (List T)

namespace Substreams

variable {T : Type} (subs : Substreams T)

def opened : List (List T) := subs.closed ++ subs.current.toList

def openNew : Substreams T := ⟨subs.opened, some []⟩

def send (item : T) : Substreams T := { subs with current := subs.current.map (· ++ [item]) }

def splitWhen (pred : T → Bool) (subs : Substreams T) (item : T) : Substreams T :=
  (if pred item || subs.current.isNone then subs.openNew else subs).send item

def splitAfter (pred : T → Bool) (subs : Substreams T) (item : T) : Substreams T :=
  let subs := (if subs.current.isNone then subs.openNew else subs).send item
  if pred item then ⟨subs.opened, none⟩ else subs

end Substreams

def splitWhen {T : Type} (pred : T → Bool) (input : List T) : List (List T) :=
  (input.foldl (Substreams.splitWhen pred) ⟨[], none⟩).opened

def splitAfter {T : Type} (pred : T → Bool) (input : List T) : List (List T) :=
  (input.foldl (Substreams.splitAfter pred) ⟨[], none⟩).opened

/-- The substreams with their keys, in the order in which they were opened. -/
def groupItem {T K : Type} [DecidableEq K] (maxSubstreams : Nat) (keyFn : T → K) (substreams : List (K × List T)) (item : T) :
    List (K × List T) :=
  if ∃ sub ∈ substreams, sub.1 = keyFn item then
    substreams.map fun sub => if sub.1 = keyFn item then (sub.1, sub.2 ++ [item]) else sub
  else if substreams.length ≥ maxSubstreams then substreams
  else substreams ++ [(keyFn item, [item])]

def groupBy {T K : Type} [DecidableEq K] (maxSubstreams : Nat) (keyFn : T → K) (input : List T) : List (K × List T) :=
  input.foldl (groupItem maxSubstreams keyFn) []

section Splitting

variable {T : Type} {pred : T → Bool} {input : List T} {subs : Substreams T}

structure CutBefore (pred : T → Bool) (input : List T) (parts : List (List T)) : Prop where
  whole : parts.flatten = input
  inside : ∀ part ∈ parts, part ≠ [] ∧ ∀ item ∈ part.tail, pred item = false
  begins : ∀ part ∈ parts.tail, ∀ item ∈ part.head?, pred item = true

structure CutAfter (pred : T → Bool) (input : List T) (parts : List (List T)) : Prop where
  whole : parts.flatten = input
  inside : ∀ part ∈ parts, part ≠ [] ∧ ∀ item ∈ part.dropLast, pred item = false
  ends : ∀ part ∈ parts.dropLast, ∀ item ∈ part.getLast?, pred item = true

variable {ps : List (List T)} {part : List T} {item : T}

theorem CutBefore.open (cut : CutBefore pred input ps) (first : ps = [] ∨ pred item = true) :
    CutBefore pred (input ++ [item]) (ps ++ [[item]]) where
  whole := by simp [cut.whole]
  inside := forall_mem_append.mpr
    ⟨cut.inside, forall_mem_singleton.mpr ⟨cons_ne_nil _ _, forall_mem_nil _⟩⟩
  begins := by
    rcases first with rfl | split
    · exact forall_mem_nil _
    · cases ps with
      | nil => exact forall_mem_nil _
      | cons => exact forall_mem_append.mpr ⟨cut.begins, forall_mem_singleton.mpr (by simpa using split)⟩

theorem CutBefore.extend (cut : CutBefore pred input (ps ++ [part])) (eq : pred item = false) :
    CutBefore pred (input ++ [item]) (ps ++ [part ++ [item]]) := by
  obtain ⟨hi, some, rest⟩ := forall_mem_append.mp cut.inside |>.imp_right forall_mem_singleton.mp
  obtain ⟨head, tail, rfl⟩ := exists_cons_of_ne_nil some
  refine ⟨by simp [← cut.whole], forall_mem_append.mpr ⟨hi, forall_mem_singleton.mpr ⟨nofun, ?_⟩⟩, ?_⟩
  · exact forall_mem_append.mpr ⟨rest, forall_mem_singleton.mpr eq⟩
  · cases ps with
    | nil => exact forall_mem_nil _
    | cons first others =>
      obtain ⟨begins, last⟩ : _ ∧ ∀ part ∈ [head :: tail], _ := forall_mem_append.mp cut.begins
      exact forall_mem_append.mpr ⟨begins, forall_mem_singleton.mpr (forall_mem_singleton.mp last)⟩

theorem cutBefore_splitWhen (pred : T → Bool) (inp : List T) : CutBefore pred inp (splitWhen pred inp) := by
  suffices kept : CutBefore pred inp (splitWhen pred inp) ∧
      ((inp.foldl (Substreams.splitWhen pred) ⟨[], none⟩).current = none → splitWhen pred inp = []) from kept.1
  unfold splitWhen
  induction inp using List.reverseRecOn with
  | nil => exact ⟨⟨rfl, forall_mem_nil _, forall_mem_nil _⟩, fun _ => rfl⟩
  | append_singleton inp x ih =>
    rw [foldl_append, foldl_cons]
    generalize inp.foldl (Substreams.splitWhen pred) ⟨[], none⟩ = subs at ih
    obtain ⟨cut, first⟩ := ih
    unfold Substreams.splitWhen
    split
    next new =>
      rw [or_eq_true, Option.isNone_iff_eq_none] at new
      exact ⟨cut.open (new.symm.imp_left first), nofun⟩
    next neither =>
      obtain ⟨eq, some⟩ := not_or.mp (mt (or_eq_true _ _).mpr neither)
      obtain ⟨closed, cur⟩ := subs
      cases cur with
      | none => exact absurd rfl some
      | some part => exact ⟨cut.extend (eq_false_iff.mpr eq), nofun⟩

/-- The closed substreams end where they split, and the current one has nothing to split at. -/
structure SplittingAfter (pred : T → Bool) (input : List T) (subs : Substreams T) : Prop where
  whole : subs.opened.flatten = input
  closed : ∀ part ∈ subs.closed, ∃ body last, part = body ++ [last] ∧ pred last = true ∧ ∀ item ∈ body, pred item = false
  current : ∀ part ∈ subs.current, part ≠ [] ∧ ∀ item ∈ part, pred item = false

theorem SplittingAfter.cutAfter (spl : SplittingAfter pred input subs) : CutAfter pred input subs.opened := by
  have closed : ∀ part ∈ subs.closed, (part ≠ [] ∧ ∀ x ∈ part.dropLast, pred x = false) ∧
      ∀ x ∈ part.getLast?, pred x = true := by
    intro part mem
    obtain ⟨body, last, rfl, ends, hi⟩ := spl.closed part mem
    simpa using ⟨hi, ends⟩
  obtain ⟨fin, cur⟩ := subs
  cases cur with
  | none =>
    unfold Substreams.opened
    rw [Option.toList_none, append_nil]
    refine ⟨by simpa [Substreams.opened] using spl.whole, fun part mem => (closed part mem).1, ?_⟩
    exact fun part mem => (closed part (dropLast_subset _ mem)).2
  | some part =>
    obtain ⟨some, hi⟩ := spl.current part rfl
    refine ⟨spl.whole, forall_mem_append.mpr ⟨fun part mem => (closed part mem).1, ?_⟩, ?_⟩
    · exact forall_mem_singleton.mpr ⟨some, fun x mem => hi x (dropLast_subset _ mem)⟩
    · intro part mem
      rw [Substreams.opened, Option.toList_some, dropLast_concat] at mem
      exact (closed part mem).2

theorem SplittingAfter.step (spl : SplittingAfter pred input subs) :
    SplittingAfter pred (input ++ [item]) (subs.splitAfter pred item) := by
  -- The item goes to the end of a substream that has nothing to split at, perhaps of a new one.
  obtain ⟨part, whole, sent, hi⟩ : ∃ part, subs.closed.flatten ++ part = input ∧
      ((if subs.current.isNone then subs.openNew else subs).send item) = ⟨subs.closed, some (part ++ [item])⟩ ∧
      ∀ item ∈ part, pred item = false := by
    obtain ⟨closed, cur⟩ := subs
    cases cur with
    | none => exact ⟨[], by simpa [Substreams.opened] using spl.whole, by simp [Substreams.openNew, Substreams.opened, Substreams.send], forall_mem_nil _⟩
    | some part => exact ⟨part, by simpa [Substreams.opened] using spl.whole, rfl, (spl.current part rfl).2⟩
  unfold Substreams.splitAfter
  rw [sent]
  split
  next split =>
    refine ⟨by simp [Substreams.opened, ← whole], forall_mem_append.mpr ⟨spl.closed, ?_⟩, nofun⟩
    exact forall_mem_singleton.mpr ⟨part, item, rfl, split, hi⟩
  next eq =>
    refine ⟨by simp [Substreams.opened, ← whole], spl.closed, ?_⟩
    rintro _ ⟨⟩
    exact ⟨by simp, forall_mem_append.mpr ⟨hi, forall_mem_singleton.mpr (eq_false_iff.mpr eq)⟩⟩

theorem cutAfter_splitAfter (pred : T → Bool) (inp : List T) : CutAfter pred inp (splitAfter pred inp) := by
  refine SplittingAfter.cutAfter ?_
  induction inp using List.reverseRecOn with
  | nil => exact ⟨rfl, forall_mem_nil _, nofun⟩
  | append_singleton inp x ih =>
    rw [foldl_append]
    exact ih.step

end Splitting

section Grouping

variable {T K : Type} [DecidableEq K]

theorem eraseDups_concat (keys : List K) (k : K) :
    (keys ++ [k]).eraseDups = keys.eraseDups ++ if k ∈ keys then [] else [k] := by
  rw [eraseDups_append]
  by_cases seen : k ∈ keys <;> simp [List.removeAll, seen, eraseDups_cons]

theorem groupBy_eq (maxSub : Nat) (keyFn : T → K) (inp : List T) :
    groupBy maxSub keyFn inp =
      ((inp.map keyFn).eraseDups.take maxSub).map fun k => (k, inp.filter fun x => keyFn x = k) := by
  induction inp using List.reverseRecOn with
  | nil => simp [groupBy]
  | append_singleton inp x ih =>
    rw [groupBy, foldl_append, foldl_cons, foldl_nil, ← groupBy, ih]
    have unch : ∀ k, keyFn x ≠ k → (inp ++ [x]).filter (fun x => keyFn x = k) = inp.filter fun x => keyFn x = k := by
      intro k other
      simp [other]
    rw [map_append, map_singleton, eraseDups_concat]
    have ha (new : ¬ ∃ sub ∈ ((inp.map keyFn).eraseDups.take maxSub).map
        fun k => (k, inp.filter fun x => keyFn x = k), sub.1 = keyFn x) :
        keyFn x ∉ (inp.map keyFn).eraseDups.take maxSub :=
      fun h => new ⟨_, mem_map_of_mem h, rfl⟩
    unfold groupItem
    split
    next h =>
      obtain ⟨_, mem, eq⟩ := h
      obtain ⟨k, h, rfl⟩ := mem_map.mp mem
      cases eq
      rw [if_pos (mem_eraseDups.mp (mem_of_mem_take h)), append_nil, map_map]
      refine map_congr_left fun k _ => ?_
      by_cases eq : k = keyFn x
      · simp [eq]
      · simp [eq, Ne.symm eq]
    next new =>
      split
      next full =>
        rw [length_map, length_take, ge_iff_le, Nat.le_min] at full
        rw [take_append_of_le_length full.2]
        refine map_congr_left fun k h => ?_
        rw [unch k fun eq => ha new (eq ▸ h)]
      next room =>
        rw [length_map, length_take] at room
        have all : (inp.map keyFn).eraseDups.length < maxSub := by omega
        have fresh := ha new
        rw [take_of_length_le (Nat.le_of_lt all)] at fresh ⊢
        rw [if_neg (mt mem_eraseDups.mpr fresh), take_of_length_le (by simpa using Nat.succ_le_of_lt all), map_append]
        congr 1
        · exact map_congr_left fun k h => by rw [unch k fun eq => fresh (eq ▸ h)]
        · simp_all

end Grouping

theorem substreams_partition {T K : Type} [DecidableEq K] (pred : T → Bool) (maxSubstreams : Nat) (keyFn : T → K)
    (input : List T) :
    CutBefore pred input (splitWhen pred input) ∧ CutAfter pred input (splitAfter pred input) ∧
      groupBy maxSubstreams keyFn input = ((input.map keyFn).eraseDups.take maxSubstreams).map fun key =>
        (key, input.filter fun item => keyFn item = key) :=
  ⟨cutBefore_splitWhen pred input, cutAfter_splitAfter pred input, groupBy_eq maxSubstreams keyFn input⟩

end Atomr.Streams
