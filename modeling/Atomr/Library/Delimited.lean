import Mathlib.Algebra.Ring.Nat
import Mathlib.Data.List.Basic

/-! Lists cut at a separator.

What precedes a piece is the pieces before it, each ended by the separator. A change of one element that is
no separator into another keeps the cuts.
-/

namespace Atomr.Library.Delimited

open List

variable {α : Type} {sep : α}

def ended (sep : α) (parts : List (List α)) : List α := parts.flatMap (· ++ [sep])

theorem ended_cons (part : List α) (rest : List (List α)) : ended sep (part :: rest) = part ++ sep :: ended sep rest := by
  simp [ended]

theorem ended_append (first second : List (List α)) : ended sep (first ++ second) = ended sep first ++ ended sep second :=
  flatMap_append

theorem length_ended (parts : List (List α)) : (ended sep parts).length = (parts.map fun part => part.length + 1).sum := by
  simp [ended]

variable {ps : List (List α)} {items part : List α} {β : Type} {P : β → Prop}

/-- One changed element among ended pieces, no separator before or after the change. -/
theorem set_ended (free : ∀ part ∈ ps, sep ∉ part) {i : Nat} {old new : α}
    (found : (ended sep ps)[i]? = some old) (oldFree : old ≠ sep) (newFree : new ≠ sep) :
    ∃ changed, (ended sep ps).set i new = ended sep changed ∧ ∀ part ∈ changed, sep ∉ part := by
  induction ps generalizing i with
  | nil => cases found
  | cons part ps ih =>
    obtain ⟨here, later⟩ := forall_mem_cons.mp free
    rw [ended_cons] at found ⊢
    by_cases hi : i < part.length
    · refine ⟨part.set i new :: ps, ?_, forall_mem_cons.mpr ⟨fun mem => ?_, later⟩⟩
      · rw [ended_cons, set_append_left _ _ hi]
      · rcases mem_or_eq_of_mem_set mem with kept | eq
        · exact here kept
        · exact newFree eq.symm
    · have past : part.length ≤ i := Nat.le_of_not_lt hi
      rw [List.getElem?_append_right past] at found
      cases off : i - part.length with
      | zero =>
        rw [off] at found
        cases found
        exact absurd rfl oldFree
      | succ j =>
        rw [off] at found
        obtain ⟨changed, eq, clean⟩ := ih later found
        refine ⟨part :: changed, ?_, forall_mem_cons.mpr ⟨here, clean⟩⟩
        rw [ended_cons, set_append_right _ _ past, off, set_cons_succ, eq]

variable [DecidableEq α]

def pieces (sep : α) (items : List α) : List (List α) := items.splitOnP (· == sep)

theorem not_mem_of_mem_pieces (mem : part ∈ pieces sep items) : sep ∉ part := by
  induction items generalizing part with
  | nil =>
    rw [pieces, splitOnP_nil, mem_singleton] at mem
    rw [mem]
    exact not_mem_nil
  | cons x rest ih =>
    rw [pieces, splitOnP_cons_eq_if_modifyHead] at mem
    split at mem
    · rcases mem_cons.mp mem with rfl | later
      · exact not_mem_nil
      · exact ih later
    next other =>
      have ne : x ≠ sep := fun eq => other (by simp [eq])
      cases split : rest.splitOnP (· == sep) with
      | nil =>
        rw [split] at mem
        cases mem
      | cons first later =>
        rw [split] at mem
        have hi : ∀ part ∈ first :: later, sep ∉ part := fun part h => ih (by rw [pieces, split]; exact h)
        rcases mem_cons.mp mem with rfl | tail
        · exact not_mem_cons_of_ne_of_not_mem (Ne.symm ne) (hi first mem_cons_self)
        · exact hi part (mem_cons_of_mem _ tail)

theorem pieces_ended_append (free : ∀ part ∈ ps, sep ∉ part) (rest : List α) :
    pieces sep (ended sep ps ++ rest) = ps ++ pieces sep rest := by
  induction ps with
  | nil => rfl
  | cons part ps ih =>
    obtain ⟨here, later⟩ := forall_mem_cons.mp free
    have clean : ∀ x ∈ part, (x == sep) = false := fun x mem =>
      beq_false_of_ne fun eq => here (eq ▸ mem)
    rw [ended_cons, append_assoc, cons_append, pieces,
      splitOnP_append_cons_of_forall_mem clean sep (beq_self_eq_true sep)]
    exact congrArg (part :: ·) (ih later)

theorem eq_ended_append {pre post : List (List α)} (cut : pieces sep items = pre ++ part :: post) :
    ∃ rest, items = ended sep pre ++ rest ∧ pieces sep rest = part :: post := by
  have whole : [sep].intercalate (pieces sep items) = items := intercalate_splitOn sep
  refine ⟨[sep].intercalate (part :: post), ?_, ?_⟩
  · rw [← whole, cut]
    clear whole cut
    induction pre with
    | nil => rfl
    | cons first pre ih =>
      obtain ⟨second, rest, shape⟩ := exists_cons_of_ne_nil
        (append_ne_nil_of_right_ne_nil pre (cons_ne_nil part post))
      rw [ended_cons, append_assoc, cons_append, cons_append, ← ih, shape,
        intercalate_cons_cons, append_assoc, singleton_append]
  · refine splitOn_intercalate sep (fun other mem => ?_) (cons_ne_nil _ _)
    exact not_mem_of_mem_pieces (cut ▸ mem_append_right _ mem)

theorem exists_last {xs : List β} (some : ∃ x ∈ xs, P x) :
    ∃ pre last post, xs = pre ++ last :: post ∧ P last ∧ ∀ other ∈ post, ¬ P other := by
  induction xs with
  | nil =>
    obtain ⟨x, mem, -⟩ := some
    cases mem
  | cons first rest ih =>
    by_cases later : ∃ x ∈ rest, P x
    · obtain ⟨pre, last, post, rfl, holds, none⟩ := ih later
      exact ⟨first :: pre, last, post, rfl, holds, none⟩
    · obtain ⟨x, mem, holds⟩ := some
      have here : x = first := (mem_cons.mp mem).resolve_right fun hi => later ⟨x, hi, holds⟩
      exact ⟨[], first, rest, rfl, here ▸ holds, fun other hi found => later ⟨other, hi, found⟩⟩

theorem last_unique {pre before' post after' : List β} {x item' : β}
    (eq : pre ++ x :: post = before' ++ item' :: after') (holds : P x) (holds' : P item')
    (none : ∀ other ∈ post, ¬ P other) (none' : ∀ other ∈ after', ¬ P other) :
    pre = before' ∧ x = item' ∧ post = after' := by
  rcases append_eq_append_iff.mp eq with ⟨between, rfl, tail⟩ | ⟨between, rfl, tail⟩
  · cases between with
    | nil =>
      cases tail
      simp
    | cons first rest =>
      cases tail
      exact absurd holds' (none item' (mem_append_right _ mem_cons_self))
  · cases between with
    | nil =>
      cases tail
      simp
    | cons first rest =>
      cases tail
      exact absurd holds (none' x (mem_append_right _ mem_cons_self))

end Atomr.Library.Delimited
