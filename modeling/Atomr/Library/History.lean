import Mathlib.Data.List.Basic

/-! Histories in which every entry is justified by those before it. -/

namespace Atomr.Library

open List

variable {Entry : Type} {allowed allowed' : List Entry → Entry → Prop} {history : List Entry} {entry : Entry}

def Justified (allowed : List Entry → Entry → Prop) (history : List Entry) : Prop :=
  ∀ before entry later, history = before ++ entry :: later → allowed before entry

theorem Justified.nil : Justified allowed [] := by
  intro pre e later cut
  simp at cut

theorem Justified.snoc (just : Justified allowed history) (new : allowed history entry) :
    Justified allowed (history ++ [entry]) := by
  intro pre h later cut
  rcases eq_nil_or_concat later with rfl | ⟨between, last, rfl⟩
  -- The cut is at the new entry.
  · obtain ⟨rfl, eq⟩ := append_inj' cut rfl
    cases eq
    exact new
  · have shorter : history ++ [entry] = (pre ++ h :: between) ++ [last] := by simpa using cut
    exact just pre h between (append_inj' shorter rfl).1

theorem Justified.cons (first : allowed [] entry) (rest : Justified (fun pre => allowed (entry :: pre)) history) :
    Justified allowed (entry :: history) := by
  intro pre h later cut
  rcases cons_eq_append_iff.mp cut with ⟨rfl, eq⟩ | ⟨tail, rfl, eq⟩
  · cases eq
    exact first
  · exact rest tail h later eq

theorem Justified.imp (just : Justified allowed history)
    (weaker : ∀ pre e, allowed pre e → allowed' pre e) : Justified allowed' history :=
  fun pre e later cut => weaker pre e (just pre e later cut)

theorem Justified.left {rest : List Entry} (just : Justified allowed (history ++ rest)) : Justified allowed history :=
  fun pre e later cut => just pre e (later ++ rest) (by rw [cut, append_assoc, cons_append])

theorem Justified.of_mem (just : Justified allowed history) (mem : entry ∈ history) :
    ∃ pre, pre ⊆ history ∧ allowed pre entry := by
  obtain ⟨pre, later, cut⟩ := append_of_mem mem
  exact ⟨pre, cut ▸ subset_append_left _ _, just pre entry later cut⟩

end Atomr.Library
