import Mathlib.Data.Set.Finite.Basic
import Mathlib.Order.WellFounded

/-! Computations that ask questions, where an answer is a computation of the same kind.

A computation is a tree: it is done, or it asks and goes on with the answer. A failed answer ends it. Each
place has a computation, and a question asked at a place is answered by the computation of another place. To
evaluate within a depth is to give up on questions nested deeper than that.
-/

namespace Atomr.Library

open List Option

/-- A computation that asks questions of type `Q` and gets answers of type `A`. -/
inductive Asking (Q A R : Type) where
  | done (result : R)
  | ask (question : Q) (next : A → Asking Q A R)

namespace Asking

variable {Q A R S E B : Type}

def bind (first : Asking Q A R) (next : R → Asking Q A S) : Asking Q A S :=
  match first with
  | done result => next result
  | ask question later => ask question fun answer => (later answer).bind next

/-- Whatever the answers are, a result is good. -/
def All (good : R → Prop) : Asking Q A R → Prop
  | done result => good result
  | ask _ next => ∀ answer, (next answer).All good

def firstQuestion : Asking Q A R → Option Q
  | done _ => none
  | ask question _ => some question

def run (oracle : Q → Option (Except E A)) : Asking Q A (Except E B) → Option (Except E B)
  | done result => some result
  | ask question next => match oracle question with
    | none => none
    | some (.error error) => some (.error error)
    | some (.ok answer) => (next answer).run oracle

/-- The result where every question has an answer. -/
def answered (oracle : Q → Except E A) : Asking Q A (Except E B) → Except E B
  | done result => result
  | ask question next => do
    let answer ← oracle question
    (next answer).answered oracle

/-- The questions that are asked, the last of them perhaps without an answer. -/
def asked (oracle : Q → Option (Except E A)) : Asking Q A R → List Q
  | done _ => []
  | ask question next => question :: match oracle question with
    | some (.ok answer) => (next answer).asked oracle
    | _ => []

theorem All.imp {good better : R → Prop} {tree : Asking Q A R} (all : tree.All good)
    (implies : ∀ result, good result → better result) : tree.All better := by
  induction tree with
  | done result => exact implies result all
  | ask question next ih => exact fun answer => ih answer (all answer)

theorem All.bind {good : R → Prop} {better : S → Prop} {tree : Asking Q A R} {next : R → Asking Q A S}
    (all : tree.All good) (rest : ∀ result, good result → (next result).All better) : (tree.bind next).All better := by
  induction tree with
  | done result => exact rest result all
  | ask question later ih => exact fun answer => ih answer (all answer)

theorem All.run {good : Except E B → Prop} {oracle : Q → Option (Except E A)} {tree : Asking Q A (Except E B)}
    (all : tree.All good) (errors : ∀ question error, oracle question = some (.error error) → good (.error error))
    {result : Except E B} (ended : tree.run oracle = some result) : good result := by
  induction tree with
  | done other =>
    cases ended
    exact all
  | ask question next ih =>
    unfold Asking.run at ended
    cases answer : oracle question with
    | none => rw [answer] at ended; cases ended
    | some given =>
      rw [answer] at ended
      cases given with
      | error error =>
        cases ended
        exact errors question error answer
      | ok value => exact ih value (all value) ended

theorem answered_bind {C : Type} (tree : Asking Q A R) (oracle : Q → Except E A) (first : R → Except E B)
    (next : B → Except E C) :
    (tree.bind fun result => done (first result >>= next)).answered oracle =
      (tree.bind fun result => done (first result)).answered oracle >>= next := by
  induction tree with
  | done result => rfl
  | ask question later ih =>
    unfold Asking.bind answered
    cases oracle question with
    | error error => rfl
    | ok answer => exact ih answer

theorem All.answered {good : Except E B → Prop} {oracle : Q → Except E A} {tree : Asking Q A (Except E B)}
    (all : tree.All good) (errors : ∀ question error, oracle question = .error error → good (.error error)) :
    good (tree.answered oracle) := by
  induction tree with
  | done result => exact all
  | ask question next ih =>
    unfold Asking.answered
    cases answer : oracle question with
    | error error => exact errors question error answer
    | ok value => exact ih value (all value)

section Oracles

variable (oracle other : Q → Option (Except E A))

theorem run_congr (tr : Asking Q A (Except E B)) (agree : ∀ q ∈ tr.asked oracle, other q = oracle q) :
    tr.run other = tr.run oracle ∧ tr.asked other = tr.asked oracle := by
  induction tr with
  | done res => exact ⟨rfl, rfl⟩
  | ask q next ih =>
    unfold asked at agree
    obtain ⟨here, later⟩ := forall_mem_cons.mp agree
    unfold run asked
    rw [here]
    cases ans : oracle q with
    | none => exact ⟨rfl, rfl⟩
    | some hans =>
      cases hans with
      | error error => exact ⟨rfl, rfl⟩
      | ok v =>
        rw [ans] at later
        obtain ⟨sameRun, sameAsked⟩ := ih v later
        exact ⟨sameRun, congrArg _ sameAsked⟩

theorem run_isSome_iff (tr : Asking Q A (Except E B)) :
    (tr.run oracle).isSome ↔ ∀ q ∈ tr.asked oracle, (oracle q).isSome := by
  induction tr with
  | done res => exact iff_of_true rfl fun _ mem => absurd mem not_mem_nil
  | ask q next ih =>
    unfold run asked
    rw [forall_mem_cons]
    cases oracle q with
    | none => exact iff_of_false Bool.false_ne_true fun both => Bool.false_ne_true both.1
    | some hans =>
      cases hans with
      | error error => exact iff_of_true rfl ⟨rfl, fun _ mem => absurd mem not_mem_nil⟩
      | ok v => exact (ih v).trans ⟨fun all => ⟨rfl, all⟩, fun both => both.2⟩

theorem run_eq_none {tr : Asking Q A (Except E B)} {q : Q} (first : tr.firstQuestion = some q)
    (unanswered : oracle q = none) : tr.run oracle = none := by
  cases tr with
  | done res => cases first
  | ask other next =>
    cases first
    rw [run, unanswered]

theorem asked_subset (tr : Asking Q A R) (more : ∀ q ans, oracle q = some ans →
    other q = some ans) : tr.asked oracle ⊆ tr.asked other := by
  induction tr with
  | done res => exact fun _ mem => mem
  | ask q next ih =>
    unfold asked
    refine cons_subset_cons q ?_
    cases ans : oracle q with
    | none => exact nil_subset _
    | some hans =>
      rw [more q hans ans]
      cases hans with
      | error error => exact nil_subset _
      | ok v => exact ih v

end Oracles

end Asking

namespace Asking.Nested

variable {P Q A E : Type} (code : P → Asking Q A (Except E A)) (target : P → Q → P)

/-- The result of a place, if its questions are not nested deeper than given. -/
def eval : Nat → P → Option (Except E A)
  | 0, _ => none
  | depth + 1, place => (code place).run fun question => eval depth (target place question)

def oracleAt (depth : Nat) (place : P) (question : Q) : Option (Except E A) := eval code target depth (target place question)

/-- A question of one place is answered by another, in an evaluation of some depth. -/
def Asks (place next : P) : Prop :=
  ∃ depth, ∃ question ∈ (code place).asked (oracleAt code target depth place), target place question = next

def Returns (place : P) : Prop := ∃ depth result, eval code target depth place = some result

variable {code target} {pl : P} {depth : Nat} {result : Except E A}

theorem eval_succ (ended : eval code target depth pl = some result) :
    eval code target (depth + 1) pl = some result := by
  induction depth generalizing pl result with
  | zero => cases ended
  | succ depth ih =>
    have hans := (run_isSome_iff (oracleAt code target depth pl) (code pl)).mp
      (isSome_iff_exists.mpr ⟨result, ended⟩)
    have eq := (run_congr (oracleAt code target depth pl) (oracleAt code target (depth + 1) pl) (code pl) fun ask mem => by
      obtain ⟨ans, found⟩ := isSome_iff_exists.mp (hans ask mem)
      exact (ih found).trans found.symm).1
    exact eq.trans ended

theorem eval_stable {deeper : Nat} (le : depth ≤ deeper) (ended : eval code target depth pl = some result) :
    eval code target deeper pl = some result := by
  induction le with
  | refl => exact ended
  | step _ ih => exact eval_succ ih

theorem eval_settles (pl : P) : ∃ ans depth, ∀ deeper, depth ≤ deeper → eval code target deeper pl = ans := by
  by_cases returns : Returns code target pl
  · obtain ⟨depth, res, ended⟩ := returns
    exact ⟨some res, depth, fun deeper le => eval_stable le ended⟩
  · refine ⟨none, 0, fun deeper _ => ?_⟩
    rw [eq_none_iff_forall_ne_some]
    exact fun res ended => returns ⟨deeper, res, ended⟩

theorem settles_together {ideal : Q → Option (Except E A)} {depthOf : Q → Nat}
    (settled : ∀ ask deeper, depthOf ask ≤ deeper → oracleAt code target deeper pl ask = ideal ask)
    (questions : List Q) :
    ∃ depth, ∀ ask ∈ questions, oracleAt code target depth pl ask = ideal ask := by
  refine ⟨(questions.map depthOf).foldr max 0, fun ask mem => settled ask _ ?_⟩
  induction questions with
  | nil => cases mem
  | cons first rest ih =>
    rcases mem_cons.mp mem with rfl | later
    · exact Nat.le_max_left _ _
    · exact Nat.le_trans (ih later) (Nat.le_max_right _ _)

/-- A place returns exactly when there is no endless chain of questions from it. -/
theorem returns_iff_acc (pl : P) : Returns code target pl ↔ Acc (fun next pl => Asks code target pl next) pl := by
  constructor
  · rintro ⟨depth, res, ended⟩
    induction depth generalizing pl res with
    | zero => cases ended
    | succ depth ih =>
      have hans := (run_isSome_iff (oracleAt code target depth pl) (code pl)).mp
        (isSome_iff_exists.mpr ⟨res, ended⟩)
      refine .intro pl ?_
      rintro next ⟨other, ask, mem, rfl⟩
      -- Deeper evaluations ask nothing that this one does not ask.
      have deeper : ask ∈ (code pl).asked (oracleAt code target (max depth other) pl) :=
        asked_subset _ _ (code pl) (fun _ _ found => eval_stable (Nat.le_max_right depth other) found) mem
      have eq := (run_congr (oracleAt code target depth pl) (oracleAt code target (max depth other) pl)
        (code pl) fun ask mem => by
          obtain ⟨ans, found⟩ := isSome_iff_exists.mp (hans ask mem)
          exact (eval_stable (Nat.le_max_left depth other) found).trans found.symm).2
      rw [eq] at deeper
      obtain ⟨ans, found⟩ := isSome_iff_exists.mp (hans ask deeper)
      exact ih (target pl ask) ans found
  · intro accessible
    induction accessible with
    | intro pl _ ih =>
      choose ideal depthOf settled using fun ask =>
        (@eval_settles _ _ _ _ code target (target pl ask))
      obtain ⟨depth, agree⟩ := settles_together settled ((code pl).asked ideal)
      obtain ⟨sameRun, sameAsked⟩ := run_congr ideal (oracleAt code target depth pl) (code pl) agree
      have hans : ∀ ask ∈ (code pl).asked ideal, (ideal ask).isSome := by
        intro ask mem
        obtain ⟨found, res, ended⟩ := ih (target pl ask) ⟨depth, ask, sameAsked ▸ mem, rfl⟩
        have late := settled ask (max found (depthOf ask)) (Nat.le_max_right _ _)
        rw [← late, eval_stable (Nat.le_max_left _ _) ended]
        rfl
      obtain ⟨res, ended⟩ := isSome_iff_exists.mp ((run_isSome_iff ideal (code pl)).mpr hans)
      exact ⟨depth + 1, res, sameRun.trans ended⟩

theorem eval_error {fine : E → Prop} (all : ∀ pl, (code pl).All fun result => ∀ error, result = .error error → fine error)
    {error : E} (ended : eval code target depth pl = some (.error error)) : fine error := by
  induction depth generalizing pl error with
  | zero => cases ended
  | succ depth ih =>
    refine (all pl).run (fun question other failed => ?_) ended error rfl
    rintro _ ⟨⟩
    exact ih failed

theorem eval_eq_none {ask : Q} (first : (code pl).firstQuestion = some ask)
    (itself : target pl ask = pl) (depth : Nat) : eval code target depth pl = none := by
  induction depth with
  | zero => rfl
  | succ depth ih => exact run_eq_none _ first (by rw [itself, ih])

end Asking.Nested

section Chains

open Relation

variable {P : Type} {step : P → P → Prop}

theorem not_self_of_acc {place : P} (accessible : Acc step place) : ¬ step place place := by
  induction accessible with
  | intro place _ ih => exact fun loop => ih place loop loop

/-- If only finitely many places have a step, then a chain can only be endless by going round. -/
theorem acc_iff_no_cycle (finite : {place | ∃ next, step place next}.Finite) (place : P) :
    Acc (fun next place => step place next) place ↔
      ∀ cycle, ReflTransGen step place cycle → ¬ TransGen step cycle cycle := by
  constructor
  · intro accessible cycle reached
    have there : Acc (fun next place => step place next) cycle := by
      induction reached with
      | refl => exact accessible
      | tail _ next ih => exact ih.inv next
    intro loop
    exact not_self_of_acc there.transGen (transGen_swap.mp loop)
  · intro noCycle
    -- A place without a step is no question. The others that are reached are finitely many.
    have ends {place : P} (last : ¬ ∃ next, step place next) : Acc (fun next place => step place next) place :=
      .intro place fun next here => absurd ⟨next, here⟩ last
    let Inside := {other : P // (∃ next, step other next) ∧ ReflTransGen step place other}
    have : Finite Inside := Set.Finite.subset finite fun other hi => hi.1
    let below : Inside → Inside → Prop := fun first second => TransGen step second.1 first.1
    have : Std.Irrefl below := ⟨fun hi loop => noCycle hi.1 hi.2.2 loop⟩
    have wellFounded : WellFounded below := Finite.wellFounded_of_trans_of_irrefl below
    have all (hi : Inside) : Acc (fun next place => step place next) hi.1 := by
      induction hi using wellFounded.induction with
      | _ hi ih =>
        refine .intro hi.1 fun next here => ?_
        by_cases more : ∃ later, step next later
        · exact ih ⟨next, more, hi.2.2.tail here⟩ (.single here)
        · exact ends more
    by_cases more : ∃ next, step place next
    · exact all ⟨place, more, .refl⟩
    · exact ends more

end Chains

end Atomr.Library
