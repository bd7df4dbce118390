import Atomr.Library.History
import Atomr.Library.KeyList
import Mathlib.Algebra.Ring.Nat

/-! The bookkeeping of at-least-once delivery.

Ids are 64-bit and wrap. What the calls have answered so far is kept beside the state, and each
answer is read against it.
-/

namespace Atomr.Persistence

open Library List

variable {M : Type}

structure UnconfirmedDelivery (M : Type) where
  deliveryId : Nat
  destination : String
  message : M
  deriving DecidableEq, Repr

/-- Beside each delivery stand the attempts to deliver it again. -/
structure AtLeastOnceDelivery (M : Type) where
  nextId : Nat
  unconfirmed : List (Nat × (UnconfirmedDelivery M × Nat))
  maxUnconfirmed : Nat

namespace AtLeastOnceDelivery

def new (maxUnconfirmed : Nat) : AtLeastOnceDelivery M := ⟨0, [], maxUnconfirmed⟩

variable (alod : AtLeastOnceDelivery M)

def deliver (destination : String) (message : M) : AtLeastOnceDelivery M × Option Nat :=
  if alod.unconfirmed.length ≥ alod.maxUnconfirmed then (alod, none)
  else
    let id := (alod.nextId + 1) % 2 ^ 64
    ({ alod with nextId := id, unconfirmed := KeyList.insert id (⟨id, destination, message⟩, 0) alod.unconfirmed }, some id)

def confirmDelivery (id : Nat) : AtLeastOnceDelivery M × Bool :=
  ({ alod with unconfirmed := alod.unconfirmed.filter fun entry => entry.1 ≠ id }, (KeyList.get alod.unconfirmed id).isSome)

def redeliver : AtLeastOnceDelivery M × List (UnconfirmedDelivery M) :=
  ({ alod with unconfirmed := alod.unconfirmed.map fun entry => (entry.1, (entry.2.1, (entry.2.2 + 1) % 2 ^ 32)) },
    alod.unconfirmed.map fun entry => entry.2.1)

end AtLeastOnceDelivery

inductive AlodCall (M : Type) where
  | deliver (destination : String) (message : M)
  | confirmDelivery (id : Nat)
  | redeliver

inductive Exchange (M : Type) where
  | deliver (destination : String) (message : M) (answer : Option Nat)
  | confirmDelivery (id : Nat) (answer : Bool)
  | redeliver (answer : List (UnconfirmedDelivery M))

def AtLeastOnceDelivery.perform (state : AtLeastOnceDelivery M × List (Exchange M)) :
    AlodCall M → AtLeastOnceDelivery M × List (Exchange M)
  | .deliver destination message =>
    let (alod, answer) := state.1.deliver destination message
    (alod, state.2 ++ [.deliver destination message answer])
  | .confirmDelivery id =>
    let (alod, answer) := state.1.confirmDelivery id
    (alod, state.2 ++ [.confirmDelivery id answer])
  | .redeliver =>
    let (alod, answer) := state.1.redeliver
    (alod, state.2 ++ [.redeliver answer])

def AtLeastOnceDelivery.performAll (maxUnconfirmed : Nat) (calls : List (AlodCall M)) :
    AtLeastOnceDelivery M × List (Exchange M) :=
  calls.foldl perform (new maxUnconfirmed, [])

namespace Exchange

def accepted? : Exchange M → Option (UnconfirmedDelivery M)
  | .deliver destination message (some id) => some ⟨id, destination, message⟩
  | _ => none

def confirmed? : Exchange M → Option Nat
  | .confirmDelivery id true => some id
  | _ => none

end Exchange

def accepted (log : List (Exchange M)) : List (UnconfirmedDelivery M) := log.filterMap Exchange.accepted?

def confirmed (log : List (Exchange M)) : List Nat := log.filterMap Exchange.confirmed?

/-- What was accepted and is not yet confirmed, in the order of acceptance. -/
def outstanding (log : List (Exchange M)) : List (UnconfirmedDelivery M) :=
  (accepted log).filter fun delivery => delivery.deliveryId ∉ confirmed log

/-- What an answer has to say about the calls before it. -/
def Answered (maxUnconfirmed : Nat) (before : List (Exchange M)) : Exchange M → Prop
  | .deliver _ _ answer =>
    (answer = none ↔ (outstanding before).length = maxUnconfirmed) ∧
      ∀ id ∈ answer, ∀ earlier ∈ accepted before, earlier.deliveryId < id
  | .confirmDelivery id answer =>
    answer = true ↔ (∃ delivery ∈ accepted before, delivery.deliveryId = id) ∧ id ∉ confirmed before
  | .redeliver answer => answer = outstanding before

structure Bookkeeping (alod : AtLeastOnceDelivery M) (log : List (Exchange M)) : Prop where
  answers : Justified (Answered alod.maxUnconfirmed) log
  increasing : ((accepted log).map UnconfirmedDelivery.deliveryId).Pairwise (· < ·)
  bounded : alod.unconfirmed.length ≤ alod.maxUnconfirmed

/-- The ids are those from 1 on, and the map holds what is outstanding. -/
structure Booked (alod : AtLeastOnceDelivery M) (log : List (Exchange M)) : Prop where
  answers : Justified (Answered alod.maxUnconfirmed) log
  ids : (accepted log).map UnconfirmedDelivery.deliveryId = List.range' 1 (accepted log).length
  nextId : alod.nextId = (accepted log).length
  entries : alod.unconfirmed.map (fun entry => (entry.1, entry.2.1)) =
    (outstanding log).map fun delivery => (delivery.deliveryId, delivery)
  known : ∀ id ∈ confirmed log, id ≤ (accepted log).length
  bounded : alod.unconfirmed.length ≤ alod.maxUnconfirmed

section Steps
variable {alod : AtLeastOnceDelivery M} {log : List (Exchange M)}

theorem accepted_snoc (log : List (Exchange M)) (exchange : Exchange M) :
    accepted (log ++ [exchange]) = accepted log ++ exchange.accepted?.toList := by
  rw [accepted, filterMap_append, filterMap_cons]
  cases exchange.accepted? <;> rfl

theorem confirmed_snoc (log : List (Exchange M)) (exchange : Exchange M) :
    confirmed (log ++ [exchange]) = confirmed log ++ exchange.confirmed?.toList := by
  rw [confirmed, filterMap_append, filterMap_cons]
  cases exchange.confirmed? <;> rfl

namespace Booked

theorem new (maxUnc : Nat) : Booked (.new maxUnc : AtLeastOnceDelivery M) [] :=
  ⟨.nil, rfl, rfl, rfl, by simp [confirmed], Nat.zero_le _⟩

theorem length_outstanding (booked : Booked alod log) : (outstanding log).length = alod.unconfirmed.length := by
  simpa using (congrArg List.length booked.entries).symm

theorem keys (booked : Booked alod log) :
    alod.unconfirmed.map Prod.fst = (outstanding log).map UnconfirmedDelivery.deliveryId := by
  simpa [Function.comp_def] using congrArg (List.map Prod.fst) booked.entries

theorem mem_outstanding {delivery : UnconfirmedDelivery M} :
    delivery ∈ outstanding log ↔ delivery ∈ accepted log ∧ delivery.deliveryId ∉ confirmed log := by
  simp [outstanding]

variable (bk : Booked alod log)
include bk

theorem id_le {delivery : UnconfirmedDelivery M} (mem : delivery ∈ accepted log) :
    delivery.deliveryId ≤ (accepted log).length := by
  have listed := mem_map_of_mem (f := UnconfirmedDelivery.deliveryId) mem
  rw [bk.ids, mem_range'_1] at listed
  omega

theorem idle {exchange : Exchange M} {next : AtLeastOnceDelivery M} (noDelivery : exchange.accepted? = none)
    (noConfirmation : exchange.confirmed? = none) (hans : Answered alod.maxUnconfirmed log exchange)
    (lim : next.maxUnconfirmed = alod.maxUnconfirmed) (nextId : next.nextId = alod.nextId)
    (es : next.unconfirmed.map (fun e => (e.1, e.2.1)) =
      alod.unconfirmed.map fun e => (e.1, e.2.1)) : Booked next (log ++ [exchange]) := by
  have eq : accepted (log ++ [exchange]) = accepted log := by
    rw [accepted_snoc, noDelivery, Option.toList_none, append_nil]
  have same' : confirmed (log ++ [exchange]) = confirmed log := by
    rw [confirmed_snoc, noConfirmation, Option.toList_none, append_nil]
  have h : outstanding (log ++ [exchange]) = outstanding log := by
    unfold outstanding
    rw [eq, same']
  have count : next.unconfirmed.length = alod.unconfirmed.length := by simpa using congrArg List.length es
  refine ⟨lim ▸ bk.answers.snoc hans, ?_, ?_, ?_, ?_, ?_⟩
  · rw [eq]
    exact bk.ids
  · rw [eq, nextId, bk.nextId]
  · rw [h, es, bk.entries]
  · rw [eq, same']
    exact bk.known
  · rw [count, lim]
    exact bk.bounded

theorem redeliver : Booked alod.redeliver.1 (log ++ [.redeliver alod.redeliver.2]) := by
  refine bk.idle rfl rfl ?_ rfl rfl ?_
  · simpa [Answered, AtLeastOnceDelivery.redeliver, Function.comp_def] using congrArg (List.map Prod.snd) bk.entries
  · simp [AtLeastOnceDelivery.redeliver]

theorem deliver (dest : String) (m : M)
    (short : (accepted (log ++ [.deliver dest m (alod.deliver dest m).2])).length < 2 ^ 64) :
    Booked (alod.deliver dest m).1
      (log ++ [.deliver dest m (alod.deliver dest m).2]) := by
  have length := bk.length_outstanding
  have bdd := bk.bounded
  unfold AtLeastOnceDelivery.deliver at short ⊢
  split
  next full =>
    refine bk.idle rfl rfl ⟨?_, by simp⟩ rfl rfl rfl
    simp only [true_iff]
    omega
  next room =>
    rw [if_neg room, accepted_snoc] at short
    simp only [Exchange.accepted?, Option.toList_some, length_append, length_singleton] at short
    -- The id is the number of accepted deliveries, which is above every id before.
    have id : (alod.nextId + 1) % 2 ^ 64 = (accepted log).length + 1 := by
      rw [bk.nextId, Nat.mod_eq_of_lt short]
    dsimp only
    rw [id]
    have all : accepted (log ++ [.deliver dest m (some ((accepted log).length + 1))]) =
        accepted log ++ [⟨(accepted log).length + 1, dest, m⟩] := accepted_snoc _ _
    have eq : confirmed (log ++ [.deliver dest m (some ((accepted log).length + 1))]) = confirmed log :=
      (confirmed_snoc _ _).trans (append_nil _)
    have fresh : (accepted log).length + 1 ∉ confirmed log := fun found => by
      have known := bk.known _ found
      omega
    have h : outstanding (log ++ [.deliver dest m (some ((accepted log).length + 1))]) =
        outstanding log ++ [⟨(accepted log).length + 1, dest, m⟩] := by
      unfold outstanding
      rw [all, eq]
      simp [fresh]
    have above : ∀ e ∈ alod.unconfirmed, e.1 < (accepted log).length + 1 := by
      intro e mem
      have listed := mem_map_of_mem (f := Prod.fst) mem
      rw [bk.keys] at listed
      obtain ⟨delivery, known, eq⟩ := mem_map.mp listed
      rw [← eq]
      exact Nat.lt_succ_of_le (bk.id_le (mem_of_mem_filter known))
    rw [(KeyList.insert_above above _).1]
    refine ⟨bk.answers.snoc ⟨?_, ?_⟩, ?_, ?_, ?_, ?_, ?_⟩
    · simp only [reduceCtorEq, false_iff]
      omega
    · rintro _ ⟨⟩ earlier known
      exact Nat.lt_succ_of_le (bk.id_le known)
    · rw [all, map_append, bk.ids, length_append, length_singleton, List.range'_1_concat,
        Nat.add_comm 1]
      rfl
    · rw [all, length_append, length_singleton]
    · rw [h, map_append, map_append, bk.entries]
      rfl
    · intro id found
      rw [eq] at found
      rw [all, length_append]
      exact Nat.le_add_right_of_le (bk.known id found)
    · simp only [length_append, length_singleton]
      omega

theorem confirmDelivery_answer (id : Nat) :
    (alod.confirmDelivery id).2 = true ↔
      (∃ delivery ∈ accepted log, delivery.deliveryId = id) ∧ id ∉ confirmed log := by
  have found : (alod.confirmDelivery id).2 = true ↔ id ∈ alod.unconfirmed.map Prod.fst := by
    simp [AtLeastOnceDelivery.confirmDelivery, KeyList.get]
  simp only [found, bk.keys, mem_map, mem_outstanding]
  constructor
  · rintro ⟨delivery, ⟨known, waits⟩, rfl⟩
    exact ⟨⟨delivery, known, rfl⟩, waits⟩
  · rintro ⟨⟨delivery, known, rfl⟩, waits⟩
    exact ⟨delivery, ⟨known, waits⟩, rfl⟩

theorem confirmDelivery (id : Nat) :
    Booked (alod.confirmDelivery id).1 (log ++ [.confirmDelivery id (alod.confirmDelivery id).2]) := by
  have ans := bk.confirmDelivery_answer id
  generalize (alod.confirmDelivery id).2 = found at ans
  have all : accepted (log ++ [.confirmDelivery id found]) = accepted log := (accepted_snoc _ _).trans (append_nil _)
  have h : outstanding (log ++ [.confirmDelivery id found]) =
      (outstanding log).filter fun delivery => delivery.deliveryId ≠ id := by
    cases found with
    | true =>
      unfold outstanding
      rw [all, confirmed_snoc]
      simp [Exchange.confirmed?, and_comm]
    | false =>
      have unknown : ∀ delivery ∈ outstanding log, delivery.deliveryId ≠ id := by
        rintro delivery mem rfl
        obtain ⟨known, waits⟩ := mem_outstanding.mp mem
        exact Bool.false_ne_true (ans.mpr ⟨⟨delivery, known, rfl⟩, waits⟩)
      rw [filter_eq_self.mpr fun delivery mem => decide_eq_true (unknown delivery mem)]
      have eq : confirmed (log ++ [.confirmDelivery id false]) = confirmed log :=
        (confirmed_snoc _ _).trans (append_nil _)
      unfold outstanding
      rw [all, eq]
  refine ⟨bk.answers.snoc ans, ?_, ?_, ?_, ?_, ?_⟩
  · rw [all]
    exact bk.ids
  · rw [all]
    exact bk.nextId
  · have kept := congrArg (List.filter fun e => e.1 ≠ id) bk.entries
    rw [filter_map, filter_map] at kept
    rw [h]
    exact kept
  · intro other mem
    rw [all]
    rw [confirmed_snoc, mem_append] at mem
    rcases mem with old | new
    · exact bk.known other old
    · cases found with
      | false => cases new
      | true =>
        cases mem_singleton.mp new
        obtain ⟨⟨delivery, known, rfl⟩, -⟩ := ans.mp rfl
        exact bk.id_le known
  · exact (length_filter_le _ _).trans bk.bounded

theorem perform {c : AlodCall M}
    (short : (accepted (AtLeastOnceDelivery.perform (alod, log) c).2).length < 2 ^ 64) :
    Booked (AtLeastOnceDelivery.perform (alod, log) c).1 (AtLeastOnceDelivery.perform (alod, log) c).2 := by
  cases c with
  | deliver dest m => exact bk.deliver dest m short
  | confirmDelivery id => exact bk.confirmDelivery id
  | redeliver => exact bk.redeliver

end Booked

end Steps

open AtLeastOnceDelivery

theorem length_accepted_le (st : AtLeastOnceDelivery M × List (Exchange M)) (c : AlodCall M) :
    (accepted st.2).length ≤ (accepted (perform st c).2).length := by
  cases c <;> simp [perform, accepted_snoc]

theorem at_least_once_bookkeeping (maxUnconfirmed : Nat) (calls : List (AlodCall M))
    (short : (accepted (performAll maxUnconfirmed calls).2).length < 2 ^ 64) :
    Bookkeeping (performAll maxUnconfirmed calls).1 (performAll maxUnconfirmed calls).2 := by
  suffices booked : Booked (performAll maxUnconfirmed calls).1 (performAll maxUnconfirmed calls).2 by
    refine ⟨booked.answers, ?_, booked.bounded⟩
    rw [booked.ids]
    exact pairwise_lt_range'
  induction calls using List.reverseRecOn with
  | nil => exact .new maxUnconfirmed
  | append_singleton calls call ih =>
    rw [performAll, foldl_append] at short ⊢
    exact (ih (Nat.lt_of_le_of_lt (length_accepted_le _ call) short)).perform short

def refusedOnce : List (AlodCall String) :=
  [.deliver "a" "x", .deliver "b" "y", .redeliver, .confirmDelivery 1, .confirmDelivery 1, .deliver "b" "y"]

theorem at_least_once_refused_once :
    (accepted (performAll 1 refusedOnce).2).map UnconfirmedDelivery.deliveryId = [1, 2] ∧
      Bookkeeping (performAll 1 refusedOnce).1 (performAll 1 refusedOnce).2 :=
  ⟨by decide, at_least_once_bookkeeping 1 refusedOnce (by decide)⟩

theorem exists_rounds (count : Nat) :
    ∃ (cs : List (AlodCall String)) (log : List (Exchange String)),
      performAll 1 cs = (⟨count % 2 ^ 64, [], 1⟩, log) ∧
        (accepted log).map UnconfirmedDelivery.deliveryId = (List.range' 1 count).map (· % 2 ^ 64) := by
  induction count with
  | zero => exact ⟨[], [], rfl, rfl⟩
  | succ count ih =>
    obtain ⟨cs, log, reached, ids⟩ := ih
    let id := (count % 2 ^ 64 + 1) % 2 ^ 64
    refine ⟨cs ++ [.deliver "a" "x", .confirmDelivery id],
      log ++ [.deliver "a" "x" (some id)] ++ [.confirmDelivery id true], ?_, ?_⟩
    · rw [performAll] at reached ⊢
      rw [foldl_append, reached]
      simp [perform, deliver, confirmDelivery, KeyList.insert, KeyList.get, id]
    · rw [accepted_snoc, accepted_snoc, List.range'_1_concat, map_append, map_append, ids]
      simp [Exchange.accepted?, id, Nat.add_comm]

theorem not_increasing_of_wrap {count : Nat} (wraps : (count + 1) % 2 ^ 64 = 0) :
    ¬ ((List.range' 1 (count + 1)).map (· % 2 ^ 64)).Pairwise (· < ·) := by
  rw [List.range'_succ, map_cons, pairwise_cons]
  rintro ⟨first, -⟩
  have last := first _ (mem_map_of_mem (mem_range'_1.mpr ⟨by omega, by omega⟩ : count + 1 ∈ List.range' 2 count))
  rw [wraps] at last
  exact Nat.not_lt_zero _ last

/-- The delivery after the last id of its width gets an id below those before it. -/
theorem wrapped_id_not_above :
    ∃ calls : List (AlodCall String),
      ¬ Bookkeeping (performAll 1 calls).1 (performAll 1 calls).2 := by
  obtain ⟨calls, log, reached, ids⟩ := exists_rounds (2 ^ 64 - 1 + 1)
  refine ⟨calls, fun books => ?_⟩
  have incr := books.increasing
  rw [reached, ids] at incr
  exact not_increasing_of_wrap (by decide) incr

end Atomr.Persistence
