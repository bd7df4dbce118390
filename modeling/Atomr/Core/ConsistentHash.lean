import Atomr.Library.Ring

/-! The consistent-hash router.

The hashes are arbitrary functions, of a routee and a virtual node, and of a key.
-/

namespace Atomr.Core

open Library List

/-- The ring gives each point the position of its routee. -/
structure ConsistentHashRouter (Routee : Type) where
  ring : List (Nat × Nat)
  routees : List Routee
  vnodes : Nat

namespace ConsistentHashRouter

variable {Routee Key M : Type}

def addRoutee (hash : Routee → Nat → Nat) (virtualNodesFactor : Nat) (ring : List (Nat × Nat)) (r : Routee × Nat) :
    List (Nat × Nat) :=
  (List.range virtualNodesFactor).foldl (fun ring v => KeyList.insert (hash r.1 v) r.2 ring) ring

def new (hash : Routee → Nat → Nat) (routees : List Routee) (virtualNodesFactor : Nat) : ConsistentHashRouter Routee :=
  ⟨routees.zipIdx.foldl (addRoutee hash virtualNodesFactor) [], routees, virtualNodesFactor⟩

/-- The messages told, each with the position of the routee. -/
def routeByKey (hashKey : Key → Nat) (router : ConsistentHashRouter Routee) (key : Key) (msg : M) : List (Nat × M) :=
  if router.routees.isEmpty then []
  else match Ring.successor router.ring (hashKey key) with
    | some (_, i) => [(i, msg)]
    | none => []

def SendsTo (hash : Routee → Nat → Nat) (hashKey : Key → Nat) (virtualNodesFactor : Nat) (routees : List Routee)
    (key : Key) (msg : M) (i : Nat) : Prop :=
  i < routees.length ∧ (new hash routees virtualNodesFactor).routeByKey hashKey key msg = [(i, msg)]

section
variable (hash : Routee → Nat → Nat) (factor : Nat)

def moved (position i : Nat) : Nat := if i < position then i else i + 1

def Enlarged (position : Nat) : List (Nat × Nat) → List (Nat × Nat) → Prop :=
  Ring.Extends (fun i j => j = moved position i) (· = position)

variable {idx : Nat} {ring wider : List (Nat × Nat)} (wide : Enlarged idx ring wider)
include wide

theorem Enlarged.addRoutee_both (r : Routee) (i : Nat) :
    Enlarged idx (addRoutee hash factor ring (r, i)) (addRoutee hash factor wider (r, moved idx i)) := by
  unfold addRoutee
  induction List.range factor generalizing ring wider with
  | nil => exact wide
  | cons v rest ih => exact ih (wide.insert_both (hash r v) rfl)

theorem Enlarged.addRoutee_new (r : Routee) : Enlarged idx ring (addRoutee hash factor wider (r, idx)) :=
  List.foldlRecOn _ _ wide fun _ wide v _ => wide.insert_new (hash r v) rfl

theorem Enlarged.fill (routees : List Routee) {start start' : Nat}
    (shift : ∀ i < routees.length, moved idx (start + i) = start' + i) :
    Enlarged idx ((routees.zipIdx start).foldl (addRoutee hash factor) ring)
      ((routees.zipIdx start').foldl (addRoutee hash factor) wider) := by
  induction routees generalizing ring wider start start' with
  | nil => exact wide
  | cons r rest ih =>
    have here : moved idx start = start' := shift 0 (Nat.succ_pos _)
    rw [← here]
    refine ih (wide.addRoutee_both hash factor r start) fun i hi => ?_
    have next := shift (i + 1) (Nat.succ_lt_succ hi)
    rw [Nat.add_right_comm, Nat.add_assoc]
    omega
omit wide

theorem enlarged_new (pre post : List Routee) (r : Routee) :
    Enlarged pre.length (new hash (pre ++ post) factor).ring (new hash (pre ++ r :: post) factor).ring := by
  have empty : Enlarged pre.length [] [] := ⟨.nil, .nil, fun _ there => there, nofun⟩
  have first : Enlarged pre.length (pre.zipIdx.foldl (addRoutee hash factor) []) _ :=
    empty.fill hash factor pre fun i hi => if_pos (by omega)
  simp only [new, zipIdx_append, foldl_append, Nat.zero_add]
  refine (first.addRoutee_new hash factor r).fill hash factor post fun i _ => ?_
  rw [moved, if_neg (by omega), Nat.add_right_comm]

theorem owner_lt (routees : List Routee) : ∀ e ∈ (new hash routees factor).ring, e.2 < routees.length := by
  let Owned (ring : List (Nat × Nat)) : Prop := ∀ e ∈ ring, e.2 < routees.length
  refine List.foldlRecOn (motive := Owned) routees.zipIdx _ (fun e none => by cases none) ?_
  intro ring pre r there
  refine List.foldlRecOn (List.range factor) _ pre ?_
  intro ring pre v _ e mem
  rcases KeyList.mem_insert mem with rfl | old
  · simpa using snd_lt_add_of_mem_zipIdx there
  · exact pre e old

theorem foldl_ne_nil {α β : Type} {f : List β → α → List β} (always : ∀ res x, f res x ≠ []) {xs : List α}
    (ne : xs ≠ []) (start : List β) : xs.foldl f start ≠ [] := by
  rw [← dropLast_concat_getLast ne, foldl_append]
  exact always _ _

theorem ring_ne_nil {factor : Nat} (pos : 1 ≤ factor) {routees : List Routee} (ne : routees ≠ []) :
    (new hash routees factor).ring ≠ [] := by
  refine foldl_ne_nil (fun ring r => ?_) (by simpa using ne) []
  refine foldl_ne_nil (fun ring v => ?_) (by simp; omega) ring
  exact ne_nil_of_mem (KeyList.mem_of_get ((KeyList.get_insert (hash r.1 v) (hash r.1 v) r.2 ring).trans (if_pos rfl)))

end

variable {hash : Routee → Nat → Nat} {hashKey : Key → Nat} {factor : Nat}

theorem sendsTo_iff {routees : List Routee} {k : Key} {m : M} {i : Nat} :
    SendsTo hash hashKey factor routees k m i ↔
      routees ≠ [] ∧ ∃ point, Ring.successor (new hash routees factor).ring (hashKey k) = some (point, i) := by
  unfold SendsTo routeByKey
  constructor
  · grind
  · rintro ⟨ne, point, found⟩
    refine ⟨owner_lt hash factor routees _ (Ring.mem_of_successor found), ?_⟩
    have : (new hash routees factor).routees.isEmpty = false := by simpa [new] using ne
    simp [this, found]

/-- Exactly one routee is told, and one more routee leaves a key where it was or takes it. -/
theorem consistent_hashing (positive : 1 ≤ factor) (key : Key) (msg : M) :
    (∀ routees : List Routee, routees ≠ [] → ∃ i, SendsTo hash hashKey factor routees key msg i) ∧
      ∀ (before after : List Routee) (r : Routee) (j : Nat),
        SendsTo hash hashKey factor (before ++ r :: after) key msg j →
          j = before.length ∨ ∃ i, SendsTo hash hashKey factor (before ++ after) key msg i ∧
            j = if i < before.length then i else i + 1 := by
  constructor
  · intro routees nonempty
    obtain ⟨entry, found⟩ := Ring.successor_isSome (hashKey key) (ring_ne_nil hash positive nonempty)
    exact ⟨entry.2, sendsTo_iff.mpr ⟨nonempty, entry.1, found⟩⟩
  · intro before after r j sent
    obtain ⟨_, point, found⟩ := sendsTo_iff.mp sent
    rcases (enlarged_new hash factor before after r).successor found with new | ⟨i, before_found, eq⟩
    · exact .inl new
    · refine .inr ⟨i, sendsTo_iff.mpr ⟨?_, point, before_found⟩, eq⟩
      rintro empty
      rw [empty] at before_found
      cases before_found

theorem consistent_hashing_two_nodes :
    let hash := fun r v : Nat => (7 * r + 3 * v) % 10
    let hashKey := fun key : Nat => key % 10
    (∃ i, SendsTo hash hashKey 2 [1, 3] 18 "job" i) ∧ SendsTo hash hashKey 2 [1, 2, 3] 18 "job" 0 ∧
      (0 = 1 ∨ ∃ i, SendsTo hash hashKey 2 [1, 3] 18 "job" i ∧ 0 = if i < 1 then i else i + 1) := by
  intro hash hashKey
  have sent : SendsTo hash hashKey 2 [1, 2, 3] 18 "job" 0 := ⟨by decide, by decide⟩
  exact ⟨(consistent_hashing (by decide) 18 "job").1 [1, 3] (by decide), sent,
    (consistent_hashing (by decide) 18 "job").2 [1] [3] 2 0 sent⟩

end ConsistentHashRouter

end Atomr.Core
