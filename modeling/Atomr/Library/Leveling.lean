import Mathlib.Algebra.Order.BigOperators.Group.Finset
import Mathlib.Data.Prod.Lex
import Mathlib.Order.Lattice.Nat

/-! Items on places, moved one after the other to the place with the fewest items.

The items of a round are taken from the fullest places. Such a round makes progress whenever
the loads differ by two or more: it empties a place, or lowers the largest load, or else lowers
the weight of the set of fullest places, where later places weigh more.
-/

namespace Atomr.Library.Leveling

open List Function

section Loads
variable {P : Type} {places : Finset P} {top : ℕ} {load next : P → ℕ} {source target lowest : P}

structure Shifted (load next : P → ℕ) (source target : P) : Prop where
  apart : source ≠ target
  left : next source + 1 = load source
  entered : next target = load target + 1
  kept : ∀ place, place ≠ source → place ≠ target → next place = load place

/-- No place has more than the top load, and one has less. -/
structure InRange (places : Finset P) (top : ℕ) (load : P → ℕ) : Prop where
  bounded : ∀ place ∈ places, load place ≤ top
  below : ∃ place ∈ places, load place < top

def full (places : Finset P) (top : ℕ) (load : P → ℕ) : Finset P := places.filter fun place => load place = top

variable {place : P}

theorem mem_full : place ∈ full places top load ↔ place ∈ places ∧ load place = top := Finset.mem_filter

theorem full_subset : full places top load ⊆ places := Finset.filter_subset _ _

def Tight (places : Finset P) (top : ℕ) (load : P → ℕ) : Prop := ∀ place ∈ places, top ≤ load place + 1
deriving Decidable

variable [LinearOrder P]

/-- The least loaded place, the first one among several. -/
def Emptiest (places : Finset P) (load : P → ℕ) (place : P) : Prop :=
  place ∈ places ∧ ∀ other ∈ places, load place < load other ∨ load place = load other ∧ place ≤ other

theorem exists_emptiest (ne : places.Nonempty) (load : P → ℕ) : ∃ place, Emptiest places load place := by
  obtain ⟨place, mem, least⟩ := places.exists_min_image (fun place => toLex (load place, place)) ne
  refine ⟨place, mem, fun other hp => ?_⟩
  exact Prod.Lex.toLex_le_toLex.mp (least other hp)

/-- The full places, with the one that is filled next when all others lack one item. -/
def completed (places : Finset P) (top : ℕ) (load : P → ℕ) (lowest : P) : Finset P :=
  if Tight places top load then insert lowest (full places top load) else full places top load

variable (emptiest : Emptiest places load target)
include emptiest

theorem Emptiest.load_le {other : P} (mem : other ∈ places) : load target ≤ load other := by
  rcases emptiest.2 other mem with less | ⟨eq, _⟩
  · exact less.le
  · exact eq.le

theorem Emptiest.lt_top (inRange : InRange places top load) : load target < top := by
  obtain ⟨other, mem, below⟩ := inRange.below
  exact lt_of_le_of_lt (emptiest.load_le mem) below

theorem Emptiest.not_mem_full (inRange : InRange places top load) :
    target ∉ full places top load := fun mem => (emptiest.lt_top inRange).ne (mem_full.mp mem).2
omit emptiest

structure Refills (places : Finset P) (top : ℕ) (load next : P → ℕ) (source target : P) : Prop extends
    InRange places top load, Shifted load next source target where
  member : source ∈ places
  emptiest : Emptiest places load target

variable (rf : Refills places top load next source target)
include rf

theorem Refills.inRange : InRange places top next := by
  have room := rf.emptiest.lt_top rf.toInRange
  have left := rf.left
  have entered := rf.entered
  constructor
  · intro place hp
    have bound := rf.bounded place hp
    by_cases isSource : place = source
    · subst isSource
      omega
    · by_cases isTarget : place = target
      · subst isTarget
        omega
      · rw [rf.kept place isSource isTarget]
        exact bound
  · have bound := rf.bounded source rf.member
    exact ⟨source, rf.member, by omega⟩

/-- While a place lacks two items, nothing becomes full; after that the emptiest place does. -/
theorem Refills.full_eq : full places top next = (completed places top load target).erase source := by
  have room := rf.emptiest.lt_top rf.toInRange
  have left := rf.left
  have entered := rf.entered
  have bound := rf.bounded source rf.member
  have tight : Tight places top load ↔ top ≤ load target + 1 :=
    ⟨fun tight => tight target rf.emptiest.1,
      fun lacks place hp => lacks.trans (Nat.succ_le_succ (rf.emptiest.load_le hp))⟩
  ext place
  rw [Finset.mem_erase, mem_full]
  by_cases isSource : place = source
  · subst isSource
    simp only [ne_eq, not_true_eq_false, false_and, iff_false]
    omega
  · by_cases isTarget : place = target
    · subst isTarget
      simp only [completed, tight, rf.emptiest.1]
      split <;> simp [mem_full, isSource] <;> omega
    · rw [rf.kept place isSource isTarget]
      unfold completed
      split <;> simp [mem_full, isSource, isTarget]

theorem Refills.lowest_le (tight : Tight places top next) (last : Emptiest places next lowest) :
    source ∈ full places top load ∧ lowest ≤ source := by
  have bound := rf.bounded source rf.member
  have left := rf.left
  have lacks := tight source rf.member
  have lacks' := tight lowest last.1
  refine ⟨mem_full.mpr ⟨rf.member, by omega⟩, ?_⟩
  rcases last.2 source rf.member with less | ⟨_, pre⟩
  · omega
  · exact pre
omit rf

theorem mem_completed : place ∈ full places top load → place ∈ completed places top load lowest := by
  intro isFull
  unfold completed
  split
  · exact Finset.mem_insert_of_mem isFull
  · exact isFull

theorem completed_subset (mem : lowest ∈ places) : completed places top load lowest ⊆ places := by
  unfold completed
  split
  · exact Finset.insert_subset mem full_subset
  · exact full_subset

variable {weight : P → ℕ}

structure Weighs (places : Finset P) (weight : P → ℕ) : Prop where
  positive : ∀ place, 0 < weight place
  increasing : ∀ place ∈ places, ∀ other ∈ places, place < other → weight place < weight other

def total (weight : P → ℕ) (set : Finset P) : ℕ := ∑ place ∈ set, weight place

variable {set first : Finset P}

theorem total_erase_lt (weighs : Weighs places weight) (mem : place ∈ set) :
    total weight (set.erase place) < total weight set := by
  have sum := Finset.add_sum_erase set weight mem
  have pos := weighs.positive place
  unfold total
  omega

theorem total_exchange (weighs : Weighs places weight) {earlier : P} (hi : set ⊆ places) (mem : place ∈ set)
    (hp : earlier ∈ places) (pre : earlier ≤ place) :
    total weight (insert earlier (set.erase place)) < total weight set ∨ insert earlier (set.erase place) = set := by
  rcases pre.lt_or_eq with less | rfl
  · have lighter := weighs.increasing earlier hp place (hi mem) less
    have sum := Finset.add_sum_erase set weight mem
    unfold total
    by_cases already : earlier ∈ set.erase place
    · rw [Finset.insert_eq_of_mem already]
      omega
    · rw [Finset.sum_insert already]
      omega
  · exact .inr (Finset.insert_erase mem)

/-- Taking an item from a full place makes the completed set lighter, or leaves it as it is with
every place lacking at most one item. -/
theorem Refills.total_lt (rf : Refills places top load next source target) (weighs : Weighs places weight)
    (last : Emptiest places next lowest) (isFull : source ∈ full places top load) :
    total weight (completed places top next lowest) < total weight (completed places top load target) ∨
      Tight places top next ∧ completed places top next lowest = completed places top load target := by
  have h : source ∈ completed places top load target := mem_completed isFull
  by_cases tight : Tight places top next
  · rw [completed, if_pos tight, rf.full_eq]
    refine (total_exchange weighs (completed_subset rf.emptiest.1) h last.1 ?_).imp_right fun eq => ⟨tight, eq⟩
    exact (rf.lowest_le tight last).2
  · rw [completed, if_neg tight, rf.full_eq]
    exact .inl (total_erase_lt weighs h)

theorem Refills.completed_eq (rf : Refills places top load next source target) (last : Emptiest places next lowest)
    (notFull : source ∉ full places top load) :
    completed places top next lowest = completed places top load target := by
  have slack : ¬ Tight places top next := fun tight => notFull (rf.lowest_le tight last).1
  have ha : source ∉ completed places top load target := by
    unfold completed
    split
    · rw [Finset.mem_insert]
      exact fun h => h.elim rf.apart notFull
    · exact notFull
  rw [completed, if_neg slack, rf.full_eq, Finset.erase_eq_of_notMem ha]

/-- The completed set is lighter than a given one, or is that one with every place lacking at most
one item. -/
def Lowered (places : Finset P) (top : ℕ) (weight : P → ℕ) (first : Finset P) (load : P → ℕ) : Prop :=
  ∀ lowest, Emptiest places load lowest →
    total weight (completed places top load lowest) < total weight first ∨
      Tight places top load ∧ completed places top load lowest = first

theorem Lowered.shift (lowered : Lowered places top weight first load) (weighs : Weighs places weight)
    (rf : Refills places top load next source target) (fromFirst : source ∈ first) :
    Lowered places top weight first next := by
  intro lowest last
  by_cases isFull : source ∈ full places top load
  · have step := rf.total_lt weighs last isFull
    rcases lowered target rf.emptiest with lighter | ⟨_, eq⟩
    · rcases step with less | ⟨_, kept⟩
      · exact .inl (less.trans lighter)
      · exact .inl (kept ▸ lighter)
    · rw [eq] at step
      exact step
  · rw [rf.completed_eq last isFull]
    rcases lowered target rf.emptiest with lighter | ⟨tight, eq⟩
    · exact .inl lighter
    · -- All of the first set but the emptiest place is full, so the item came from there.
      rw [← eq, completed, if_pos tight, Finset.mem_insert] at fromFirst
      exact (fromFirst.elim rf.apart isFull).elim

theorem Lowered.total_full_lt (lowered : Lowered places top weight first load) (weighs : Weighs places weight)
    (inRange : InRange places top load) : total weight (full places top load) < total weight first := by
  obtain ⟨_, mem, _⟩ := inRange.below
  obtain ⟨lowest, emptiest⟩ := exists_emptiest ⟨_, mem⟩ load
  have ha := emptiest.not_mem_full inRange
  have added : total weight (insert lowest (full places top load)) =
      weight lowest + total weight (full places top load) := Finset.sum_insert ha
  have pos := weighs.positive lowest
  rcases lowered lowest emptiest with lighter | ⟨tight, eq⟩
  · unfold completed at lighter
    split at lighter
    · omega
    · exact lighter
  · rw [completed, if_pos tight] at eq
    rw [← eq]
    omega

end Loads

section Placements
variable {I P : Type} [LinearOrder P] {items : Finset I} {placed fin : I → P}

def count (items : Finset I) (placed : I → P) (place : P) : ℕ := (items.filter fun item => placed item = place).card

def places (items : Finset I) (placed : I → P) : Finset P := items.image placed

def peak (items : Finset I) (placed : I → P) : ℕ := (places items placed).sup (count items placed)

def heaviest (items : Finset I) (placed : I → P) : Finset P :=
  full (places items placed) (peak items placed) (count items placed)

def position (places : Finset P) (place : P) : ℕ := (places.filter fun other => other < place).card + 1

theorem weighs_position (places : Finset P) : Weighs places (position places) where
  positive _ := Nat.succ_pos _
  increasing place mem other _ less := by
    refine Nat.succ_lt_succ (Finset.card_lt_card (Finset.ssubset_iff_of_subset ?_ |>.mpr ⟨place, ?_, ?_⟩))
    · intro earlier isEarlier
      obtain ⟨hp, pre⟩ := Finset.mem_filter.mp isEarlier
      exact Finset.mem_filter.mpr ⟨hp, pre.trans less⟩
    · exact Finset.mem_filter.mpr ⟨mem, less⟩
    · exact fun h => lt_irrefl _ (Finset.mem_filter.mp h).2

/-- The number of places in use, the largest load, and the weight of the places that have it. -/
def unevenness (items : Finset I) (placed : I → P) : ℕ ×ₗ ℕ ×ₗ ℕ :=
  toLex ((places items placed).card, toLex (peak items placed,
    total (position (places items placed)) (heaviest items placed)))

theorem unevenness_lt_of_lowered (all : places items placed = places items fin)
    (inRange : InRange (places items fin) (peak items placed) (count items fin))
    (lowered : Lowered (places items fin) (peak items placed) (position (places items fin))
      (heaviest items placed) (count items fin)) : unevenness items fin < unevenness items placed := by
  have lighter := lowered.total_full_lt (weighs_position _) inRange
  have bdd : peak items fin ≤ peak items placed := Finset.sup_le inRange.bounded
  unfold unevenness
  rw [all]
  refine Prod.Lex.toLex_lt_toLex.mpr (.inr ⟨rfl, Prod.Lex.toLex_lt_toLex.mpr ?_⟩)
  rcases bdd.lt_or_eq with less | eq
  · exact .inl less
  · refine .inr ⟨eq, ?_⟩
    rw [heaviest, eq]
    exact lighter

theorem sum_count (items : Finset I) (placed : I → P) :
    ∑ place ∈ places items placed, count items placed place = items.card :=
  (Finset.card_eq_sum_card_image placed items).symm

theorem card_le_peak (items : Finset I) (placed : I → P) :
    items.card ≤ (places items placed).card * peak items placed := by
  rw [← sum_count items placed]
  exact Finset.sum_le_card_nsmul _ _ _ fun place mem => Finset.le_sup mem

/-- If the places could all have the same number of items and do not, then one has two items less than the fullest. -/
theorem exists_lacking_two (divides : (places items placed).card ∣ items.card)
    (uneven : ∃ place ∈ places items placed, count items placed place < peak items placed) :
    ∃ place ∈ places items placed, count items placed place + 2 ≤ peak items placed := by
  by_contra tight
  push Not at tight
  obtain ⟨lower, mem, below⟩ := uneven
  obtain ⟨share, total⟩ := divides
  obtain ⟨fullest, fullestMem, most⟩ := Finset.exists_mem_eq_sup _ ⟨lower, mem⟩ (count items placed)
  have less : ∑ place ∈ places items placed, count items placed place <
      ∑ _ ∈ places items placed, peak items placed :=
    Finset.sum_lt_sum (fun place mem => Finset.le_sup mem) ⟨lower, mem, below⟩
  have more : ∑ _ ∈ places items placed, (peak items placed - 1) <
      ∑ place ∈ places items placed, count items placed place := by
    refine Finset.sum_lt_sum (fun place mem => ?_) ⟨fullest, fullestMem, ?_⟩
    · have := tight place mem
      omega
    · rw [← most]
      exact Nat.sub_lt (Nat.zero_lt_of_lt below) Nat.one_pos
  rw [sum_count, total, Finset.sum_const_nat fun _ _ => rfl] at less more
  have := Nat.lt_of_mul_lt_mul_left less
  have := Nat.lt_of_mul_lt_mul_left more
  omega

end Placements

section Moves
variable {I P : Type} [DecidableEq I] {items : Finset I} {placed final : I → P} {item : I} {target : P}
  {first : Finset P} {rest : List I}

theorem waiting_of_fresh (fresh : item ∉ rest)
    (waiting : ∀ other ∈ item :: rest, other ∈ items ∧ placed other ∈ first) (tgt : P) :
    ∀ other ∈ rest, other ∈ items ∧ Function.update placed item tgt other ∈ first := by
  intro other mem
  have ne : other ≠ item := fun eq => fresh (eq ▸ mem)
  rw [update_of_ne ne]
  exact waiting other (mem_cons_of_mem _ mem)

variable [LinearOrder P]

/-- The items are moved in turn, each to the place that is emptiest then. -/
inductive Relocated (items : Finset I) : (I → P) → List I → (I → P) → Prop where
  | nil (placed : I → P) : Relocated items placed [] placed
  | cons {placed final : I → P} {item : I} {rest : List I} {target : P} :
      Emptiest (places items placed) (count items placed) target →
      Relocated items (Function.update placed item target) rest final →
      Relocated items placed (item :: rest) final

theorem shifted_move (mem : item ∈ items) (apart : placed item ≠ target) :
    Shifted (count items placed) (count items (Function.update placed item target)) (placed item) target := by
  have others {other : I} (ne : other ≠ item) : Function.update placed item target other = placed other :=
    update_of_ne ne _ _
  have self : Function.update placed item target item = target := update_self _ _ _
  have changed (other : I) (place : P) : Function.update placed item target other = place ↔
      if other = item then target = place else placed other = place := by
    split
    next eq => rw [eq, self]
    next ne => rw [others ne]
  refine ⟨apart, ?_, ?_, ?_⟩
  · have smaller : items.filter (fun other => Function.update placed item target other = placed item) =
        (items.filter fun other => placed other = placed item).erase item := by
      ext other
      by_cases eq : other = item
      · simp [eq, apart.symm]
      · simp [eq]
    rw [count, smaller]
    exact Finset.card_erase_add_one (Finset.mem_filter.mpr ⟨mem, rfl⟩)
  · have larger : items.filter (fun other => Function.update placed item target other = target) =
        insert item (items.filter fun other => placed other = target) := by
      ext other
      by_cases eq : other = item
      · simp [eq, mem]
      · simp [eq]
    rw [count, larger]
    exact Finset.card_insert_of_notMem fun h => apart (Finset.mem_filter.mp h).2
  · intro place notSource notTarget
    refine congrArg Finset.card (Finset.filter_congr fun other _ => ?_)
    rw [changed]
    split
    next eq =>
      rw [eq]
      exact iff_of_false (Ne.symm notTarget) (Ne.symm notSource)
    · exact Iff.rfl

theorem places_move_subset (hp : target ∈ places items placed) :
    places items (Function.update placed item target) ⊆ places items placed := by
  intro place mem
  obtain ⟨other, isItem, rfl⟩ := Finset.mem_image.mp mem
  by_cases eq : other = item
  · rw [eq, update_self]
    exact hp
  · rw [update_of_ne eq]
    exact Finset.mem_image_of_mem placed isItem

variable {list : List I}

theorem Relocated.places_subset (reloc : Relocated items placed list final) :
    places items final ⊆ places items placed := by
  induction reloc with
  | nil placed => exact Finset.Subset.refl _
  | cons emptiest rest ih => exact ih.trans (places_move_subset emptiest.1)

theorem Relocated.unmoved (relocated : Relocated items placed list final) (unlisted : item ∉ list) :
    final item = placed item := by
  induction relocated with
  | nil placed => rfl
  | cons emptiest rest ih =>
    obtain ⟨other, later⟩ := not_or.mp (mt mem_cons.mpr unlisted)
    rw [ih later, update_of_ne other]

/-- A round takes fewer items than a fullest place has, so it gives up no place. -/
theorem Relocated.places_kept (relocated : Relocated items placed list final) (few : list.length < peak items placed)
    (fromHeaviest : ∀ item ∈ list, placed item ∈ heaviest items placed) :
    places items final = places items placed := by
  refine relocated.places_subset.antisymm fun place mem => ?_
  have stays : ∃ item ∈ items, placed item = place ∧ item ∉ list := by
    by_contra all
    push Not at all
    obtain ⟨item, isItem, here⟩ := Finset.mem_image.mp mem
    have full := (mem_full.mp (here ▸ fromHeaviest item (all item isItem here))).2
    have listed : items.filter (fun item => placed item = place) ⊆ list.toFinset := by
      intro other isHere
      obtain ⟨isItem, here⟩ := Finset.mem_filter.mp isHere
      exact mem_toFinset.mpr (all other isItem here)
    have bound := (Finset.card_le_card listed).trans list.toFinset_card_le
    rw [← full] at few
    exact absurd bound (Nat.not_le.mpr few)
  obtain ⟨item, isItem, here, unlisted⟩ := stays
  exact Finset.mem_image.mpr ⟨item, isItem, (relocated.unmoved unlisted).trans here⟩

theorem Relocated.places_eq (tail : Relocated items (Function.update placed item target) rest final)
    (hp : target ∈ places items placed) (all : places items placed = places items final) :
    places items (Function.update placed item target) = places items final :=
  ((places_move_subset hp).trans all.subset).antisymm tail.places_subset

/-- As long as no place is given up, moves of items from a set of places keep it lowered. -/
theorem Relocated.lowered {top : ℕ} {weight : P → ℕ} (reloc : Relocated items placed list final)
    (weighs : Weighs (places items final) weight) (all : places items placed = places items final)
    (nodup : list.Nodup) (fromFirst : ∀ x ∈ list, x ∈ items ∧ placed x ∈ first)
    (inRange : InRange (places items final) top (count items placed))
    (lowered : Lowered (places items final) top weight first (count items placed)) :
    InRange (places items final) top (count items final) ∧
      Lowered (places items final) top weight first (count items final) := by
  induction reloc with
  | nil placed => exact ⟨inRange, lowered⟩
  | @cons placed final x rest tgt emptiest tail ih =>
    obtain ⟨fresh, nodup⟩ := nodup_cons.mp nodup
    obtain ⟨mem, src⟩ := fromFirst x mem_cons_self
    have moved := tail.places_eq emptiest.1 all
    have later := waiting_of_fresh fresh fromFirst tgt
    by_cases apart : placed x = tgt
    · rw [← apart, update_eq_self] at tail ih moved later
      exact ih weighs moved nodup later inRange lowered
    · have hp : placed x ∈ places items final := all ▸ Finset.mem_image_of_mem placed mem
      have refills : Refills (places items final) top _ _ (placed x) tgt :=
        ⟨inRange, shifted_move mem apart, hp, all ▸ emptiest⟩
      exact ih weighs moved nodup later refills.inRange (lowered.shift weighs refills src)

/-- The first move from a heaviest place lowers their weight, as no place gets full by it. -/
theorem lowered_move (mem : item ∈ items) (src : placed item ∈ heaviest items placed)
    (emptiest : Emptiest (places items placed) (count items placed) target)
    (inRange : InRange (places items placed) (peak items placed) (count items placed))
    (slack : ¬ Tight (places items placed) (peak items placed) (count items placed)) :
    let load := count items (Function.update placed item target)
    InRange (places items placed) (peak items placed) load ∧
      Lowered (places items placed) (peak items placed) (position (places items placed)) (heaviest items placed) load := by
  have apart : placed item ≠ target := by
    intro eq
    exact emptiest.not_mem_full inRange (eq ▸ src)
  have refills : Refills (places items placed) (peak items placed) _ _ (placed item) target :=
    ⟨inRange, shifted_move mem apart, full_subset src, emptiest⟩
  refine ⟨refills.inRange, fun lowest last => ?_⟩
  have step := refills.total_lt (weighs_position _) last src
  have start : completed (places items placed) (peak items placed) (count items placed) target =
      heaviest items placed := if_neg slack
  rwa [start] at step

/-- A round that takes items from the heaviest places makes progress when some place has at least two
items less than those. -/
theorem Relocated.unevenness_lt (reloc : Relocated items placed list final) (ne : list ≠ [])
    (nodup : list.Nodup) (fromHeaviest : ∀ x ∈ list, x ∈ items ∧ placed x ∈ heaviest items placed)
    (uneven : ∃ place ∈ places items placed, count items placed place + 2 ≤ peak items placed) :
    unevenness items final < unevenness items placed := by
  have fewer := reloc.places_subset
  by_cases all : places items placed = places items final
  · cases reloc with
    | nil => exact absurd rfl ne
    | @cons _ _ x rest tgt emptiest tail =>
      obtain ⟨fresh, nodup⟩ := nodup_cons.mp nodup
      obtain ⟨mem, src⟩ := fromHeaviest x mem_cons_self
      obtain ⟨lacking, isPlace, lacks⟩ := uneven
      have inRange : InRange (places items placed) (peak items placed) (count items placed) :=
        ⟨fun place hp => Finset.le_sup hp, lacking, isPlace, by omega⟩
      have slack : ¬ Tight (places items placed) (peak items placed) (count items placed) := by
        intro tight
        have := tight lacking isPlace
        omega
      obtain ⟨range, lowered⟩ := lowered_move mem src emptiest inRange slack
      have moved := tail.places_eq emptiest.1 all
      have later := waiting_of_fresh fresh fromHeaviest tgt
      rw [all] at lowered range
      obtain ⟨range, lowered⟩ := tail.lowered (weighs_position _) moved nodup later range lowered
      exact unevenness_lt_of_lowered all range lowered
  · refine Prod.Lex.toLex_lt_toLex.mpr (.inl (Finset.card_lt_card ?_))
    exact fewer.ssubset_of_ne (Ne.symm all)

end Moves

end Atomr.Library.Leveling
