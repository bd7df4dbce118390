import Atomr.Library.Runs
import Mathlib.Data.UInt

/-! The seeded generator of record and replay.

A generator is a position in a keystream, with a counter that numbers its splits. A snapshot
keeps the position and not the counter. A restored generator draws the same values, and its
children start from the first stream selector again.
-/

namespace Atomr.Persistence

open Library

abbrev Seed := Vector UInt8 32

/-- What ChaCha20 yields at a seed, a stream and a word position. -/
abbrev Keystream := Seed → UInt64 → BitVec 68 → UInt64

/-- The position is a block counter of 64 bits and one of the 16 words of a block. -/
structure ChaCha20Rng where
  seed : Seed
  stream : UInt64
  wordPos : BitVec 68
  deriving DecidableEq

namespace ChaCha20Rng

def fromSeed (seed : Seed) : ChaCha20Rng := ⟨seed, 0, 0⟩

variable (rng : ChaCha20Rng)

def setStream (stream : UInt64) : ChaCha20Rng := { rng with stream }

def setWordPos (wordPos : BitVec 128) : ChaCha20Rng :=
  { rng with wordPos := wordPos.setWidth 68 }

def getWordPos : BitVec 128 := rng.wordPos.setWidth 128

def nextU64 (output : Keystream) (rng : ChaCha20Rng) : UInt64 × ChaCha20Rng :=
  (output rng.seed rng.stream rng.wordPos, { rng with wordPos := rng.wordPos + 2 })

end ChaCha20Rng

structure RngState where
  seed : Seed
  stream : UInt64
  wordPos : BitVec 128
  deriving DecidableEq

structure SeededRng where
  rng : ChaCha20Rng
  stream : UInt64
  splitCounter : UInt64
  deriving DecidableEq

namespace SeededRng

def fromSeed (expand : UInt64 → Seed) (seed : UInt64) : SeededRng := ⟨.fromSeed (expand seed), 0, 0⟩

def nextU64 (output : Keystream) (rng : SeededRng) : UInt64 × SeededRng :=
  let (value, advanced) := rng.rng.nextU64 output
  (value, { rng with rng := advanced })

def snapshot (rng : SeededRng) : RngState := ⟨rng.rng.seed, rng.stream, rng.rng.getWordPos⟩

def restore (state : RngState) : SeededRng :=
  ⟨((ChaCha20Rng.fromSeed state.seed).setStream state.stream).setWordPos state.wordPos, state.stream, 0⟩

def split (rng : SeededRng) : SeededRng × SeededRng :=
  let splitCounter := rng.splitCounter + 1
  let childStream := rng.stream * 0x9E3779B97F4A7C15 + splitCounter
  (⟨(ChaCha20Rng.fromSeed rng.rng.seed).setStream childStream, childStream, 0⟩, { rng with splitCounter })

end SeededRng

/-! ## Generators in use

The generators made from one are numbered in the order of the splits that made them. -/

inductive RngCall where
  | nextU64 (generator : Nat)
  | split (generator : Nat)
  deriving DecidableEq, Repr

abbrev Generators := List SeededRng

namespace Generators

def call (output : Keystream) (pool : Generators) : RngCall → Option (Option UInt64 × Generators)
  | .nextU64 i => (pool[i]?).map fun rng =>
    let (value, advanced) := rng.nextU64 output
    (some value, pool.set i advanced)
  | .split i => (pool[i]?).map fun rng =>
    let (child, parent) := rng.split
    (none, pool.set i parent ++ [child])

def step (output : Keystream) (pool : Generators) (made : RngCall) : Option Generators :=
  (pool.call output made).map Prod.snd

def draws (output : Keystream) : Generators → List RngCall → Option (List UInt64)
  | _, [] => some []
  | pool, made :: rest => do
    let (value, next) ← call output pool made
    let values ← draws output next rest
    return value.toList ++ values

def splits (pool : Generators) (generator : Nat) : UInt64 := ((pool[generator]?).map (·.splitCounter)).getD 0

variable {output : Keystream} {pool next : Generators} {made : RngCall}

theorem step_cases (taken : step output pool made = some next) :
    (∃ i rng, made = .nextU64 i ∧ pool[i]? = some rng ∧ next = pool.set i (rng.nextU64 output).2) ∨
    (∃ i rng, made = .split i ∧ pool[i]? = some rng ∧ next = pool.set i rng.split.2 ++ [rng.split.1]) := by
  obtain ⟨ans, called, rfl⟩ := Option.map_eq_some_iff.mp taken
  cases made with
  | nextU64 i =>
    obtain ⟨rng, found, rfl⟩ := Option.map_eq_some_iff.mp called
    exact .inl ⟨i, rng, rfl, found, rfl⟩
  | split i =>
    obtain ⟨rng, found, rfl⟩ := Option.map_eq_some_iff.mp called
    exact .inr ⟨i, rng, rfl, found, rfl⟩

theorem splits_set {i : Nat} {rng changed : SeededRng} (found : pool[i]? = some rng) (k : Nat) :
    splits (pool.set i changed) k = if k = i then changed.splitCounter else splits pool k := by
  unfold splits
  rw [List.getElem?_set]
  split
  next eq =>
    have bound := (List.getElem?_eq_some_iff.mp found).1
    rw [if_pos bound, if_pos eq.symm]
    rfl
  next other => rw [if_neg (Ne.symm other)]

theorem splits_snoc {ch : SeededRng} (fresh : ch.splitCounter = 0) (k : Nat) :
    splits (pool ++ [ch]) k = splits pool k := by
  unfold splits
  rw [List.getElem?_append]
  split
  · rfl
  next beyond =>
    have ha : pool[k]? = none := List.getElem?_eq_none (by omega)
    rw [ha]
    cases k - pool.length with
    | zero => exact fresh
    | succ n => rfl

theorem splits_step (taken : step output pool made = some next) (k : Nat) :
    splits next k = splits pool k + if made = .split k then 1 else 0 := by
  obtain ⟨i, rng, rfl, found, rfl⟩ | ⟨i, rng, rfl, found, rfl⟩ := step_cases taken
  · rw [splits_set found]
    by_cases eq : k = i
    · subst eq
      simp [splits, found, SeededRng.nextU64]
    · simp [eq]
  · rw [splits_snoc rfl, splits_set found]
    by_cases eq : k = i
    · subst eq
      simp [splits, found, SeededRng.split]
    · rw [if_neg eq, if_neg (by simpa using Ne.symm eq)]
      simp

theorem splits_run {first final : Generators} {cs : List RngCall}
    (run : Run (step output) (fun _ _ => True) first cs final) (k : Nat) :
    splits final k = splits first k + .ofNat (cs.count (.split k)) := by
  induction run with
  | nil pool => simp
  | @cons pool next final made rest allowed taken tail ih =>
    rw [ih, splits_step taken, List.count_cons]
    by_cases eq : made = .split k
    · simp only [eq, if_true, beq_self_eq_true, UInt64.ofNat_add]
      rw [UInt64.add_assoc, UInt64.add_comm 1]
      rfl
    · simp [eq]

def Consistent (pool : Generators) : Prop := ∀ rng ∈ pool, rng.rng.stream = rng.stream

theorem consistent_step (cons : Consistent pool) (taken : step output pool made = some next) :
    Consistent next := by
  obtain ⟨i, rng, rfl, found, rfl⟩ | ⟨i, rng, rfl, found, rfl⟩ := step_cases taken
  · intro other mem
    rcases List.mem_or_eq_of_mem_set mem with kept | rfl
    · exact cons other kept
    · exact cons rng (List.mem_of_getElem? found)
  · intro other mem
    rcases List.mem_append.mp mem with here | new
    · rcases List.mem_or_eq_of_mem_set here with kept | rfl
      · exact cons other kept
      · exact cons rng (List.mem_of_getElem? found)
    · obtain rfl := List.mem_singleton.mp new
      rfl

end Generators

/-- A restored generator differs from the original in the counter of its splits only. -/
theorem SeededRng.restore_snapshot {rng : SeededRng} (cons : rng.rng.stream = rng.stream) :
    restore rng.snapshot = { rng with splitCounter := 0 } := by
  obtain ⟨⟨seed, selector, wordPos⟩, s, splitCounter⟩ := rng
  dsimp only at cons
  subst cons
  have pos : (wordPos.setWidth 128).setWidth 68 = wordPos := by
    rw [BitVec.setWidth_setWidth_of_le _ (by omega), BitVec.setWidth_eq]
  simp only [restore, snapshot, ChaCha20Rng.getWordPos, ChaCha20Rng.fromSeed, ChaCha20Rng.setStream,
    ChaCha20Rng.setWordPos, pos]

namespace Generators

section
variable {expand : UInt64 → Seed} {seed : UInt64} {output : Keystream} {cs : List RngCall} {pool : Generators}
  {gen : Nat} {rng : SeededRng} (run : Run (step output) (fun _ _ => True) [.fromSeed expand seed] cs pool)
include run

theorem restore_of_run (found : pool[gen]? = some rng) :
    .restore rng.snapshot = { rng with splitCounter := 0 } := by
  have cons := run.invariant Consistent (fun _ _ _ h _ taken => consistent_step h taken)
    fun rng mem => (by rw [List.mem_singleton.mp mem]; rfl)
  exact SeededRng.restore_snapshot (cons rng (List.mem_of_getElem? found))

end

def showStream : Keystream := fun _ stream _ => stream

/-- A restored generator yields what the original yields, children included, exactly when the
original's counter of splits has come back to zero. -/
theorem replay_iff {expand : UInt64 → Seed} {seed : UInt64} {output : Keystream} {calls : List RngCall}
    {pool : Generators} (run : Run (step output) (fun _ _ => True) [.fromSeed expand seed] calls pool)
    {generator : Nat} {rng : SeededRng} (found : pool[generator]? = some rng) :
    (∀ output further, draws output [.restore rng.snapshot] further = draws output [rng] further) ↔
      2 ^ 64 ∣ calls.count (.split generator) := by
  have counted : rng.splitCounter = .ofNat (calls.count (.split generator)) := by
    have total := splits_run run generator
    have none : splits [.fromSeed expand seed] generator = 0 := by
      cases generator with
      | zero => rfl
      | succ generator => rfl
    rw [none, UInt64.zero_add] at total
    rw [← total, splits, found]
    rfl
  rw [restore_of_run run found]
  have zero : rng.splitCounter = 0 ↔ 2 ^ 64 ∣ calls.count (.split generator) := by
    rw [counted, ← UInt64.toNat_inj, UInt64.toNat_ofNat', UInt64.toNat_zero, Nat.dvd_iff_mod_eq_zero]
  rw [← zero]
  constructor
  · -- The first child of each shows which selector it was given.
    intro eq
    have children := eq showStream [.split 0, .nextU64 1]
    have selectors : rng.stream * 0x9E3779B97F4A7C15 + (0 + 1) =
        rng.stream * 0x9E3779B97F4A7C15 + (rng.splitCounter + 1) := by
      injection children with vals
      injection vals
    have counters := (UInt64.add_right_inj _).mp selectors
    exact ((UInt64.add_left_inj 1).mp counters).symm
  · intro fresh output further
    rw [← fresh]

def childDraws : List RngCall := [.nextU64 0, .split 0, .nextU64 1, .nextU64 0]

theorem replay_of_child :
    ∃ pool rng, Run (step showStream) (fun _ _ => True) [.fromSeed (fun _ => .replicate 32 0) 7] childDraws pool ∧
      pool[1]? = some rng ∧
      ∀ output further, draws output [.restore rng.snapshot] further = draws output [rng] further := by
  have run : Run (step showStream) (fun _ _ => True) [.fromSeed (fun _ => .replicate 32 0) 7] childDraws _ :=
    Run.of_foldlM rfl
  exact ⟨_, _, run, rfl, (@replay_iff _ _ _ _ _ run 1 _ rfl).mpr (by decide)⟩

/-- After one split the original gives its next child another stream than the restored one does. -/
theorem split_not_replayed :
    ∃ pool rng, Run (step showStream) (fun _ _ => True) [.fromSeed (fun _ => .replicate 32 0) 7] [.split 0] pool ∧
      pool[0]? = some rng ∧
      draws showStream [rng] [.split 0, .nextU64 1] = some [2] ∧
      draws showStream [.restore rng.snapshot] [.split 0, .nextU64 1] = some [1] :=
  ⟨_, _, Run.of_foldlM rfl, rfl, rfl, rfl⟩

end Generators

end Atomr.Persistence
