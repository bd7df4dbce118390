import Atomr.Remote.Chunking

/-! Reassembly under interleaving, reordering and duplication.

The receiver's table is determined by the chunks it has seen: a message is
pending exactly while some but not all of its chunks have arrived, and its
slots hold the payloads of those that have. One push keeps this description,
and the answers of a whole run follow from it.
-/

namespace Atomr.Remote

open List

/-- The chunks of one message: numbered, labelled and together the payload. -/
structure Splitting (id : UInt64) (payload : List UInt8) (parts : List Chunk) : Prop where
  nonempty : parts ≠ []
  joined : (parts.map Chunk.payload).flatten = payload
  labels : ∀ i (inside : i < parts.length),
    parts[i].messageId = id ∧ parts[i].chunkIdx.toNat = i ∧ parts[i].totalChunks.toNat = parts.length

theorem splitting_numbered (id : UInt64) (bodies : List (List UInt8)) (ne : bodies ≠ [])
    (small : bodies.length < 2 ^ 32) :
    Splitting id bodies.flatten
      (bodies.mapIdx fun i body => ⟨id, UInt32.ofNat i, UInt32.ofNat bodies.length, body⟩) where
  nonempty := by simpa using ne
  joined := congrArg List.flatten (ext_getElem (by simp) (by simp))
  labels := by
    intro i hi
    rw [length_mapIdx] at hi
    have idx : i < 2 ^ 32 := Nat.lt_trans hi small
    simp only [getElem_mapIdx, length_mapIdx, UInt32.toNat_ofNat', Nat.mod_eq_of_lt idx,
      Nat.mod_eq_of_lt small, and_self]

theorem Chunker.splitting (c : Chunker) (id : UInt64) (p : List UInt8)
    (small : (c.split id p).length < 2 ^ 32) : Splitting id p (c.split id p) := by
  unfold Chunker.split at small ⊢
  split
  next empty =>
    have nothing : p = [] := isEmpty_iff.mp empty
    subst nothing
    exact splitting_numbered id [[]] (by simp) (by simp)
  next ne =>
    have count := Library.Bytes.length_pieces c.positive p
    have joined := Library.Bytes.flatten_pieces c.positive p
    have some : Library.Bytes.pieces c.chunkSize p ≠ [] := by
      intro none
      rw [none] at joined
      exact ne (isEmpty_iff.mpr joined.symm)
    rw [if_neg ne, length_mapIdx] at small
    have numbered := splitting_numbered id _ some small
    rwa [joined, count] at numbered

namespace Splitting

variable {id : UInt64} {p : List UInt8} {ps : List Chunk} {part : Chunk}
  (spl : Splitting id p ps)
include spl

theorem of_mem (mem : part ∈ ps) :
    part.messageId = id ∧ part.totalChunks.toNat = ps.length ∧ ps[part.chunkIdx.toNat]? = some part := by
  obtain ⟨i, hi, found⟩ := getElem_of_mem mem
  obtain ⟨idLabel, idxLabel, totalLabel⟩ := spl.labels i hi
  rw [found] at idLabel idxLabel totalLabel
  refine ⟨idLabel, totalLabel, ?_⟩
  rw [idxLabel, List.getElem?_eq_getElem hi, found]

theorem idx_lt (mem : part ∈ ps) : part.chunkIdx.toNat < ps.length :=
  (List.getElem?_eq_some_iff.mp (spl.of_mem mem).2.2).1

theorem eq_iff_idx {i : Nat} (hi : i < ps.length) (mem : part ∈ ps) :
    ps[i] = part ↔ i = part.chunkIdx.toNat := by
  constructor
  · intro eq
    rw [← eq, (spl.labels i hi).2.1]
  · intro eq
    have found := (spl.of_mem mem).2.2
    rw [← eq, List.getElem?_eq_getElem hi] at found
    exact Option.some.inj found

end Splitting

def slots (parts seen : List Chunk) : List (Option (List UInt8)) :=
  parts.map fun part => if part ∈ seen then some part.payload else none

variable {parts seen : List Chunk} {chunk : Chunk} {m : UInt64 × List UInt8} {r : Reassembler}

theorem slots_of_disjoint (unseen : ∀ part ∈ parts, part ∉ seen) :
    slots parts seen = List.replicate parts.length none := by
  rw [slots, map_congr_left fun part mem => if_neg (unseen part mem)]
  exact map_const' ..

theorem slots_congr {later : List Chunk} (agree : ∀ part ∈ parts, part ∈ seen ↔ part ∈ later) :
    slots parts seen = slots parts later := by
  apply map_congr_left
  intro part mem
  simp only [agree part mem]

theorem slots_full (all : ∀ part ∈ parts, part ∈ seen) :
    (slots parts seen).reduceOption.flatten = (parts.map Chunk.payload).flatten := by
  have filled : slots parts seen = (parts.map Chunk.payload).map some := by
    rw [map_map]
    exact map_congr_left fun part mem => if_pos (all part mem)
  rw [filled]
  change (((parts.map Chunk.payload).map some).filterMap id).flatten = _
  simp

theorem count_slots (parts seen : List Chunk) :
    (slots parts seen).countP Option.isSome < parts.length ↔ ∃ part ∈ parts, part ∉ seen := by
  have counted : (slots parts seen).countP Option.isSome = parts.countP fun part => part ∈ seen := by
    rw [slots, countP_map]
    congr 1
    funext part
    by_cases mem : part ∈ seen <;> simp [mem]
  have bound : parts.countP (fun part => part ∈ seen) ≤ parts.length := countP_le_length
  have full := countP_eq_length (p := fun part => decide (part ∈ seen)) (l := parts)
  simp only [decide_eq_true_eq] at full
  rw [counted]
  constructor
  · intro less
    by_contra none
    push Not at none
    exact absurd (full.mpr none) (Nat.ne_of_lt less)
  · rintro ⟨part, mem, unseen⟩
    exact Nat.lt_of_le_of_ne bound fun eq => unseen (full.mp eq part mem)

variable {id : UInt64} {payload : List UInt8} {chunks : List Chunk}

/-- Filling the slot of an arriving chunk accounts for one more seen chunk. -/
theorem slots_fill (spl : Splitting id payload parts) (mem : chunk ∈ parts) {h : Pending}
    (desc : h.chunks = slots parts seen) (hi : chunk.chunkIdx < h.total) :
    (h.fill chunk.chunkIdx hi chunk.payload).chunks = slots parts (seen ++ [chunk]) := by
  have bound := spl.idx_lt mem
  have own : parts[chunk.chunkIdx.toNat] = chunk := (spl.eq_iff_idx bound mem).mpr rfl
  have slot : h.chunks[chunk.chunkIdx.toNat]? = some (if chunk ∈ seen then some chunk.payload else none) := by
    simp only [desc, slots, List.getElem?_map, (spl.of_mem mem).2.2, Option.map_some]
  rw [Pending.chunks_fill, slot]
  by_cases known : chunk ∈ seen
  · -- A duplicate: the slot keeps its payload and the seen chunks stay the same set.
    rw [if_pos known, desc]
    apply slots_congr
    intro part _
    have absorbed : part = chunk → part ∈ seen := fun eq => eq ▸ known
    simpa using absorbed
  · rw [if_neg known, desc]
    apply ext_getElem
    · simp [slots]
    · intro i _ second
      have pos : i < parts.length := by simpa [slots] using second
      have eq := spl.eq_iff_idx pos mem
      by_cases here : i = chunk.chunkIdx.toNat
      · simp [here, slots, own]
      · have other : parts[i] ≠ chunk := fun equal => here (eq.mp equal)
        simp [Ne.symm here, slots, other]

/-- Payloads under different message ids, each of fewer chunks than the index can count. -/
structure Family (c : Chunker) where
  messages : List (UInt64 × List UInt8)
  distinct : (messages.map Prod.fst).Nodup
  small : ∀ m ∈ messages, (c.split m.1 m.2).length < 2 ^ 32

variable {c : Chunker} {family : Family c}

theorem Family.eq_of_id {other : UInt64 × List UInt8} (known : m ∈ family.messages)
    (otherKnown : other ∈ family.messages) (eq : m.1 = other.1) : m = other :=
  inj_on_of_nodup_map family.distinct known otherKnown eq

theorem Family.splitting (known : m ∈ family.messages) : Splitting m.1 m.2 (c.split m.1 m.2) :=
  c.splitting m.1 m.2 (family.small m known)

structure Tracks (family : Family c) (r : Reassembler) (seen : List Chunk) : Prop where
  holds : ∀ id held, r.pending.lookup id = some held → ∃ m ∈ family.messages,
    m.1 = id ∧ held.chunks = slots (c.split m.1 m.2) seen ∧ ∃ part ∈ c.split m.1 m.2, part ∉ seen
  absent : ∀ m ∈ family.messages, r.pending.lookup m.1 = none →
    (∀ part ∈ c.split m.1 m.2, part ∉ seen) ∨ ∀ part ∈ c.split m.1 m.2, part ∈ seen

theorem tracks_new : Tracks family Reassembler.new [] where
  holds := by
    intro id h found
    simp [Reassembler.new] at found
  absent := fun _ _ _ => Or.inl fun _ _ => not_mem_nil

theorem Tracks.entry (tracks : Tracks family r seen) (t : Nat) (known : m ∈ family.messages)
    (mem : chunk ∈ c.split m.1 m.2) (waiting : ∃ part ∈ c.split m.1 m.2, part ∉ seen) :
    ((r.pending.lookup chunk.messageId).getD (Pending.fresh chunk.totalChunks t)).chunks
      = slots (c.split m.1 m.2) seen := by
  obtain ⟨id, total, _⟩ := (Family.splitting known).of_mem mem
  rw [id]
  cases found : r.pending.lookup m.1 with
  | none =>
    have unseen : ∀ part ∈ c.split m.1 m.2, part ∉ seen := by
      rcases tracks.absent m known found with unseen | all
      · exact unseen
      · obtain ⟨part, isPart, missing⟩ := waiting
        exact absurd (all part isPart) missing
    rw [slots_of_disjoint unseen, ← total]
    rfl
  | some h =>
    obtain ⟨other, otherKnown, eq, desc, _⟩ := tracks.holds m.1 h found
    rw [Family.eq_of_id otherKnown known eq] at desc
    exact desc

theorem mem_append_of_other (spl : Splitting id payload parts) (hfor : chunk.messageId ≠ id)
    (seen : List Chunk) : ∀ part ∈ parts, part ∈ seen ↔ part ∈ seen ++ [chunk] := by
  intro part mem
  have ne : part ≠ chunk := fun eq => hfor (eq ▸ (spl.of_mem mem).1)
  simp [ne]

theorem Tracks.update {next : Reassembler} (tracks : Tracks family r seen) (known : m ∈ family.messages)
    (id : chunk.messageId = m.1) (others : ∀ other, other ≠ m.1 → next.pending.lookup other = r.pending.lookup other)
    (hp : ∀ h, next.pending.lookup m.1 = some h →
      h.chunks = slots (c.split m.1 m.2) (seen ++ [chunk]) ∧ ∃ part ∈ c.split m.1 m.2, part ∉ seen ++ [chunk])
    (removed : next.pending.lookup m.1 = none → ∀ part ∈ c.split m.1 m.2, part ∈ seen ++ [chunk]) :
    Tracks family next (seen ++ [chunk]) where
  holds := by
    intro other h found
    by_cases eq : other = m.1
    · subst eq
      exact ⟨m, known, rfl, hp h found⟩
    · rw [others other eq] at found
      obtain ⟨ow, own, label, desc, part, isPart, unseen⟩ := tracks.holds other h found
      have hfor : chunk.messageId ≠ ow.1 := fun equal => eq (by rw [← label, ← equal, id])
      have agree := mem_append_of_other (Family.splitting own) hfor seen
      refine ⟨ow, own, label, ?_, part, isPart, ?_⟩
      · rw [desc, slots_congr agree]
      · rwa [← agree part isPart]
  absent := by
    intro ow own missing
    by_cases eq : ow.1 = m.1
    · have equal := Family.eq_of_id own known eq
      subst equal
      exact Or.inr (removed missing)
    · rw [others ow.1 eq] at missing
      have hfor : chunk.messageId ≠ ow.1 := fun equal => eq (by rw [← equal, id])
      have agree := mem_append_of_other (Family.splitting own) hfor seen
      rcases tracks.absent ow own missing with unseen | all
      · exact Or.inl fun part isPart => (agree part isPart).not.mp (unseen part isPart)
      · exact Or.inr fun part isPart => (agree part isPart).mp (all part isPart)

/-- One push: the table stays determined, and only a completing chunk is answered with a payload. -/
theorem Tracks.push (tracks : Tracks family r seen) (t : Nat) (known : m ∈ family.messages)
    (mem : chunk ∈ c.split m.1 m.2) (waiting : ∃ part ∈ c.split m.1 m.2, part ∉ seen) :
    Tracks family (r.push t chunk).2 (seen ++ [chunk])
      ∧ (r.push t chunk).1
          = .ok (if ∀ part ∈ c.split m.1 m.2, part ∈ seen ++ [chunk] then some m.2 else none) := by
  have spl := Family.splitting known
  obtain ⟨id, total, _⟩ := spl.of_mem mem
  obtain ⟨e, h⟩ : ∃ e,
      (r.pending.lookup chunk.messageId).getD (Pending.fresh chunk.totalChunks t) = e := ⟨_, rfl⟩
  have desc := tracks.entry t known mem waiting
  rw [h] at desc
  have sized : e.total = chunk.totalChunks := by
    apply UInt32.toNat_inj.mp
    rw [← e.sized, desc, total, slots, length_map]
  have hi : chunk.chunkIdx < e.total := by
    rw [sized, UInt32.lt_iff_toNat_lt, total]
    exact spl.idx_lt mem
  have filled := slots_fill spl mem desc hi
  have counts := (e.fill chunk.chunkIdx hi chunk.payload).received_lt
  rw [filled, slots, length_map, ← slots, count_slots] at counts
  rw [Reassembler.push_eq h sized hi]
  by_cases complete : ∀ part ∈ c.split m.1 m.2, part ∈ seen ++ [chunk]
  -- The last slot is filled: the payload goes out and its entry is dropped.
  · have full : ¬ ∃ part ∈ c.split m.1 m.2, part ∉ seen ++ [chunk] := by
      rintro ⟨part, isPart, unseen⟩
      exact unseen (complete part isPart)
    rw [if_pos complete]
    simp only [counts, full, if_false]
    constructor
    · refine tracks.update known id (fun other hfor => ?_) (fun h found => ?_) fun _ => complete
      · rw [id, Library.Table.lookup_erase_if, if_neg hfor]
      · rw [id] at found
        exact absurd found (by simp)
    · rw [filled, slots_full complete, spl.joined]
  · have missing : ∃ part ∈ c.split m.1 m.2, part ∉ seen ++ [chunk] := by
      push Not at complete
      exact complete
    rw [if_neg complete]
    simp only [counts, missing, if_true, and_true]
    refine tracks.update known id (fun other hfor => ?_) (fun h found => ?_) fun found => ?_
    · rw [id, Library.Table.lookup_insert_if, if_neg hfor]
    · rw [id, Library.Table.lookup_insert_if, if_pos rfl, Option.some.injEq] at found
      exact found ▸ ⟨filled, missing⟩
    · rw [id] at found
      exact absurd found (by simp)

/-- The chunk at position `k` is the last one that message `m` was waiting for. -/
def SuppliesLast (c : Chunker) (m : UInt64 × List UInt8) (chunks : List Chunk) (k : Nat) : Prop :=
  (∃ chunk ∈ c.split m.1 m.2, chunks[k]? = some chunk)
    ∧ (∃ part ∈ c.split m.1 m.2, part ∉ chunks.take k)
    ∧ ∀ part ∈ c.split m.1 m.2, part ∈ chunks.take (k + 1)

/-- Every arrival is a chunk of a message that is still incomplete before it. -/
def Arrives (family : Family c) (seen : List Chunk) : List Chunk → Prop
  | [] => True
  | chunk :: rest =>
    (∃ m ∈ family.messages, chunk ∈ c.split m.1 m.2 ∧ ∃ part ∈ c.split m.1 m.2, part ∉ seen)
      ∧ Arrives family (seen ++ [chunk]) rest

instance decidableArrives (family : Family c) (seen : List Chunk) :
    (chunks : List Chunk) → Decidable (Arrives family seen chunks)
  | [] => .isTrue trivial
  | chunk :: rest =>
    have := decidableArrives family (seen ++ [chunk]) rest
    inferInstanceAs (Decidable ((∃ m ∈ family.messages, _) ∧ Arrives family (seen ++ [chunk]) rest))

theorem Tracks.receiveAll (tracks : Tracks family r seen) (arrs : List (Nat × Chunk))
    (arrives : Arrives family seen (arrs.map Prod.snd)) :
    ∃ as final,
      r.receiveAll (arrs.map fun arrival => (arrival.1, arrival.2.toWire)) = some (as, final)
        ∧ Tracks family final (seen ++ arrs.map Prod.snd)
        ∧ as.length = arrs.length
        ∧ ∀ (k : Nat) (ch : Chunk), (arrs.map Prod.snd)[k]? = some ch →
            ∀ m ∈ family.messages, ch ∈ c.split m.1 m.2 → as[k]? = some (.ok
              (if ∀ part ∈ c.split m.1 m.2, part ∈ seen ++ (arrs.map Prod.snd).take (k + 1) then some m.2
                else none)) := by
  induction arrs generalizing r seen with
  | nil => exact ⟨[], r, rfl, by simpa using tracks, rfl, by simp⟩
  | cons arrival rest ih =>
    obtain ⟨t, ch⟩ := arrival
    obtain ⟨⟨m, known, mem, waiting⟩, later⟩ := arrives
    obtain ⟨next, ans⟩ := tracks.push t known mem waiting
    obtain ⟨as, final, ran, ends, length, hans⟩ := ih next later
    refine ⟨(r.push t ch).1 :: as, final, ?_, ?_, ?_, ?_⟩
    · simp [Reassembler.receiveAll, Reassembler.receive, Chunk.fromWire_toWire, ran]
    · simpa using ends
    · simp [length]
    · intro k cur found ow own isPart
      cases k with
      -- Message ids tell the messages apart, so the owner is the one that was pushed to.
      | zero =>
        have eq : ch = cur := by simpa using found
        subst eq
        have ids := ((Family.splitting known).of_mem mem).1
        have ownerIds := ((Family.splitting own).of_mem isPart).1
        have equal := Family.eq_of_id known own (ids.symm.trans ownerIds)
        subst equal
        simpa using ans
      | succ k =>
        have tail := hans k cur (by simpa using found) ow own isPart
        simpa using tail

theorem Arrives.at_position (arrives : Arrives family seen chunks) {k : Nat} (found : chunks[k]? = some chunk) :
    ∃ m ∈ family.messages, chunk ∈ c.split m.1 m.2 ∧ ∃ part ∈ c.split m.1 m.2, part ∉ seen ++ chunks.take k := by
  induction chunks generalizing seen k with
  | nil => simp at found
  | cons first rest ih =>
    obtain ⟨t, later⟩ := arrives
    cases k with
    | zero =>
      have eq : first = chunk := by simpa using found
      subst eq
      simpa using t
    | succ k => simpa using ih later (by simpa using found)

theorem existsUnique_suppliesLast (ne : c.split m.1 m.2 ≠ []) (covers : ∀ part ∈ c.split m.1 m.2, part ∈ chunks) :
    ∃! k, SuppliesLast c m chunks k := by
  have reached : ∃ n, ∀ part ∈ c.split m.1 m.2, part ∈ chunks.take n := ⟨chunks.length, by simpa using covers⟩
  obtain ⟨n, complete, least⟩ : ∃ n, (∀ part ∈ c.split m.1 m.2, part ∈ chunks.take n)
      ∧ ∀ k < n, ∃ part ∈ c.split m.1 m.2, part ∉ chunks.take k := by
    refine ⟨Nat.find reached, Nat.find_spec reached, fun k less => ?_⟩
    have short := Nat.find_min reached less
    push Not at short
    exact short
  cases n with
  | zero =>
    obtain ⟨part, isPart⟩ := exists_mem_of_ne_nil _ ne
    exact absurd (complete part isPart) (by simp)
  | succ k =>
    obtain ⟨part, isPart, unseen⟩ := least k (Nat.lt_succ_self k)
    have last : chunks[k]? = some part := by
      have arrived := complete part isPart
      rw [take_add_one] at arrived
      simpa [unseen] using arrived
    refine ⟨k, ⟨⟨part, isPart, last⟩, ⟨part, isPart, unseen⟩, complete⟩, ?_⟩
    -- Two such positions would each leave a chunk missing before the later one.
    rintro other ⟨_, ⟨missing, isMissing, ha⟩, full⟩
    rcases Nat.lt_trichotomy other k with earlier | eq | later
    · exact absurd (take_subset_take_left chunks earlier (full part isPart)) unseen
    · exact eq
    · exact absurd (take_subset_take_left chunks later (complete missing isMissing)) ha

/-- Any interleaving of the chunks of a family, duplicates of incomplete messages included, hands out
each payload once and leaves nothing behind. -/
theorem reassembles_every_payload (c : Chunker) (family : Family c) (arrivals : List (Nat × Chunk))
    (arrives : Arrives family [] (arrivals.map Prod.snd))
    (covers : ∀ m ∈ family.messages, ∀ part ∈ c.split m.1 m.2, part ∈ arrivals.map Prod.snd) :
    ∃ (answers : List (Except ChunkError (Option (List UInt8)))) (final : Reassembler),
      Reassembler.new.receiveAll (arrivals.map fun arrival => (arrival.1, arrival.2.toWire)) = some (answers, final)
        ∧ answers.length = arrivals.length
        ∧ (∀ m ∈ family.messages, ∃! k, SuppliesLast c m (arrivals.map Prod.snd) k)
        ∧ (∀ m ∈ family.messages, ∀ k, SuppliesLast c m (arrivals.map Prod.snd) k →
            answers[k]? = some (.ok (some m.2)))
        ∧ (∀ k < arrivals.length, (∀ m ∈ family.messages, ¬ SuppliesLast c m (arrivals.map Prod.snd) k) →
            answers[k]? = some (.ok none))
        ∧ final.pending.entries = [] := by
  obtain ⟨answers, final, ran, ends, length, answered⟩ := tracks_new.receiveAll arrivals arrives
  simp only [nil_append] at ends answered
  refine ⟨answers, final, ran, length, ?_, ?_, ?_, ?_⟩
  · intro m known
    exact existsUnique_suppliesLast (Family.splitting known).nonempty (covers m known)
  · rintro m known k ⟨⟨chunk, mem, found⟩, _, full⟩
    rw [answered k chunk found m known mem, if_pos full]
  · intro k inside none
    have pos : k < (arrivals.map Prod.snd).length := by simpa using inside
    have found := List.getElem?_eq_getElem pos
    obtain ⟨m, known, mem, waiting⟩ := arrives.at_position found
    have incomplete : ¬ ∀ part ∈ c.split m.1 m.2, part ∈ (arrivals.map Prod.snd).take (k + 1) :=
      fun full => none m known ⟨⟨_, mem, found⟩, by simpa using waiting, full⟩
    rw [answered k _ found m known mem, if_neg incomplete]
  · have noEntry : ∀ id, final.pending.lookup id = none := by
      intro id
      cases found : final.pending.lookup id with
      | none => rfl
      | some held =>
        obtain ⟨m, known, _, _, part, isPart, unseen⟩ := ends.holds id held found
        exact absurd (covers m known part isPart) unseen
    apply eq_nil_iff_forall_not_mem.mpr
    rintro ⟨id, held⟩ mem
    exact absurd (AList.mem_lookup_iff.mpr mem) (by simp [noEntry id])

theorem reassembles_interleaved_pair :
    let c : Chunker := ⟨2, by decide⟩
    let last : Chunk := ⟨7, 1, 2, [3]⟩
    let arrivals : List (Nat × Chunk) := [(0, last), (1, ⟨9, 0, 1, []⟩), (2, last), (5, ⟨7, 0, 2, [1, 2]⟩)]
    ∃ answers final,
      Reassembler.new.receiveAll (arrivals.map fun arrival => (arrival.1, arrival.2.toWire)) = some (answers, final)
        ∧ (∃! k, SuppliesLast c (7, [1, 2, 3]) (arrivals.map Prod.snd) k) ∧ final.pending.entries = [] := by
  intro c last arrivals
  let family : Family c := ⟨[(7, [1, 2, 3]), (9, [])], by decide, by decide⟩
  have arrives : Arrives family [] (arrivals.map Prod.snd) := by decide
  have covers : ∀ m ∈ family.messages, ∀ part ∈ c.split m.1 m.2, part ∈ arrivals.map Prod.snd := by decide
  obtain ⟨answers, final, ran, _, once, _, _, empty⟩ := reassembles_every_payload c family arrivals arrives covers
  exact ⟨answers, final, ran, once _ mem_cons_self, empty⟩

end Atomr.Remote
