import Atomr.Library.HashChain
import Atomr.Persistence.SqlJournal

/-! The hash chain of the append-only journal.

A row is hashed together with the hash of the row before it, and the verifier recomputes the
hashes of an id from its first row on.
-/

namespace Atomr.Persistence

open Library Bytes HashChain List

inductive IntegrityError where
  | backend (message : String)
  deriving DecidableEq, Repr

inductive ChainProof where
  | intact (rows : Nat)
  | tampered (firstBadSequenceNr : Nat)
  deriving DecidableEq, Repr

section Verifying
variable (sha256 : List UInt8 → List UInt8) (pid : String)

def verifyRows : (expectedPrev : List UInt8) → (count : Nat) → List EventRow → ChainProof
  | _, count, [] => .intact count
  | expectedPrev, count, row :: rest =>
    if row.prevHash.getD [] ≠ expectedPrev then .tampered row.sequenceNr
    else
      let recomputed := computeRowHash sha256 expectedPrev pid row.sequenceNr row.payload row.createdAt
      if row.rowHash = some recomputed then verifyRows recomputed (count + 1) rest
      else .tampered row.sequenceNr

def SqlJournal.verifyChain (journal : SqlJournal) : Except IntegrityError ChainProof :=
  .ok (verifyRows sha256 pid [] 0 (orderBy EventRow.sequenceNr (journal.tables.rowsOf pid)))

end Verifying

structure HashedColumns where
  sequenceNr : Nat
  payload : List UInt8
  createdAt : Int64

variable (row : EventRow)

def EventRow.hashed : HashedColumns := ⟨row.sequenceNr, row.payload, row.createdAt⟩

def rowInput (pid : String) (prevHash : List UInt8) (columns : HashedColumns) : List UInt8 :=
  prevHash ++ Text.utf8 pid ++ littleEndian 8 columns.sequenceNr ++ columns.payload ++
    littleEndian 8 columns.createdAt.toUInt64.toNat

theorem littleEndian_toUInt64_inj {first second : Int64}
    (eq : littleEndian 8 first.toUInt64.toNat = littleEndian 8 second.toUInt64.toNat) : first = second := by
  have fits : ∀ n : UInt64, ofLittleEndian (littleEndian 8 n.toNat) = n.toNat := fun n => by
    rw [ofLittleEndian_littleEndian]
    exact Nat.mod_eq_of_lt n.toNat_lt
  have nums := congrArg ofLittleEndian eq
  rw [fits, fits] at nums
  exact congrArg Int64.ofUInt64 (UInt64.toNat_inj.mp nums)

/-- The input is a plain concatenation. It is unambiguous for rows with the same number and
hashes before them of the same length, since all other parts but the payload have one length. -/
theorem rowInput_unambiguous {pid : String} (prev other : List UInt8) (first second : HashedColumns)
    (lengths : prev.length = other.length) (nums : first.sequenceNr = second.sequenceNr)
    (eq : rowInput pid prev first = rowInput pid other second) : prev = other ∧ first = second := by
  obtain ⟨seqNr, p, createdAt⟩ := first
  obtain ⟨_, payload', createdAt'⟩ := second
  cases nums
  obtain ⟨front, times⟩ := append_inj' eq (by simp)
  obtain ⟨front, ps⟩ := append_inj front (by simp [lengths])
  obtain ⟨front, _⟩ := append_inj' front rfl
  obtain ⟨hashes, _⟩ := append_inj' front rfl
  exact ⟨hashes, congrArg₂ (HashedColumns.mk seqNr) ps (littleEndian_toUInt64_inj times)⟩

def EventRow.link : List UInt8 × Option (List UInt8) := (row.prevHash.getD [], row.rowHash)

section Verified
variable {sha : List UInt8 → List UInt8} {pid : String} {prev : List UInt8} {count : Nat}

theorem verifyRows_intact_iff {rows : List EventRow} {total : Nat} :
    verifyRows sha pid prev count rows = .intact total ↔
      rows.map EventRow.link =
        (links sha (rowInput pid) prev (rows.map EventRow.hashed)).map (Prod.map id some) ∧
      total = count + rows.length := by
  induction rows generalizing prev count with
  | nil =>
    rw [verifyRows, ChainProof.intact.injEq]
    exact ⟨fun eq => ⟨rfl, eq.symm⟩, fun known => known.2.symm⟩
  | cons r rest ih =>
    simp only [verifyRows, map_cons, links, List.cons.injEq, length_cons]
    split
    next differs =>
      refine ⟨fun intact => (by cases intact), fun known => absurd (congrArg Prod.fst known.1.1) differs⟩
    next pre =>
      split
      next post =>
        rw [ih]
        have here : r.link = Prod.map id some (prev, sha (rowInput pid prev r.hashed)) :=
          Prod.ext (not_not.mp pre) post
        exact ⟨fun known => ⟨⟨here, known.1⟩, by omega⟩, fun known => ⟨known.1.2, by omega⟩⟩
      next differs =>
        exact ⟨fun intact => (by cases intact), fun known => absurd (congrArg Prod.snd known.1.1) differs⟩

theorem running_of_links {rows : List EventRow}
    (linked : rows.map EventRow.link =
      (links sha (rowInput pid) [] (rows.map EventRow.hashed)).map (Prod.map id some)) :
    running sha (rowInput pid) [] (rows.map EventRow.hashed) =
      ((rows.getLast?.map EventRow.rowHash).bind id).getD [] := by
  have last := congrArg (fun links => links.getLast?.map Prod.snd) linked
  simp only [List.getLast?_map, Option.map_map] at last
  have stored : rows.getLast?.map EventRow.rowHash =
      (links sha (rowInput pid) [] (rows.map EventRow.hashed)).getLast?.map (some ∘ Prod.snd) := last
  rw [stored, ← getLast?_links]
  cases (links sha (rowInput pid) [] (rows.map EventRow.hashed)).getLast? <;> rfl

end Verified

/-- The hash before a first row is stored as NULL. -/
def linkColumns (link : List UInt8 × List UInt8) : Option (List UInt8) × Option (List UInt8) :=
  (if link.1.isEmpty then none else some link.1, some link.2)

/-- The rows of an id are one chain from its first row on. -/
def Chained (sha256 : List UInt8 → List UInt8) (pid : String) (prev : List UInt8) (rows : List EventRow) : Prop :=
  rows.map (fun row => (row.prevHash, row.rowHash)) =
    (links sha256 (rowInput pid) prev (rows.map EventRow.hashed)).map linkColumns

section Written
variable {sha256 : List UInt8 → List UInt8} {worm : WormConfig} {pid : String} {prev : List UInt8}
  {rows : List EventRow} {ts : SqlTables} {log : List Recorded}

theorem Chained.links (chained : Chained sha256 pid prev rows) :
    rows.map EventRow.link =
      (links sha256 (rowInput pid) prev (rows.map EventRow.hashed)).map (Prod.map id some) := by
  have read := congrArg (List.map fun columns => (columns.1.getD [], columns.2)) chained
  rw [map_map, map_map] at read
  refine read.trans (map_congr_left fun link _ => ?_)
  obtain ⟨pre, post⟩ := link
  cases pre <;> rfl

theorem Chained.append {later : List EventRow} (chained : Chained sha256 pid prev rows)
    (goesOn : Chained sha256 pid (running sha256 (rowInput pid) prev (rows.map EventRow.hashed)) later) :
    Chained sha256 pid prev (rows ++ later) := by
  rw [Chained, map_append, map_append, links_append, map_append, chained, goesOn]

variable {es : List Recorded}

theorem chained_chainRows (hashChain : worm.hashChain = true)
    (ids : ∀ e ∈ es, e.message.persistenceId = pid) :
    Chained sha256 pid prev (chainRows sha256 worm prev es) := by
  induction es generalizing prev with
  | nil => rfl
  | cons e rest ih =>
    obtain ⟨here, later⟩ := forall_mem_cons.mp ids
    let r := newRow sha256 worm e.reading prev e.message
    have post : r.rowHash = some (sha256 (rowInput pid prev r.hashed)) := by
      rw [← here]
      exact if_pos hashChain
    have pre : r.prevHash = if prev.isEmpty then none else some prev := by
      cases prev <;> simp [r, newRow, hashChain]
    have tail : Chained sha256 pid (sha256 (rowInput pid prev r.hashed))
        (chainRows sha256 worm (r.rowHash.getD prev) rest) := by
      rw [post]
      exact ih later
    exact congrArg₂ List.cons (Prod.ext pre post) tail

theorem seedHash_eq (hashChain : worm.hashChain = true) (stored : Stored ts log)
    (chained : Chained sha256 pid [] (ts.rowsOf pid)) :
    seedHash worm ts pid = running sha256 (rowInput pid) [] ((ts.rowsOf pid).map EventRow.hashed) := by
  rw [running_of_links chained.links, seedHash, if_pos hashChain, SqlTables.lastRowHash,
    orderByDesc_of_increasing (stored.increasing pid), List.head?_reverse]
  cases (ts.rowsOf pid).getLast? <;> rfl

theorem rowsOf_append {later : List EventRow} {post : SqlTables}
    (events : post.eventJournal = ts.eventJournal ++ later) (other : String) :
    post.rowsOf other = ts.rowsOf other ++ later.filter fun r => r.persistenceId = other := by
  rw [SqlTables.rowsOf, events, filter_append]
  rfl

theorem persistenceId_of_mem_chainRows (ids : ∀ e ∈ es, e.message.persistenceId = pid) :
    ∀ r ∈ chainRows sha256 worm prev es, r.persistenceId = pid := by
  induction es generalizing prev with
  | nil => exact nofun
  | cons e rest ih =>
    obtain ⟨here, later⟩ := forall_mem_cons.mp ids
    exact forall_mem_cons.mpr ⟨here, ih later⟩

theorem Chained.appended (hashChain : worm.hashChain = true) (stored : Stored ts log)
    (chained : ∀ pid, Chained sha256 pid [] (ts.rowsOf pid)) {post : SqlTables}
    (app : Appended sha256 worm ts pid es post) (other : String) :
    Chained sha256 other [] (post.rowsOf other) := by
  have ids : ∀ e ∈ es, e.message.persistenceId = pid := fun e mem => (app.ids e mem).1
  have owned : ∀ r ∈ chainRows sha256 worm (seedHash worm ts pid) es, r.persistenceId = pid :=
    persistenceId_of_mem_chainRows ids
  rw [rowsOf_append app.events]
  by_cases eq : other = pid
  · subst eq
    rw [filter_eq_self.mpr fun r mem => decide_eq_true (owned r mem)]
    refine (chained other).append ?_
    rw [← seedHash_eq hashChain stored (chained other)]
    exact chained_chainRows hashChain ids
  · rw [filter_eq_nil_iff.mpr fun r mem => by simpa [owned r mem] using Ne.symm eq, append_nil]
    exact chained other

theorem Chained.mark (chained : Chained sha256 pid [] (ts.rowsOf pid)) (marked : String) (toNr : Nat) :
    Chained sha256 pid [] ((SqlJournal.markRows marked toNr ts).rowsOf pid) := by
  have columns : ∀ r, (SqlJournal.markRow marked toNr r).persistenceId = r.persistenceId ∧
      (SqlJournal.markRow marked toNr r).hashed = r.hashed ∧
      (SqlJournal.markRow marked toNr r).prevHash = r.prevHash ∧
      (SqlJournal.markRow marked toNr r).rowHash = r.rowHash := by
    intro r
    unfold SqlJournal.markRow
    split <;> exact ⟨rfl, rfl, rfl, rfl⟩
  have rows : (SqlJournal.markRows marked toNr ts).rowsOf pid =
      (ts.rowsOf pid).map (SqlJournal.markRow marked toNr) := by
    simp only [SqlTables.rowsOf, SqlJournal.markRows, filter_map, Function.comp_def, columns]
  rw [rows, Chained, map_map, map_map]
  simp only [Function.comp_def, columns]
  exact chained

theorem SqlHistory.chained {guard : SqlHistory → SqlAction → Prop} {acts : List SqlAction} {hist : SqlHistory}
    (hashChain : worm.hashChain = true)
    (run : Run (SqlHistory.step sha256) guard (.start worm) acts hist) (pid : String) :
    Chained sha256 pid [] (hist.journal.tables.rowsOf pid) := by
  have kept := @SqlHistory.run_invariant sha256 guard worm acts hist
    (fun ts log => Stored ts log ∧ ∀ pid, Chained sha256 pid [] (ts.rowsOf pid))
    ⟨.empty, fun _ => rfl⟩
    (fun ts log pid es post ⟨stored, chained⟩ app =>
      ⟨stored.append app, Chained.appended hashChain stored chained app⟩)
    (fun ts log pid toNr ⟨stored, chained⟩ =>
      ⟨stored.mark pid toNr, fun other => (chained other).mark pid toNr⟩)
    run
  exact kept.2 pid

end Written

/-- A row of the id may have other values in the columns that are hashed or that link it. -/
structure Altered (pid : String) (row altered : EventRow) : Prop where
  same : altered = { row with
    payload := altered.payload, createdAt := altered.createdAt, prevHash := altered.prevHash, rowHash := altered.rowHash }
  others : row.persistenceId ≠ pid → altered = row

def LinksKept (altered : EventRow) : Prop := altered.prevHash = row.prevHash ∧ altered.rowHash = row.rowHash
deriving Decidable

def Tampering (pid : String) (before after : SqlTables) : Prop :=
  List.Forall₂ (Altered pid) before.eventJournal after.eventJournal

/-- A row as the verifier reads it: no hash and the empty hash are the same to it. -/
def EventRow.asRead : EventRow := { row with prevHash := some (row.prevHash.getD []) }

def changedNumbers (rows altered : List EventRow) : Set Nat :=
  { number | ∃ pair ∈ rows.zip altered, pair.1 ≠ pair.2 ∧ pair.1.sequenceNr = number }

def hashInputs (sha256 : List UInt8 → List UInt8) (pid : String) (tables : SqlTables) : List (List UInt8) :=
  inputs sha256 (rowInput pid) [] ((tables.rowsOf pid).map EventRow.hashed)

section Tampered
variable {sha256 : List UInt8 → List UInt8} {pid : String} {prev : List UInt8} {rows altered : List EventRow}
  {before post : SqlTables} {r : EventRow}

theorem Altered.persistenceId_eq {altered : EventRow} (alt : Altered pid r altered) :
    altered.persistenceId = r.persistenceId := by
  rw [alt.same]

theorem Altered.sequenceNr_eq {altered : EventRow} (alt : Altered pid r altered) :
    altered.sequenceNr = r.sequenceNr := by
  rw [alt.same]

theorem Tampering.alterations (tampering : Tampering pid before post) :
    List.Forall₂ (Altered pid) (before.rowsOf pid) (post.rowsOf pid) := by
  refine rel_filter (fun r altered alt => ?_) tampering
  simp only [alt.persistenceId_eq]

theorem map_sequenceNr_of_altered (alts : List.Forall₂ (Altered pid) rows altered) :
    altered.map EventRow.sequenceNr = rows.map EventRow.sequenceNr := by
  induction alts with
  | nil => rfl
  | cons here _ ih => exact congrArg₂ List.cons here.sequenceNr_eq ih

theorem Tampering.ordered (tampering : Tampering pid before post)
    (incr : (before.rowsOf pid).Pairwise fun first second => first.sequenceNr < second.sequenceNr) :
    orderBy EventRow.sequenceNr (post.rowsOf pid) = post.rowsOf pid := by
  have nums := pairwise_map.mpr incr
  rw [← map_sequenceNr_of_altered tampering.alterations] at nums
  exact orderBy_of_sorted ((pairwise_map.mp nums).imp Nat.le_of_lt)

theorem map_asRead_eq (alts : List.Forall₂ (Altered pid) rows altered)
    (hashed : altered.map EventRow.hashed = rows.map EventRow.hashed)
    (links : altered.map EventRow.link = rows.map EventRow.link) :
    altered.map EventRow.asRead = rows.map EventRow.asRead := by
  induction alts with
  | nil => rfl
  | cons here _ ih =>
    obtain ⟨columns, hashed⟩ := List.cons.inj hashed
    obtain ⟨link, links⟩ := List.cons.inj links
    refine congrArg₂ List.cons ?_ (ih hashed links)
    have p := congrArg HashedColumns.payload columns
    have createdAt := congrArg HashedColumns.createdAt columns
    have prevHash := congrArg Prod.fst link
    have rowHash := congrArg Prod.snd link
    simp only [EventRow.hashed, EventRow.link] at p createdAt prevHash rowHash
    rw [EventRow.asRead, prevHash, here.same, p, createdAt, rowHash]
    rfl

/-- With the last hash in place, rows that verify are the rows that were written. -/
theorem asRead_of_intact (fixed : ∀ x, (sha256 x).length = 32) (chained : Chained sha256 pid [] rows)
    (alts : List.Forall₂ (Altered pid) rows altered)
    (free : CollisionFree sha256 (inputs sha256 (rowInput pid) [] (rows.map EventRow.hashed))
      (inputs sha256 (rowInput pid) [] (altered.map EventRow.hashed)))
    (last : altered.getLast?.map EventRow.rowHash = rows.getLast?.map EventRow.rowHash)
    {total : Nat} (intact : verifyRows sha256 pid [] 0 altered = .intact total) :
    altered.map EventRow.asRead = rows.map EventRow.asRead := by
  have links := (verifyRows_intact_iff.mp intact).1
  have corresponds : List.Forall₂ (fun first second => first.sequenceNr = second.sequenceNr)
      (rows.map EventRow.hashed) (altered.map EventRow.hashed) := by
    rw [forall₂_map_left_iff, forall₂_map_right_iff]
    exact alts.imp fun r altered alt => alt.sequenceNr_eq.symm
  have eq : running sha256 (rowInput pid) [] (rows.map EventRow.hashed) =
      running sha256 (rowInput pid) [] (altered.map EventRow.hashed) := by
    rw [running_of_links links, running_of_links chained.links, last]
  obtain ⟨_, hashed⟩ := eq_of_running_eq fixed rowInput_unambiguous corresponds rfl free eq
  refine map_asRead_eq alts hashed.symm ?_
  rw [links, ← hashed, ← chained.links]

theorem isLeast_changedNumbers_of_ne {row' : EventRow} (differs : r ≠ row')
    (smallest : ∀ later ∈ rows, r.sequenceNr < later.sequenceNr) {first : Nat}
    (least : IsLeast (changedNumbers (r :: rows) (row' :: altered)) first) : first = r.sequenceNr := by
  have bound : first ≤ r.sequenceNr := least.2 ⟨(r, row'), mem_cons_self, differs, rfl⟩
  obtain ⟨p, mem, _, rfl⟩ := least.1
  rcases mem_cons.mp mem with rfl | later
  · rfl
  · exact absurd (smallest _ (of_mem_zip later).1) (Nat.not_lt.mpr bound)

theorem changedNumbers_cons_self (r : EventRow) :
    changedNumbers (r :: rows) (r :: altered) = changedNumbers rows altered := by
  ext num
  constructor
  · rintro ⟨p, mem, differs, rfl⟩
    rcases mem_cons.mp mem with rfl | later
    · exact absurd rfl differs
    · exact ⟨p, later, differs, rfl⟩
  · rintro ⟨p, mem, known⟩
    exact ⟨p, mem_cons_of_mem _ mem, known⟩

/-- With all links in place, the verifier stops at the first row that differs. -/
theorem tampered_of_linksKept (chained : Chained sha256 pid prev rows)
    (alts : List.Forall₂ (Altered pid) rows altered) (kept : List.Forall₂ LinksKept rows altered)
    (incr : rows.Pairwise fun first second => first.sequenceNr < second.sequenceNr)
    (free : CollisionFree sha256 (inputs sha256 (rowInput pid) prev (rows.map EventRow.hashed))
      (inputs sha256 (rowInput pid) prev (altered.map EventRow.hashed)))
    {first : Nat} (least : IsLeast (changedNumbers rows altered) first) (count : Nat) :
    verifyRows sha256 pid prev count altered = .tampered first := by
  induction alts generalizing prev count with
  | nil =>
    obtain ⟨_, mem, _⟩ := least.1
    cases mem
  | @cons r row' rows altered alt _ ih =>
    obtain ⟨kept, keptLater⟩ := forall₂_cons.mp kept
    obtain ⟨smallest, later⟩ := pairwise_cons.mp incr
    obtain ⟨link, _⟩ := List.cons.inj chained.links
    have pre : row'.prevHash.getD [] = prev := (congrArg (Option.getD · []) kept.1).trans (congrArg Prod.fst link)
    have hash : row'.rowHash = some (sha256 (rowInput pid prev r.hashed)) := kept.2.trans (congrArg Prod.snd link)
    by_cases hashed : row'.hashed = r.hashed
    · have eq : row' = r := by
        rw [alt.same, kept.1, kept.2]
        have p := congrArg HashedColumns.payload hashed
        have createdAt := congrArg HashedColumns.createdAt hashed
        simp only [EventRow.hashed] at p createdAt
        rw [p, createdAt]
      subst eq
      rw [changedNumbers_cons_self] at least
      have goesOn := ih (List.cons.inj chained).2 keptLater later free.tail least (count + 1)
      rw [verifyRows, if_neg (not_not.mpr pre)]
      exact (if_pos hash).trans goesOn
    · have differs : r ≠ row' := fun eq => hashed (congrArg EventRow.hashed eq.symm)
      rw [isLeast_changedNumbers_of_ne differs smallest least, verifyRows, if_neg (not_not.mpr pre),
        ← alt.sequenceNr_eq]
      refine if_neg fun stored => hashed ?_
      have inputs := free.head (Option.some.inj (hash.symm.trans stored))
      exact (rowInput_unambiguous _ _ _ _ rfl alt.sequenceNr_eq.symm inputs).2.symm

end Tampered

/-- The chain that a history of writes leaves is intact. With the last hash in place, rows of an id
that are altered and still verify are what was written, up to NULL for an empty hash; when only
payloads and times are altered, the verifier names the first row that differs. -/
theorem chain_tamper_evident {sha256 : List UInt8 → List UInt8} (fixed : ∀ x, (sha256 x).length = 32)
    {guard : SqlHistory → SqlAction → Prop} {worm : WormConfig} (hashChain : worm.hashChain = true)
    {actions : List SqlAction} {history : SqlHistory}
    (run : Run (SqlHistory.step sha256) guard (.start worm) actions history) (pid : String) :
    history.journal.verifyChain sha256 pid = .ok (.intact (history.journal.tables.rowsOf pid).length) ∧
      ∀ after : SqlJournal, Tampering pid history.journal.tables after.tables →
        CollisionFree sha256 (hashInputs sha256 pid history.journal.tables) (hashInputs sha256 pid after.tables) →
        ((after.tables.rowsOf pid).getLast?.map EventRow.rowHash =
            (history.journal.tables.rowsOf pid).getLast?.map EventRow.rowHash →
          ∀ rows, after.verifyChain sha256 pid = .ok (.intact rows) →
            (after.tables.rowsOf pid).map EventRow.asRead =
              (history.journal.tables.rowsOf pid).map EventRow.asRead) ∧
        (List.Forall₂ LinksKept (history.journal.tables.rowsOf pid) (after.tables.rowsOf pid) →
          ∀ first, IsLeast (changedNumbers (history.journal.tables.rowsOf pid) (after.tables.rowsOf pid)) first →
            after.verifyChain sha256 pid = .ok (.tampered first)) := by
  have chained := SqlHistory.chained hashChain run pid
  have incr := (SqlHistory.stored run).increasing pid
  refine ⟨?_, fun after tampering free => ⟨fun last rows intact => ?_, fun kept first least => ?_⟩⟩
  · have ordered : orderBy EventRow.sequenceNr (history.journal.tables.rowsOf pid) = history.journal.tables.rowsOf pid :=
      orderBy_of_sorted (incr.imp Nat.le_of_lt)
    rw [SqlJournal.verifyChain, ordered, verifyRows_intact_iff.mpr ⟨chained.links, rfl⟩, Nat.zero_add]
  · rw [SqlJournal.verifyChain, tampering.ordered incr, Except.ok.injEq] at intact
    exact asRead_of_intact fixed chained tampering.alterations free last intact
  · rw [SqlJournal.verifyChain, tampering.ordered incr,
      tampered_of_linksKept chained tampering.alterations kept incr free least]

def digitDigest (bytes : List UInt8) : List UInt8 :=
  littleEndian 32 (bytes.foldl (fun n byte => 257 * n + byte.toNat + 1) 0)

def SqlJournal.edit (journal : SqlJournal) (pid : String) (number : Nat) (change : EventRow → EventRow) : SqlJournal :=
  { journal with tables.eventJournal := journal.tables.eventJournal.map fun row =>
      if row.persistenceId = pid ∧ row.sequenceNr = number then change row else row }

theorem tampering_edit {pid : String} {change : EventRow → EventRow} (j : SqlJournal) (num : Nat)
    (columns : ∀ r, change r = { r with
      payload := (change r).payload, createdAt := (change r).createdAt,
      prevHash := (change r).prevHash, rowHash := (change r).rowHash }) :
    Tampering pid j.tables (j.edit pid num change).tables := by
  refine forall₂_map_right_iff.mpr (forall₂_same.mpr fun r _ => ?_)
  split
  next found => exact ⟨columns r, fun other => absurd found.1 other⟩
  · exact ⟨rfl, fun _ => rfl⟩

def chainedWrites : List SqlAction :=
  [.write quickClock [sqlMessage "p" 1 [7], sqlMessage "q" 1 []],
    .write quickClock [sqlMessage "p" 2 [8], sqlMessage "p" 3 [7]]]

theorem chain_tamper_evident_second_payload :
    ∃ history, Run (SqlHistory.step digitDigest) (fun _ _ => True) (.start ⟨true, true⟩) chainedWrites history ∧
      history.journal.verifyChain digitDigest "p" = .ok (.intact 3) ∧
      (history.journal.edit "p" 2 fun row => { row with payload := [9] }).verifyChain digitDigest "p" =
        .ok (.tampered 2) := by
  have run : Run (SqlHistory.step digitDigest) (fun _ _ => True) (.start ⟨true, true⟩) chainedWrites _ :=
    Run.of_foldlM rfl
  have evident := chain_tamper_evident (fun bytes => by simp [digitDigest]) rfl run "p"
  refine ⟨_, run, evident.1, (evident.2 _ (tampering_edit _ 2 fun _ => rfl) ?_).2 ?_ 2 ?_⟩
  · decide +kernel
  · decide +kernel
  · refine ⟨show ∃ pair ∈ _, _ by decide +kernel, fun num changed => ?_⟩
    obtain ⟨pair, mem, differs, rfl⟩ := changed
    revert pair
    decide +kernel

/-- The first row of an id has no hash before it. The empty hash in its place goes unnoticed. -/
theorem chain_empty_hash_unnoticed :
    ∃ history, Run (SqlHistory.step digitDigest) (fun _ _ => True) (.start ⟨true, true⟩) chainedWrites history ∧
      ∃ after : SqlJournal, Tampering "p" history.journal.tables after.tables ∧
        CollisionFree digitDigest (hashInputs digitDigest "p" history.journal.tables)
          (hashInputs digitDigest "p" after.tables) ∧
        (after.tables.rowsOf "p").getLast?.map EventRow.rowHash =
          (history.journal.tables.rowsOf "p").getLast?.map EventRow.rowHash ∧
        after.tables.rowsOf "p" ≠ history.journal.tables.rowsOf "p" ∧
        after.verifyChain digitDigest "p" = .ok (.intact 3) := by
  refine ⟨_, Run.of_foldlM rfl, _,
    tampering_edit _ 1 (fun _ => rfl : ∀ row : EventRow, { row with prevHash := some [] } = _), ?_⟩
  decide +kernel

end Atomr.Persistence
