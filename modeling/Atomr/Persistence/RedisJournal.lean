import Atomr.Library.KeyList
import Atomr.Library.Runs
import Atomr.Library.SortedSet
import Atomr.Library.Text
import Atomr.Persistence.Journal
import Mathlib.Data.String.Basic

/-! The journal on Redis sorted sets.

The messages of an id are the members of one set, with their numbers as scores. The next number
is taken from the size of the set. Redis itself does not fail here, and a transaction is applied
as a whole.
-/

namespace Atomr.Persistence

open Library SortedSet List

structure StoredRepr where
  persistenceId : String
  sequenceNr : Nat
  payloadB64 : String
  manifest : String
  writerUuid : String
  deleted : Bool
  tags : List String

def StoredRepr.ofRepr (b64Encode : List UInt8 → String) (r : PersistentRepr) : StoredRepr where
  persistenceId := r.persistenceId
  sequenceNr := r.sequenceNr
  payloadB64 := b64Encode r.payload
  manifest := r.manifest
  writerUuid := r.writerUuid
  deleted := r.deleted
  tags := r.tags

/-- The libraries for base 64 and JSON. In the texts the numbers can be told apart. -/
structure JsonText where
  b64Encode : List UInt8 → String
  toJson : StoredRepr → String
  decode : String → Except JournalError PersistentRepr
  sequenceNr_eq : ∀ first second, first.persistenceId = second.persistenceId → toJson first = toJson second →
    first.sequenceNr = second.sequenceNr

def JsonText.encode (json : JsonText) (repr : PersistentRepr) : String := json.toJson (.ofRepr json.b64Encode repr)

/-- Scores are floating point numbers: a whole number is rounded to 53 bits, ties to even. -/
def asF64 (n : Nat) : Nat :=
  let unit := 2 ^ (n.log2 - 52)
  let kept := n / unit
  let rest := n % unit
  (if unit < 2 * rest ∨ unit = 2 * rest ∧ kept % 2 = 1 then kept + 1 else kept) * unit

def asU64 (score : Nat) : Nat := min score (2 ^ 64 - 1)

theorem asF64_of_lt {n : Nat} (small : n < 2 ^ 53) : asF64 n = n := by
  have bits : n.log2 ≤ 52 := by
    by_cases zero : n = 0
    · simp [zero]
    · exact Nat.lt_succ_iff.mp ((Nat.log2_lt zero).mpr small)
  simp [asF64, Nat.sub_eq_zero_of_le bits, Nat.mod_one]

structure RedisConfig where
  keyPrefix : String

namespace RedisConfig

variable (cfg : RedisConfig)

def journalKey (pid : String) : String := cfg.keyPrefix ++ (":journal:" ++ pid)

def tagKey (tag : String) : String := cfg.keyPrefix ++ (":tag:" ++ tag)

theorem journalKey_ne_tagKey (pid tg : String) : cfg.journalKey pid ≠ cfg.tagKey tg := by
  intro eq
  have suffixes := (String.append_right_inj cfg.keyPrefix).mp eq
  -- The suffixes differ in their second character.
  have letters := congrArg (fun s : String => s.toList[1]?) suffixes
  simp [String.toList_append] at letters

end RedisConfig

/-- The sorted sets of the server by key; a key without a set reads as the empty one. -/
abbrev RedisStore := Table String (SortedSet String Nat)

namespace RedisStore

variable (store : RedisStore)

def get (key : String) : SortedSet String Nat := (store.lookup key).getD ∅

def update (key : String) (change : SortedSet String Nat → SortedSet String Nat) : RedisStore :=
  store.upsert key fun held => change (held.getD ∅)

theorem get_update (k other : String) (change : SortedSet String Nat → SortedSet String Nat) :
    get (store.update other change) k = if k = other then change (get store k) else get store k := by
  rw [get, update, Table.lookup_upsert_if]
  split
  next eq => rw [eq]; rfl
  · rfl

end RedisStore

structure RedisJournal where
  store : RedisStore
  cfg : RedisConfig

namespace RedisJournal

def checkNumbers : (expected : Nat) → List PersistentRepr → Except JournalError Unit
  | _, [] => .ok ()
  | expected, msg :: rest =>
    if msg.sequenceNr ≠ expected then .error (.sequenceOutOfOrder expected msg.sequenceNr)
    else checkNumbers (expected + 1) rest

def tagMember (msg : PersistentRepr) : String := msg.persistenceId ++ ":" ++ msg.sequenceNr.repr

def addMessage (json : JsonText) (cfg : RedisConfig) (key : String) (store : RedisStore) (msg : PersistentRepr) : RedisStore :=
  let store := store.update key fun set => set.zadd .nx (asF64 msg.sequenceNr) (json.encode msg)
  msg.tags.foldl (fun store tag =>
    RedisStore.update store (cfg.tagKey tag) fun set => set.zadd .nx (asF64 msg.sequenceNr) (tagMember msg)) store

/-- One transaction for each id; an error leaves those of earlier ids in place. -/
def writeGroups (json : JsonText) (cfg : RedisConfig) :
    RedisStore → List (String × List PersistentRepr) → RedisStore × Except JournalError Unit
  | store, [] => (store, .ok ())
  | store, (pid, batch) :: rest =>
    let key := cfg.journalKey pid
    match checkNumbers ((store.get key).zcard + 1) batch with
    | .error error => (store, .error error)
    | .ok () => writeGroups json cfg (batch.foldl (addMessage json cfg key) store) rest

def writeMessages (json : JsonText) (journal : RedisJournal) (messages : List PersistentRepr) : RedisJournal × Except JournalError Unit :=
  if messages.isEmpty then (journal, .ok ())
  else
    let (store, result) := writeGroups json journal.cfg journal.store (KeyList.group PersistentRepr.persistenceId messages)
    ({ journal with store }, result)

/-- The changed text is no member yet, so that the first command of a round changes nothing. -/
def deleteMembers (json : JsonText) (key : String) :
    RedisStore → List String → RedisStore × Except JournalError Unit
  | store, [] => (store, .ok ())
  | store, raw :: rest =>
    match json.decode raw with
    | .error error => (store, .error error)
    | .ok repr =>
      let store := store.update key fun set =>
        set.zadd .xx (asF64 repr.sequenceNr) (json.encode { repr with deleted := true })
      deleteMembers json key (store.update key fun set => set.zrem raw) rest

def deleteMessagesTo (json : JsonText) (journal : RedisJournal)
    (persistenceId : String) (toSequenceNr : Nat) : RedisJournal × Except JournalError Unit :=
  let key := journal.cfg.journalKey persistenceId
  let members := (journal.store.get key).zrangebyscore 0 (asF64 toSequenceNr)
  let (store, result) := deleteMembers json key journal.store members
  ({ journal with store }, result)

def highestSequenceNr (journal : RedisJournal) (persistenceId : String) : Except JournalError Nat :=
  let members := (journal.store.get (journal.cfg.journalKey persistenceId)).zrange (-1) (-1)
  .ok ((members.head?.map fun entry => asU64 entry.2).getD 0)

theorem checkNumbers_eq_ok {exp : Nat} {bt : List PersistentRepr} :
    checkNumbers exp bt = .ok () ↔
      bt.map PersistentRepr.sequenceNr = List.range' exp bt.length := by
  induction bt generalizing exp with
  | nil => exact ⟨fun _ => rfl, fun _ => rfl⟩
  | cons m rest ih =>
    rw [checkNumbers, map_cons, length_cons, List.range'_succ, List.cons.injEq]
    split
    next wrong => exact ⟨nofun, fun known => absurd known.1 wrong⟩
    next right => rw [ih, and_iff_right (not_not.mp right)]

/-- The messages with the numbers from one on are the members, each with its number as its score. -/
structure Numbered (json : JsonText) (pid : String) (set : SortedSet String Nat) (count : Nat) : Prop where
  members : ∀ text score, set.lookup text = some score →
    score ≤ count ∧ ∃ msg, text = json.encode msg ∧ msg.persistenceId = pid ∧ msg.sequenceNr = score
  card : set.zcard = count
  top : count = 0 ∨ ∃ text, set.lookup text = some count

namespace Numbered

variable {json : JsonText} {pid : String} {set : SortedSet String Nat} {count : Nat}

theorem empty (json : JsonText) (pid : String) : Numbered json pid ∅ 0 := ⟨nofun, rfl, .inl rfl⟩

theorem add (numbered : Numbered json pid set count) {m : PersistentRepr} (id : m.persistenceId = pid)
    (next : m.sequenceNr = count + 1) : Numbered json pid (set.zadd .nx (count + 1) (json.encode m)) (count + 1) := by
  have fresh : json.encode m ∉ set := by
    rw [← AList.lookup_isSome, Option.isSome_iff_exists]
    rintro ⟨score, h⟩
    obtain ⟨bound, other, tx, otherId, rfl⟩ := numbered.members _ _ h
    have eq : m.sequenceNr = other.sequenceNr := json.sequenceNr_eq _ _ (id.trans otherId.symm) tx
    omega
  rw [zadd_nx fresh]
  refine ⟨fun tx score h => ?_, ?_, .inr ⟨json.encode m, AList.lookup_insert _⟩⟩
  · rw [Table.lookup_insert_if] at h
    split at h
    next eq =>
      cases h
      exact ⟨le_rfl, m, eq, id, next⟩
    · obtain ⟨bound, known⟩ := numbered.members _ _ h
      exact ⟨Nat.le_succ_of_le bound, known⟩
  · rw [zcard_insert fresh, numbered.card]

/-- The last member in the order of the scores is the one with the last number. -/
theorem zrange_last_score (numbered : Numbered json pid set count) :
    ((set.zrange (-1) (-1)).head?.map Prod.snd).getD 0 = count := by
  rw [zrange_last]
  cases found : set.inOrder.getLast? with
  | none =>
    have none : set.inOrder = [] := List.getLast?_eq_none_iff.mp found
    rw [← numbered.card, ← length_inOrder, none]
    rfl
  | some last =>
    have h := mem_inOrder.mp (mem_of_getLast? found)
    have upper := (numbered.members _ _ h).1
    have lower : count ≤ last.2 := by
      rcases numbered.top with zero | ⟨tx, top⟩
      · omega
      · have mem : (tx, count) ∈ set.inOrder := mem_inOrder.mpr top
        exact le_of_getLast? found mem
    exact le_antisymm upper lower

end Numbered

section Writing
variable {json : JsonText} {cfg : RedisConfig} {s : RedisStore} {pid : String} {count : Nat}

theorem get_addMessage (json : JsonText) (cfg : RedisConfig) (s : RedisStore) (pid : String) (m : PersistentRepr) :
    (addMessage json cfg (cfg.journalKey pid) s m).get (cfg.journalKey pid) =
      (s.get (cfg.journalKey pid)).zadd .nx (asF64 m.sequenceNr) (json.encode m) := by
  have tags : ∀ (tags : List String) (s : RedisStore), RedisStore.get (tags.foldl (fun s tg =>
      RedisStore.update s (cfg.tagKey tg) fun set => set.zadd .nx (asF64 m.sequenceNr) (tagMember m)) s)
        (cfg.journalKey pid) = s.get (cfg.journalKey pid) := by
    intro tags
    induction tags with
    | nil => exact fun _ => rfl
    | cons tg rest ih =>
      intro s
      rw [foldl_cons, ih, RedisStore.get_update, if_neg (cfg.journalKey_ne_tagKey pid tg)]
  rw [addMessage, tags, RedisStore.get_update, if_pos rfl]

theorem numbered_addMessages (numbered : Numbered json pid (s.get (cfg.journalKey pid)) count)
    {bt : List PersistentRepr} (ids : ∀ m ∈ bt, m.persistenceId = pid ∧ m.sequenceNr < 2 ^ 53)
    (nums : bt.map PersistentRepr.sequenceNr = List.range' (count + 1) bt.length) :
    Numbered json pid (RedisStore.get (bt.foldl (addMessage json cfg (cfg.journalKey pid)) s) (cfg.journalKey pid))
      (count + bt.length) := by
  induction bt generalizing s count with
  | nil => exact numbered
  | cons m rest ih =>
    obtain ⟨here, later⟩ := forall_mem_cons.mp ids
    rw [map_cons, length_cons, List.range'_succ, List.cons.injEq] at nums
    rw [length_cons, add_comm rest.length, ← add_assoc]
    refine ih ?_ later nums.2
    rw [get_addMessage, asF64_of_lt here.2, nums.1]
    exact numbered.add here.1 nums.1

variable {msgs : List PersistentRepr}

/-- A call with messages of one id checks their numbers and adds all of them, or does nothing. -/
theorem writeMessages_of_id (json : JsonText) (j : RedisJournal) (ids : ∀ m ∈ msgs, m.persistenceId = pid) :
    j.writeMessages json msgs =
      match checkNumbers ((j.store.get (j.cfg.journalKey pid)).zcard + 1) msgs with
      | .error err => (j, .error err)
      | .ok () =>
        ({ j with store := msgs.foldl (addMessage json j.cfg (j.cfg.journalKey pid)) j.store },
          .ok ()) := by
  unfold writeMessages
  split
  next none =>
    rw [isEmpty_iff.mp none]
    rfl
  next some =>
    rw [KeyList.group_of_forall _ (mt isEmpty_iff.mpr some) ids, writeGroups]
    cases checkNumbers ((j.store.get (j.cfg.journalKey pid)).zcard + 1) msgs <;> rfl

theorem writeMessages_ok_iff {j : RedisJournal}
    (numbered : Numbered json pid (j.store.get (j.cfg.journalKey pid)) count)
    (ids : ∀ m ∈ msgs, m.persistenceId = pid) :
    (j.writeMessages json msgs).2 = .ok () ↔
      msgs.map PersistentRepr.sequenceNr = List.range' (count + 1) msgs.length := by
  rw [writeMessages_of_id json j ids, numbered.card, ← checkNumbers_eq_ok]
  split
  next err failed => rw [failed]
  next passed => rw [passed]

end Writing

end RedisJournal

structure RedisHistory where
  journal : RedisJournal
  written : List Nat

inductive RedisAction where
  | write (messages : List PersistentRepr)
  | delete (toSequenceNr : Nat)

namespace RedisHistory

def start (cfg : RedisConfig) : RedisHistory := ⟨⟨∅, cfg⟩, []⟩

def step (json : JsonText) (pid : String) (history : RedisHistory) :
    RedisAction → Option RedisHistory
  | .write messages =>
    match history.journal.writeMessages json messages with
    | (journal, .ok ()) => some ⟨journal, history.written ++ messages.map PersistentRepr.sequenceNr⟩
    | (journal, .error _) => some ⟨journal, history.written⟩
  | .delete toSequenceNr => some { history with journal := (history.journal.deleteMessagesTo json pid toSequenceNr).1 }

/-- Writes are for the id, with numbers that are exact as scores. -/
def OnId (pid : String) : RedisAction → Prop
  | .write messages => ∀ msg ∈ messages, msg.persistenceId = pid ∧ msg.sequenceNr < 2 ^ 53
  | .delete _ => True

instance (pid : String) (action : RedisAction) : Decidable (OnId pid action) := by
  cases action <;> unfold OnId <;> infer_instance

def FindsNothing (pid : String) (history : RedisHistory) : RedisAction → Prop
  | .write _ => True
  | .delete toSequenceNr =>
    (history.journal.store.get (history.journal.cfg.journalKey pid)).zrangebyscore 0 (asF64 toSequenceNr) = []

instance (pid : String) (history : RedisHistory) (action : RedisAction) :
    Decidable (FindsNothing pid history action) := by
  cases action <;> unfold FindsNothing <;> infer_instance

def largest (history : RedisHistory) : Nat := history.written.max?.getD 0

/-- The numbers from one on were written, and are all there. -/
structure Whole (json : JsonText) (pid : String) (history : RedisHistory) (count : Nat) : Prop where
  written : history.written = List.range' 1 count
  small : count < 2 ^ 53
  numbered : RedisJournal.Numbered json pid (history.journal.store.get (history.journal.cfg.journalKey pid)) count

section Runs
variable {json : JsonText} {pid : String} {count : Nat} {history : RedisHistory}
  {next : RedisHistory}

theorem Whole.write (whole : Whole json pid history count) {msgs : List PersistentRepr}
    (onId : OnId pid (.write msgs)) (taken : step json pid history (.write msgs) = some next) :
    ∃ count, Whole json pid next count := by
  have ids := fun m mem => (onId m mem).1
  rw [step, RedisJournal.writeMessages_of_id _ _ ids, whole.numbered.card] at taken
  split at taken
  next j res =>
    cases taken
    split at res
    · cases res
    next passed =>
      cases res
      have nums := RedisJournal.checkNumbers_eq_ok.mp passed
      refine ⟨count + msgs.length, ?_, ?_, RedisJournal.numbered_addMessages whole.numbered onId nums⟩
      · rw [whole.written, nums, add_comm count, List.range'_append_1]
      · by_cases none : msgs.length = 0
        · rw [none]
          exact whole.small
        · -- The last number is that of a message.
          have last : count + msgs.length ∈ msgs.map PersistentRepr.sequenceNr := by
            rw [nums, mem_range'_1]
            omega
          obtain ⟨m, mem, eq⟩ := mem_map.mp last
          exact eq ▸ (onId m mem).2
  next j err res =>
    cases taken
    split at res
    · cases res
      exact ⟨count, whole.written, whole.small, whole.numbered⟩
    · cases res

theorem Whole.delete (whole : Whole json pid history count) {toNr : Nat}
    (nothing : FindsNothing pid history (.delete toNr))
    (taken : step json pid history (.delete toNr) = some next) : Whole json pid next count := by
  rw [step, RedisJournal.deleteMessagesTo, nothing] at taken
  cases taken
  exact ⟨whole.written, whole.small, whole.numbered⟩

theorem whole {cfg : RedisConfig} {acts : List RedisAction}
    (run : Run (step json pid) (fun history act => OnId pid act ∧ FindsNothing pid history act)
      (start cfg) acts history) : ∃ count, Whole json pid history count := by
  refine run.invariant (fun history => ∃ count, Whole json pid history count) ?_ ⟨0, rfl, by decide, .empty json pid⟩
  rintro pre act post ⟨count, whole⟩ ⟨onId, nothing⟩ taken
  cases act with
  | write msgs => exact whole.write onId taken
  | delete toNr => exact ⟨count, whole.delete nothing taken⟩

theorem Whole.largest_eq (whole : Whole json pid history count) : history.largest = count := by
  rw [largest, whole.written, max?_range']
  split
  next none => exact none.symm
  · rfl

theorem Whole.highest (whole : Whole json pid history count) : history.journal.highestSequenceNr pid = .ok count := by
  have last := congrArg asU64 whole.numbered.zrange_last_score
  have exact : asU64 count = count := min_eq_left (by have := whole.small; omega)
  rw [exact] at last
  refine congrArg Except.ok (Eq.trans ?_ last)
  cases ((history.journal.store.get (history.journal.cfg.journalKey pid)).zrange (-1) (-1)).head? <;> rfl

/-- As long as deletions find nothing, the highest number is the largest one that was written, the
numbers after it are accepted, and a number that was used is not. -/
theorem numbers_not_reused {cfg : RedisConfig} {actions : List RedisAction} {history : RedisHistory}
    (run : Run (step json pid) (fun history action => OnId pid action ∧ FindsNothing pid history action)
      (start cfg) actions history) :
    history.journal.highestSequenceNr pid = .ok history.largest ∧
      ∀ messages : List PersistentRepr, (∀ msg ∈ messages, msg.persistenceId = pid) →
        (messages.map PersistentRepr.sequenceNr = List.range' (history.largest + 1) messages.length →
          (history.journal.writeMessages json messages).2 = .ok ()) ∧
        ((∃ msg ∈ messages, msg.sequenceNr ∈ history.written) →
          ∃ error, (history.journal.writeMessages json messages).2 = .error error) := by
  obtain ⟨count, whole⟩ := whole run
  rw [whole.largest_eq]
  refine ⟨whole.highest, fun messages ids => ⟨fun next => ?_, fun used => ?_⟩⟩
  · exact (RedisJournal.writeMessages_ok_iff whole.numbered ids).mpr next
  · obtain ⟨msg, mem, old⟩ := used
    rw [whole.written, mem_range'_1] at old
    cases outcome : (history.journal.writeMessages json messages).2 with
    | error error => exact ⟨error, rfl⟩
    | ok _ =>
      -- An accepted batch has the next numbers only.
      have nums := (RedisJournal.writeMessages_ok_iff whole.numbered ids).mp outcome
      have new : msg.sequenceNr ∈ List.range' (count + 1) messages.length := nums ▸ mem_map_of_mem mem
      rw [mem_range'_1] at new
      omega

end Runs

end RedisHistory

def redisMessage (sequenceNr : Nat) : PersistentRepr := ⟨"p", sequenceNr, [7], "m", "w", false, ["t"]⟩

theorem splitOnce_number (n : Nat) (rest : String) :
    Text.splitOnce [','] (n.repr ++ ("," ++ rest)).toList = some (n.repr.toList, rest.toList) := by
  have digits : ',' ∉ n.repr.toList := fun mem => by
    have bounds := Text.digit_bounds mem
    revert bounds
    decide
  rw [String.toList_append, String.toList_append]
  exact Text.splitOnce_of_not_mem digits _

/-- The texts of such messages. Nothing in them has to be escaped. -/
def plainJson : JsonText where
  b64Encode _ := "Bw=="
  toJson stored := "\x7b\x22persistence_id\x22:\x22" ++ (stored.persistenceId ++ ("\x22,\x22sequence_nr\x22:" ++
    (stored.sequenceNr.repr ++ ("," ++ ("\x22payload_b64\x22:\x22" ++ stored.payloadB64 ++ "\x22,\x22manifest\x22:\x22" ++
      stored.manifest ++ "\x22,\x22writer_uuid\x22:\x22" ++ stored.writerUuid ++ "\x22,\x22deleted\x22:" ++
      (if stored.deleted then "true" else "false") ++ ",\x22tags\x22:[\x22" ++ "\x22,\x22".intercalate stored.tags ++
      "\x22]\x7d")))))
  decode _ := .ok (redisMessage 1)
  sequenceNr_eq first second ids same := by
    rw [ids] at same
    have numbers := (String.append_right_inj _).mp ((String.append_right_inj _).mp ((String.append_right_inj _).mp same))
    have cut := congrArg (fun text : String => Text.splitOnce [','] text.toList) numbers
    simp only [splitOnce_number, Option.some.injEq, Prod.mk.injEq] at cut
    have digits := congrArg (fun digits => Nat.ofDigitChars 10 digits 0) cut.1
    simpa only [Nat.toList_repr, Nat.ofDigitChars_ten_toDigits] using digits

def keptWrites : List RedisAction :=
  [.delete 5, .write [redisMessage 1, redisMessage 2], .write [redisMessage 2], .delete 0]

theorem numbers_not_reused_two :
    ∃ history, Run (RedisHistory.step plainJson "p")
        (fun history action => RedisHistory.OnId "p" action ∧ RedisHistory.FindsNothing "p" history action)
        (.start ⟨"atomr"⟩) keptWrites history ∧
      history.journal.highestSequenceNr "p" = .ok 2 ∧
      (history.journal.writeMessages plainJson [redisMessage 3]).2 = .ok () ∧
      ∃ error, (history.journal.writeMessages plainJson [redisMessage 1]).2 = .error error := by
  have executed : ∃ history, Run (RedisHistory.step plainJson "p")
      (fun history action => RedisHistory.OnId "p" action ∧ RedisHistory.FindsNothing "p" history action)
      (.start ⟨"atomr"⟩) keptWrites history ∧ history.written = [1, 2] :=
    Run.exists_of_foldlM (by decide +kernel)
  obtain ⟨history, run, written⟩ := executed
  obtain ⟨highest, writes⟩ := RedisHistory.numbers_not_reused run
  rw [RedisHistory.largest, written] at highest writes
  refine ⟨history, run, highest, (writes [redisMessage 3] ?_).1 rfl, (writes [redisMessage 1] ?_).2 ?_⟩
  all_goals decide

/-- After a deletion the journal has no highest number any more and takes the deleted one again. -/
theorem number_reused_after_deletion :
    ∃ history, Run (RedisHistory.step plainJson "p") (fun _ action => RedisHistory.OnId "p" action)
        (.start ⟨"atomr"⟩) [.write [redisMessage 1], .delete 1] history ∧
      history.largest = 1 ∧ history.journal.highestSequenceNr "p" = .ok 0 ∧
      (history.journal.writeMessages plainJson [redisMessage 2]).2 = .error (.sequenceOutOfOrder 1 2) ∧
      (history.journal.writeMessages plainJson [redisMessage 1]).2 = .ok () :=
  Run.exists_of_foldlM (by decide +kernel)

end Atomr.Persistence
