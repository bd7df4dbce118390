import Atomr.Library.History
import Atomr.Library.Runs
import Atomr.Patterns.Outbox

/-! What the outbox delivers, whatever the publisher answers and wherever the loop crashes.

The offsets, those of the loop and those in the store, cover only events that were
published or cannot be decoded. The loop publishes the first event beyond its offset, so
that every publication comes after those of the events before it.
-/

namespace Atomr.Patterns

open Library Persistence List

variable {Event : Type} (decode : List UInt8 → Except String Event)

def Accepted (publications : List (Publication Event)) (env : EventEnvelope) : Prop :=
  ∃ publication ∈ publications, publication.env = env ∧ publication.ok = true

/-- A publication is of an event of the log, after all that come before it in its stream. -/
def Timely (log : EventLog) (before : List (Publication Event)) (publication : Publication Event) : Prop :=
  publication.env ∈ log.stream publication.env.persistenceId ∧
    decode publication.env.payload = .ok publication.event ∧
    ∀ held ∈ log.stream publication.env.persistenceId, held.sequenceNr < publication.env.sequenceNr →
      (decode held.payload).isOk → Accepted before held

/-- The offsets cover only events that are done. -/
def Covered (log : EventLog) (publications : List (Publication Event)) (offsets : Table String Nat) : Prop :=
  ∀ pid, log.Within pid (offsetOf offsets pid) ∧
    ∀ held ∈ log.upTo pid (offsetOf offsets pid),
      (decode held.payload).isOk → Accepted publications held

inductive Buffers (log : EventLog) (publications : List (Publication Event)) (offsets : Table String Nat) :
    OutboxPhase → Prop where
  | idle : Buffers log publications offsets .idle
  | listed {pids : List String} : Buffers log publications offsets (.listed pids)
  | reading {pid : String} {events pids}
      (buffered : log.Buffered pid (offsetOf offsets pid) events) :
      Buffers log publications offsets (.reading pid events pids)
  | published {pid : String} {env events pids}
      (buffered : log.Buffered pid (offsetOf offsets pid) (env :: events))
      (accepted : Accepted publications env) : Buffers log publications offsets (.published pid env events pids)

structure LoopInv (system : OutboxSystem Event) (loop : OutboxLoop) : Prop where
  covered : Covered decode system.log system.publications loop.pidOffsets
  ahead : ∀ pid, offsetOf system.store pid ≤ offsetOf loop.pidOffsets pid
  buffers : Buffers system.log system.publications loop.pidOffsets loop.phase

structure OutboxInv (system : OutboxSystem Event) : Prop where
  timely : Justified (Timely decode system.log) system.publications
  stored : Covered decode system.log system.publications system.store
  loop : ∀ loop ∈ system.loop, LoopInv decode system loop

variable {decode} {log log' : EventLog} {pubs : List (Publication Event)} {offsets : Table String Nat}
  {env : EventEnvelope} {events : List EventEnvelope} {pid : String} {pids : List String} {ok : Bool}
  {phase : OutboxPhase} {system after : OutboxSystem Event} {loop : OutboxLoop}
  {before : List (Publication Event)} {publication : Publication Event} {s : Table String Nat}
  {act : OutboxAction} {actions : List OutboxAction}

theorem Timely.append (timely : Timely decode log before publication) (app : log.append env = some log') :
    Timely decode log' before publication := by
  obtain ⟨hp, dec, earlier⟩ := timely
  have streams := EventLog.stream_append app publication.env.persistenceId
  refine ⟨?_, dec, fun h mem smaller => ?_⟩
  · rw [streams]
    split
    · exact mem_append_left _ hp
    · exact hp
  · rw [streams] at mem
    split at mem
    next own =>
      rcases mem_append.mp mem with old | isNew
      · exact earlier h old smaller
      -- The event just appended has a larger number than the one published.
      · have larger := (EventLog.append_later app).1 publication.env (own ▸ hp)
        cases mem_singleton.mp isNew
        omega
    · exact earlier h mem smaller

theorem Covered.append (cov : Covered decode log pubs offsets) (app : log.append env = some log') :
    Covered decode log' pubs offsets := by
  intro pid
  obtain ⟨within, done⟩ := cov pid
  obtain ⟨within', eq, _⟩ := within.append app
  exact ⟨within', eq.symm ▸ done⟩

theorem Buffers.append (buffers : Buffers log pubs offsets phase)
    (cov : Covered decode log pubs offsets) (app : log.append env = some log') :
    Buffers log' pubs offsets phase := by
  have grown := fun pid => ((cov pid).1.append app).2.2
  cases buffers with
  | idle => exact .idle
  | listed => exact .listed
  | reading buf => exact .reading (grown _ _ buf)
  | published buf acc => exact .published (grown _ _ buf) acc

theorem OutboxInv.append (inv : OutboxInv decode system) (app : system.log.append env = some log') :
    OutboxInv decode { system with log := log' } where
  timely := inv.timely.imp fun _ _ timely => timely.append app
  stored := inv.stored.append app
  loop := fun loop hr =>
    have h := inv.loop loop hr
    ⟨h.covered.append app, h.ahead, h.buffers.append h.covered app⟩

theorem offsetOf_save (ahead : ∀ pid, offsetOf s pid ≤ offsetOf offsets pid) (pid : String) :
    offsetOf (InMemoryOffsetStore.save s offsets) pid = offsetOf offsets pid := by
  have bound := ahead pid
  unfold offsetOf InMemoryOffsetStore.save at *
  rw [Table.lookup_mergeWith]
  cases h : offsets.lookup pid with
  | none =>
    rw [h] at bound
    exact Nat.le_zero.mp bound
  | some off => rfl

theorem Accepted.more (acc : Accepted pubs env) (more : List (Publication Event)) :
    Accepted (pubs ++ more) env := by
  obtain ⟨pub, mem, eq⟩ := acc
  exact ⟨pub, mem_append_left _ mem, eq⟩

theorem Covered.more (cov : Covered decode log pubs offsets) (more : List (Publication Event)) :
    Covered decode log (pubs ++ more) offsets := by
  intro pid
  obtain ⟨within, done⟩ := cov pid
  exact ⟨within, fun h mem dec => (done h mem dec).more more⟩

theorem Covered.save (cov : Covered decode log pubs offsets)
    (ahead : ∀ pid, offsetOf s pid ≤ offsetOf offsets pid) :
    Covered decode log pubs (InMemoryOffsetStore.save s offsets) := by
  intro pid
  rw [offsetOf_save ahead]
  exact cov pid

section Next

variable (buf : log.Buffered pid (offsetOf offsets pid) (env :: events))

include buf

theorem Covered.timely (cov : Covered decode log pubs offsets) {ev : Event} (ok : Bool)
    (dec : decode env.payload = .ok ev) : Timely decode log pubs ⟨env, ev, ok⟩ := by
  obtain ⟨hp, rfl, _⟩ := buf.next
  refine ⟨hp, dec, fun h mem smaller => ?_⟩
  have read : h ∈ log.upTo env.persistenceId env.sequenceNr := Cursor.mem_upTo.mpr ⟨mem, le_of_lt smaller⟩
  rw [buf.advance.1] at read
  rcases mem_append.mp read with earlier | isLast
  · exact (cov env.persistenceId).2 h earlier
  · rw [mem_singleton.mp isLast] at smaller
    exact absurd smaller (lt_irrefl _)

theorem Covered.insert (cov : Covered decode log pubs offsets)
    (done : (decode env.payload).isOk → Accepted pubs env) :
    Covered decode log pubs (offsets.insert pid env.sequenceNr) := by
  obtain ⟨upTo, within, _⟩ := buf.advance
  intro other
  rw [offsetOf_insert]
  split
  next eq =>
    subst eq
    refine ⟨within, fun h read => ?_⟩
    rw [upTo] at read
    rcases mem_append.mp read with earlier | isLast
    · exact (cov other).2 h earlier
    · rw [mem_singleton.mp isLast]
      exact done
  · exact cov other

theorem Buffers.insert (pids : List String) :
    Buffers log pubs (offsets.insert pid env.sequenceNr) (.reading pid events pids) := by
  refine .reading ?_
  rw [offsetOf_insert, if_pos rfl]
  exact buf.advance.2.2

end Next

inductive LoopEffect (decode : List UInt8 → Except String Event) (system : OutboxSystem Event) (loop : OutboxLoop) :
    OutboxSystem Event → Prop where
  | nothing : LoopEffect decode system loop system
  | moved {phase : OutboxPhase} (buffers : Buffers system.log system.publications loop.pidOffsets phase) :
      LoopEffect decode system loop (system.goOn loop phase)
  | published {pid : String} {env : EventEnvelope} {events : List EventEnvelope} {event : Event} {ok : Bool}
      {phase : OutboxPhase} (buffered : system.log.Buffered pid (offsetOf loop.pidOffsets pid) (env :: events))
      (decodes : decode env.payload = .ok event)
      (buffers : Buffers system.log (system.publications ++ [⟨env, event, ok⟩]) loop.pidOffsets phase) :
      LoopEffect decode system loop
        (OutboxSystem.goOn { system with publications := system.publications ++ [⟨env, event, ok⟩] } loop phase)
  | passed {pid : String} {env : EventEnvelope} {events : List EventEnvelope} {pids : List String} {published : Nat}
      (buffered : system.log.Buffered pid (offsetOf loop.pidOffsets pid) (env :: events))
      (done : (decode env.payload).isOk → Accepted system.publications env) :
      LoopEffect decode system loop
        (system.goOn ⟨loop.pidOffsets.insert pid env.sequenceNr, published, loop.phase⟩ (.reading pid events pids))
  | saved : LoopEffect decode system loop
      (OutboxSystem.goOn { system with store := InMemoryOffsetStore.save system.store loop.pidOffsets } loop .idle)

variable (buffered : system.log.Buffered pid (offsetOf loop.pidOffsets pid) (env :: events))
include buffered

theorem LoopEffect.of_publish (taken : system.publish decode loop pid env events pids ok = some after) :
    LoopEffect decode system loop after := by
  unfold OutboxSystem.publish at taken
  split at taken
  next ev dec =>
    cases taken
    refine .published buffered dec ?_
    cases ok with
    | false => exact .listed
    | true => exact .published buffered ⟨_, mem_append_right _ mem_cons_self, rfl, rfl⟩
  · cases taken

theorem LoopEffect.of_skip (taken : system.skip decode loop pid env events pids = some after) :
    LoopEffect decode system loop after := by
  unfold OutboxSystem.skip at taken
  split at taken
  · cases taken
  next m fails =>
    cases taken
    refine .passed buffered fun dec => ?_
    rw [fails] at dec
    cases dec
omit buffered

theorem LoopInv.effect {act : LoopAction} (h : LoopInv decode system loop) (cur : loop.phase = phase)
    (taken : system.loopStep decode loop phase act = some after) : LoopEffect decode system loop after := by
  have buffers := cur ▸ h.buffers
  unfold OutboxSystem.loopStep at taken
  split at taken
  case h_5 =>
    cases buffers with
    | reading buf => exact .of_publish buf taken
  case h_6 =>
    cases buffers with
    | reading buf => exact .of_skip buf taken
  all_goals cases taken
  case h_1 | h_4 | h_8 => exact .moved .listed
  case h_2 => exact .nothing
  case h_3 pid pids => exact .moved (.reading (system.log.buffered_after pid _))
  case h_7 =>
    cases buffers with
    | published buf acc => exact .passed buf fun _ => acc
  case h_9 => exact .saved

theorem OutboxInv.loopStep (inv : OutboxInv decode system) (h : LoopInv decode system loop)
    (eff : LoopEffect decode system loop after) : OutboxInv decode after := by
  cases eff with
  | nothing => exact inv
  | moved buffers =>
    refine ⟨inv.timely, inv.stored, ?_⟩
    rintro _ ⟨⟩
    exact ⟨h.covered, h.ahead, buffers⟩
  | @published pid env events ev ok phase buf dec buffers =>
    refine ⟨inv.timely.snoc (h.covered.timely buf ok dec), inv.stored.more _, ?_⟩
    rintro _ ⟨⟩
    exact ⟨h.covered.more _, h.ahead, buffers⟩
  | @passed pid env events pids published buf done =>
    refine ⟨inv.timely, inv.stored, ?_⟩
    rintro _ ⟨⟩
    refine ⟨h.covered.insert buf done, fun other => ?_, Buffers.insert buf pids⟩
    have bound := h.ahead other
    rw [offsetOf_insert]
    split
    next eq =>
      subst eq
      exact le_trans bound (le_of_lt buf.next.2.2)
    · exact bound
  | saved =>
    refine ⟨inv.timely, h.covered.save h.ahead, ?_⟩
    rintro _ ⟨⟩
    exact ⟨h.covered, fun pid => le_of_eq (offsetOf_save h.ahead pid), .idle⟩

theorem OutboxInv.step (inv : OutboxInv decode system) (taken : system.step decode act = some after) :
    OutboxInv decode after := by
  cases act with
  | append env =>
    obtain ⟨log, app, rfl⟩ := Option.map_eq_some_iff.mp taken
    exact inv.append app
  | start =>
    simp only [OutboxSystem.step] at taken
    split at taken
    · cases taken
      refine ⟨inv.timely, inv.stored, ?_⟩
      rintro _ ⟨⟩
      exact ⟨inv.stored, fun _ => le_refl _, .idle⟩
    · cases taken
  | loop act =>
    obtain ⟨loop, hr, taken⟩ := Option.bind_eq_some_iff.mp taken
    have h := inv.loop loop hr
    exact inv.loopStep h (h.effect rfl taken)
  | crash =>
    cases taken
    exact ⟨inv.timely, inv.stored, nofun⟩

theorem outboxInv_initial : OutboxInv decode (OutboxSystem.initial : OutboxSystem Event) where
  timely := .nil
  stored := fun _ => ⟨.inl rfl, nofun⟩
  loop := nofun

theorem reached_inv (run : Run (OutboxSystem.step decode) (fun _ _ => True) .initial actions system) :
    OutboxInv decode system :=
  run.invariant (OutboxInv decode) (fun _ _ _ inv _ taken => inv.step taken) outboxInv_initial

/-- The publications of a run are beyond the offsets that were stored before it. -/
def PublishesBeyond (system after : OutboxSystem Event) : Prop :=
  (∀ pid, offsetOf system.store pid ≤ offsetOf after.store pid) ∧
    ∃ fresh, after.publications = system.publications ++ fresh ∧
      ∀ publication ∈ fresh,
        offsetOf system.store publication.env.persistenceId < publication.env.sequenceNr

theorem PublishesBeyond.quiet (stored : ∀ pid, offsetOf system.store pid ≤ offsetOf after.store pid)
    (eq : after.publications = system.publications) : PublishesBeyond system after :=
  ⟨stored, [], by rw [eq, append_nil], nofun⟩

theorem PublishesBeyond.trans {last : OutboxSystem Event} (first : PublishesBeyond system after)
    (second : PublishesBeyond after last) : PublishesBeyond system last := by
  obtain ⟨stored, fresh, pubs, beyond⟩ := first
  obtain ⟨stored', fresh', publications', beyond'⟩ := second
  refine ⟨fun pid => le_trans (stored pid) (stored' pid), fresh ++ fresh', ?_, fun pub mem => ?_⟩
  · rw [publications', pubs, append_assoc]
  · rcases mem_append.mp mem with early | late
    · exact beyond pub early
    · exact lt_of_le_of_lt (stored _) (beyond' pub late)

theorem LoopEffect.publishesBeyond (eff : LoopEffect decode system loop after)
    (h : LoopInv decode system loop) : PublishesBeyond system after := by
  cases eff with
  | nothing | moved | passed => exact .quiet (fun _ => le_refl _) rfl
  | published buf =>
    obtain ⟨_, rfl, unread⟩ := buf.next
    refine ⟨fun _ => le_refl _, [_], rfl, fun pub mem => ?_⟩
    cases mem_singleton.mp mem
    exact lt_of_le_of_lt (h.ahead _) unread
  | saved =>
    exact .quiet (fun pid => le_trans (h.ahead pid) (le_of_eq (offsetOf_save h.ahead pid).symm)) rfl

theorem publishesBeyond_step (inv : OutboxInv decode system) (taken : system.step decode act = some after) :
    PublishesBeyond system after := by
  cases act with
  | append env =>
    obtain ⟨log, app, rfl⟩ := Option.map_eq_some_iff.mp taken
    exact .quiet (fun _ => le_refl _) rfl
  | start =>
    simp only [OutboxSystem.step] at taken
    split at taken <;> cases taken
    exact .quiet (fun _ => le_refl _) rfl
  | loop act =>
    obtain ⟨loop, hr, taken⟩ := Option.bind_eq_some_iff.mp taken
    have h := inv.loop loop hr
    exact (h.effect rfl taken).publishesBeyond h
  | crash =>
    cases taken
    exact .quiet (fun _ => le_refl _) rfl

theorem publishesBeyond_run (inv : OutboxInv decode system)
    (run : Run (OutboxSystem.step decode) (fun _ _ => True) system actions after) : PublishesBeyond system after :=
  run.relation PublishesBeyond (fun _ _ => trivial) (fun _ _ _ (inv : OutboxInv decode _) _ taken => inv.step taken)
    (fun _ => .quiet (fun _ => le_refl _) rfl)
    (fun _ _ _ _ inv _ (_ : True) taken later => (publishesBeyond_step inv taken).trans later) inv

structure Delivery (decode : List UInt8 → Except String Event) (system : OutboxSystem Event) : Prop where
  published : ∀ publication ∈ system.publications,
    publication.env ∈ system.log.stream publication.env.persistenceId ∧
      decode publication.env.payload = .ok publication.event
  /-- An event that is published for the first time comes after all that were published before. -/
  inOrder : ∀ before publication later, system.publications = before ++ publication :: later →
    (∀ earlier ∈ before, earlier.env ≠ publication.env) →
    ∀ earlier ∈ before, earlier.env.persistenceId = publication.env.persistenceId →
      earlier.env.sequenceNr < publication.env.sequenceNr
  afterEarlier : ∀ before publication later, system.publications = before ++ publication :: later →
    ∀ held ∈ system.log.stream publication.env.persistenceId, held.sequenceNr < publication.env.sequenceNr →
      (decode held.payload).isOk → Accepted before held
  skipped : ∀ pid, ∀ held ∈ system.log.stream pid,
    held.sequenceNr ≤ offsetOf system.store pid ∨
      (∃ loop ∈ system.loop, held.sequenceNr ≤ offsetOf loop.pidOffsets pid) →
    (decode held.payload).isOk → Accepted system.publications held

theorem OutboxInv.inOrder (inv : OutboxInv decode system) {later : List (Publication Event)}
    {earlier : Publication Event} (cut : system.publications = before ++ publication :: later)
    (first : ∀ earlier ∈ before, earlier.env ≠ publication.env) (mem : earlier ∈ before)
    (own : earlier.env.persistenceId = publication.env.persistenceId) :
    earlier.env.sequenceNr < publication.env.sequenceNr := by
  obtain ⟨hp, dec, _⟩ := inv.timely before publication later cut
  have just : Justified (Timely decode system.log) before := (cut ▸ inv.timely).left
  obtain ⟨start, part, present', _, done⟩ := just.of_mem mem
  rw [own] at present' done
  rcases lt_trichotomy earlier.env.sequenceNr publication.env.sequenceNr with smaller | eq | larger
  · exact smaller
  · exact absurd ((system.log.increasing _).eq_of_number_eq present' hp eq) (first earlier mem)
  -- Otherwise the event would have been published before the later one.
  · obtain ⟨acc, isPart, eq, _⟩ := done publication.env hp larger (dec ▸ rfl)
    exact absurd eq (first acc (part isPart))

theorem OutboxInv.delivery (inv : OutboxInv decode system) : Delivery decode system where
  published := fun pub mem => by
    obtain ⟨_, _, hp, dec, _⟩ := inv.timely.of_mem mem
    exact ⟨hp, dec⟩
  inOrder := fun _ _ _ cut first _ mem own => inv.inOrder cut first mem own
  afterEarlier := fun pre pub later cut => (inv.timely pre pub later cut).2.2
  skipped := fun pid h mem passed => by
    rcases passed with stored | ⟨loop, hr, passed⟩
    · exact (inv.stored pid).2 h (Cursor.mem_upTo.mpr ⟨mem, stored⟩)
    · exact ((inv.loop loop hr).covered pid).2 h (Cursor.mem_upTo.mpr ⟨mem, passed⟩)

theorem outbox_delivers {actions later : List OutboxAction} {middle : OutboxSystem Event}
    (run : Run (OutboxSystem.step decode) (fun _ _ => True) .initial actions middle)
    (rest : Run (OutboxSystem.step decode) (fun _ _ => True) middle later system) :
    Delivery decode system ∧ ∃ fresh, system.publications = middle.publications ++ fresh ∧
      ∀ publication ∈ fresh, offsetOf middle.store publication.env.persistenceId < publication.env.sequenceNr := by
  have inv := reached_inv run
  have inv' : OutboxInv decode system :=
    rest.invariant (OutboxInv decode) (fun _ _ _ inv _ taken => inv.step taken) inv
  exact ⟨inv'.delivery, (publishesBeyond_run inv rest).2⟩

def decodeSome (payload : List UInt8) : Except String (List UInt8) :=
  if payload.isEmpty then .error "empty" else .ok payload

/-- The loop crashes between the publication of the first event and the record of its
offset. The next one publishes the event again, skips the second, has the third refused,
saves, and crashes. -/
def crashedTwice : List OutboxAction :=
  [.append ⟨"a", 1, [7], [], "Created"⟩, .append ⟨"a", 2, [], [], "Broken"⟩, .append ⟨"a", 3, [8], [], "Changed"⟩,
    .start, .loop (.list ["a"]), .loop .read, .loop (.publish true), .crash,
    .start, .loop (.list ["a"]), .loop .read, .loop (.publish true), .loop .record, .loop .skip,
    .loop (.publish false), .loop .save, .crash]

def resumed : List OutboxAction :=
  [.start, .loop (.list ["a"]), .loop .read, .loop (.publish true), .loop .record, .loop .next, .loop .save]

theorem outbox_delivers_crashed_twice :
    ∃ middle system, Run (OutboxSystem.step decodeSome) (fun _ _ => True) .initial crashedTwice middle ∧
      Run (OutboxSystem.step decodeSome) (fun _ _ => True) middle resumed system ∧
      offsetOf middle.store "a" = 2 ∧ offsetOf system.store "a" = 3 ∧
      system.publications.map (fun publication => (publication.env.sequenceNr, publication.ok)) =
        [(1, true), (1, true), (3, false), (3, true)] ∧
      Delivery decodeSome system ∧ ∃ fresh, system.publications = middle.publications ++ fresh ∧
        ∀ publication ∈ fresh, offsetOf middle.store publication.env.persistenceId < publication.env.sequenceNr := by
  have run : Run (OutboxSystem.step decodeSome) (fun _ _ => True) .initial crashedTwice _ := Run.of_foldlM rfl
  exact ⟨_, _, run, Run.of_foldlM rfl, rfl, rfl, rfl,
    @outbox_delivers _ decodeSome _ crashedTwice resumed _ run (Run.of_foldlM rfl)⟩

end Atomr.Patterns
