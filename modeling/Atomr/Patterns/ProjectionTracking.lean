import Atomr.Library.Runs
import Atomr.Patterns.ProjectionReader

/-! When a projection holds every event once.

What a rebuild has applied beyond the poller's offset is applied again by the poller, and
what the poller applies to an id that the rebuild has still to do is applied again by the
rebuild. Where the two keep apart, what has been applied since the last reset is, for each
id, the wanted part of the stream up to the poller's offset, or nothing yet.
-/

namespace Atomr.Patterns

open Library Persistence List Bool

variable {Event Projection : Type}

def PollPhase.nextEvent : PollPhase → Option EventEnvelope
  | .reading _ (env :: _) _ _ => some env
  | _ => none

def RebuildPhase.nextId : RebuildPhase → Option String
  | .listed (pid :: _) _ => some pid
  | _ => none

def RebuildPhase.nextEvent : RebuildPhase → Option EventEnvelope
  | .reading _ (env :: _) _ _ => some env
  | _ => none

def RebuildPhase.past (pid : String) : RebuildPhase → Prop
  | .reset => False
  | .listed pids _ => pid ∉ pids
  | .reading current _ pids _ => pid ∉ current :: pids

instance (pid : String) (phase : RebuildPhase) : Decidable (phase.past pid) := by
  cases phase <;> unfold RebuildPhase.past <;> infer_instance

def ReaderFilter.distinct : ReaderFilter → Prop
  | .persistenceIds ids => ids.Nodup
  | _ => True

instance (filter : ReaderFilter) : Decidable filter.distinct := by
  cases filter <;> unfold ReaderFilter.distinct <;> infer_instance

/-- Events can be decoded, no rebuild fails, and poller and rebuild keep apart: one rebuild
at a time, over distinct ids; it reads an id only when the poller has passed all the events
the reader wants of it; the poller applies no event of an id that the rebuild still has to
do; and a poll round does not end during a rebuild. -/
def Apart (reader : Reader Event Projection) (system : ReaderSystem Projection) : ReaderAction → Prop
  | .append env => (reader.decoded env).isOk
  | .reset | .poll .finish => system.rebuilds = []
  | .poll .event => ∀ env ∈ system.poll.nextEvent, reader.filter.admits env →
      ∀ phase ∈ system.rebuilds, phase.past env.persistenceId
  | .rebuild _ (.list _) => reader.filter.distinct
  | .rebuild index .read => ∀ phase ∈ system.rebuilds[index]?, ∀ pid ∈ phase.nextId,
      ∀ env ∈ system.log.stream pid, reader.filter.admits env → env.sequenceNr ≤ system.cursor pid
  | .rebuild _ .fail => False
  | .rebuild index .event => ∀ phase ∈ system.rebuilds[index]?, ∀ env ∈ phase.nextEvent,
      reader.filter.admits env → (reader.registered env).any Except.isOk
  | _ => True

instance (reader : Reader Event Projection) (system : ReaderSystem Projection) (action : ReaderAction) :
    Decidable (Apart reader system action) := by
  unfold Apart; split <;> infer_instance

def ofId (pid : String) (applied : List EventEnvelope) : List EventEnvelope :=
  applied.filter fun env => env.persistenceId = pid

/-- The events of an id that the poller has passed and the reader wants. -/
def due (reader : Reader Event Projection) (system : ReaderSystem Projection) (pid : String) : List EventEnvelope :=
  (system.log.upTo pid (system.cursor pid)).filter reader.wants

/-- What has been applied since the last reset, against what is due: everything, or, with
a rebuild under way, everything for the ids it has done and nothing for those to come. -/
inductive Progress (reader : Reader Event Projection) (due : String → List EventEnvelope)
    (applied : List EventEnvelope) : List RebuildPhase → Prop where
  | quiet (done : ∀ pid, ofId pid applied = due pid) : Progress reader due applied []
  | reset (nothing : applied = []) : Progress reader due applied [.reset]
  | listed {pids : List String} {maxSeq : Nat} (distinct : pids.Nodup)
      (selected : ∀ pid ∈ pids, reader.filter.selects pid) (pending : ∀ pid ∈ pids, ofId pid applied = [])
      (done : ∀ pid, pid ∉ pids → ofId pid applied = due pid) : Progress reader due applied [.listed pids maxSeq]
  | reading {current : String} {events : List EventEnvelope} {pids : List String} {maxSeq : Nat}
      (distinct : (current :: pids).Nodup) (selected : ∀ pid ∈ current :: pids, reader.filter.selects pid)
      (members : ∀ env ∈ events, env.persistenceId = current) (pending : ∀ pid ∈ pids, ofId pid applied = [])
      (partly : ofId current applied ++ events.filter reader.wants = due current)
      (done : ∀ pid, pid ∉ current :: pids → ofId pid applied = due pid) :
      Progress reader due applied [.reading current events pids maxSeq]

inductive Polls (reader : Reader Event Projection) (log : EventLog) (cursor : String → Nat) : PollPhase → Prop where
  | idle : Polls reader log cursor .idle
  | listed {pids : List String} {maxSeen : Nat} (selected : ∀ pid ∈ pids, reader.filter.selects pid) :
      Polls reader log cursor (.listed pids maxSeen)
  | reading {pid : String} {events : List EventEnvelope} {pids : List String} {maxSeen : Nat}
      (selected : ∀ other ∈ pid :: pids, reader.filter.selects other)
      (buffered : log.Buffered pid (cursor pid) events) : Polls reader log cursor (.reading pid events pids maxSeen)

structure Tracks [Inhabited Projection] (reader : Reader Event Projection) (system : ReaderSystem Projection)
    (applied : List EventEnvelope) : Prop where
  projection : system.projection = applied.foldl reader.fold default
  decodable : ∀ pid, ∀ env ∈ system.log.stream pid, (reader.decoded env).isOk
  cursors : ∀ pid, system.log.Within pid (system.cursor pid)
  polls : Polls reader system.log system.cursor system.poll
  progress : Progress reader (due reader system) applied system.rebuilds

variable {reader : Reader Event Projection} {system post : ReaderSystem Projection} {applied : List EventEnvelope}
  {env : EventEnvelope} {pid : String}

theorem ofId_snoc (pid : String) (applied : List EventEnvelope) (env : EventEnvelope) :
    ofId pid (applied ++ [env]) = if pid = env.persistenceId then ofId pid applied ++ [env] else ofId pid applied := by
  unfold ofId
  by_cases eq : env.persistenceId = pid
  · simp [eq]
  · simp [eq, Ne.symm eq]

variable {log : EventLog} {pids : List String} {rebuilds : List RebuildPhase} {wanted : String → List EventEnvelope}
  {phase : PollPhase} {events : List EventEnvelope} {maxSeq : Nat}

theorem ReaderFilter.resolvePids_spec {filter : ReaderFilter} {listed : List String}
    (res : filter.resolvePids log listed = some pids) :
    (∀ pid ∈ pids, filter.selects pid) ∧ (filter.distinct → pids.Nodup) ∧
      ∀ pid, pid ∉ pids → filter.selects pid → log.stream pid = [] := by
  cases filter with
  | all | tag _ =>
    simp only [resolvePids] at res
    split at res
    next lists =>
      cases res
      exact ⟨fun _ _ => rfl, fun _ => lists.1, fun _ ha _ => lists.stream_eq_nil ha⟩
    · cases res
  | persistenceId id =>
    cases res
    simp only [selects, mem_singleton, decide_eq_true_eq]
    exact ⟨fun _ eq => eq, fun _ => nodup_singleton id, fun _ ha eq => absurd eq ha⟩
  | persistenceIds ids =>
    cases res
    simp only [selects, decide_eq_true_eq]
    exact ⟨fun _ mem => mem, fun nodup => nodup, fun _ ha hp => absurd hp ha⟩

theorem Reader.wants_of_selected (sel : reader.filter.selects env.persistenceId = true) :
    reader.wants env = reader.filter.admits env := by
  rw [Reader.wants, sel, Bool.true_and]

theorem due_eq_wanted
    (seen : ∀ env ∈ system.log.stream pid, reader.wants env → env.sequenceNr ≤ system.cursor pid) :
    due reader system pid = (system.log.stream pid).filter reader.wants := by
  rw [due, EventLog.upTo, Cursor.upTo, filter_filter]
  refine filter_congr fun env mem => ?_
  by_cases wanted : reader.wants env = true
  · simp [seen env mem wanted]
  · simp [wanted]

theorem due_nil (unread : reader.filter.selects pid → system.log.stream pid = []) : due reader system pid = [] := by
  refine filter_eq_nil_iff.mpr fun env mem wanted => ?_
  have hp := (Cursor.mem_upTo.mp mem).1
  have own : env.persistenceId = pid := system.log.ids pid env hp
  have sel : reader.filter.selects pid = true := own ▸ (and_eq_true_iff.mp wanted).1
  rw [unread sel] at hp
  cases hp

/-- The poller applies the next event of an id that the rebuild, if there is one, has done. -/
theorem Progress.polled {wanted' : String → List EventEnvelope} (prog : Progress reader wanted applied rebuilds)
    (past : ∀ phase ∈ rebuilds, phase.past env.persistenceId)
    (grown : ∀ pid, wanted' pid = if pid = env.persistenceId then wanted pid ++ [env] else wanted pid) :
    Progress reader wanted' (applied ++ [env]) rebuilds := by
  have settled : ∀ pid, ofId pid applied = wanted pid → ofId pid (applied ++ [env]) = wanted' pid := by
    intro pid done
    rw [ofId_snoc, grown, done]
  have others : ∀ pid, pid ≠ env.persistenceId → ofId pid (applied ++ [env]) = ofId pid applied ∧
      wanted' pid = wanted pid := by
    intro pid ne
    rw [ofId_snoc, grown, if_neg ne, if_neg ne]
    exact ⟨rfl, rfl⟩
  cases prog with
  | quiet done => exact .quiet fun pid => settled pid (done pid)
  | reset => exact absurd (past _ mem_cons_self) id
  | listed nodup sel pending done =>
    have clear := past _ mem_cons_self
    refine .listed nodup sel (fun pid mem => ?_) fun pid ha => settled pid (done pid ha)
    rw [(others pid fun eq => clear (eq ▸ mem)).1, pending pid mem]
  | reading nodup sel ms pending partly done =>
    have clear := past _ mem_cons_self
    refine .reading nodup sel ms (fun pid mem => ?_) ?_ fun pid ha => settled pid (done pid ha)
    · rw [(others pid fun eq => clear (eq ▸ mem_cons_of_mem _ mem)).1, pending pid mem]
    · obtain ⟨kept, eq⟩ := others _ fun eq => clear (eq ▸ mem_cons_self)
      rw [kept, eq, partly]

theorem Polls.grow {log' : EventLog} {cursor : String → Nat} (polls : Polls reader log cursor phase)
    (grown : ∀ pid events, log.Buffered pid (cursor pid) events → log'.Buffered pid (cursor pid) events) :
    Polls reader log' cursor phase := by
  cases polls with
  | idle => exact .idle
  | listed sel => exact .listed sel
  | reading sel buf => exact .reading sel (grown _ _ buf)

theorem ReaderSystem.cursor_passed (sys : ReaderSystem Projection) (pid : String) (num : Nat) (other : String) :
    (sys.passed pid num).cursor other = if other = pid then num else sys.cursor other :=
  offsetOf_insert sys.pidOffsets pid num other

/-- Passing the next event of an id adds it to what is due, if it is wanted. -/
theorem due_passed (buf : system.log.Buffered pid (system.cursor pid) (env :: events)) (other : String) :
    due reader (system.passed pid env.sequenceNr) other =
      if other = pid then due reader system other ++ [env].filter reader.wants else due reader system other := by
  unfold due
  rw [ReaderSystem.cursor_passed]
  split
  next eq =>
    subst eq
    exact (congrArg (List.filter reader.wants) buf.advance.1).trans (filter_append _ _)
  · rfl

theorem Progress.single {i : Nat} {phase : RebuildPhase} (prog : Progress reader wanted applied rebuilds)
    (h : rebuilds[i]? = some phase) : i = 0 ∧ rebuilds = [phase] := by
  have alone : ∀ only, [only][i]? = some phase → i = 0 ∧ [only] = [phase] := by
    intro only h
    obtain ⟨bound, eq⟩ := List.getElem?_eq_some_iff.mp h
    have first : i = 0 := by simpa using bound
    subst first
    exact ⟨rfl, congrArg ([·]) eq⟩
  cases prog with
  | quiet => cases h
  | reset | listed | reading => exact alone _ h

theorem Progress.list {listed : List String} (prog : Progress reader (due reader system) applied [.reset])
    (distinct : reader.filter.distinct) (res : reader.filter.resolvePids system.log listed = some pids) :
    Progress reader (due reader system) applied [.listed pids 0] := by
  cases prog with
  | reset nothing =>
    obtain ⟨sel, nodup, full⟩ := ReaderFilter.resolvePids_spec res
    subst nothing
    exact .listed (nodup distinct) sel (fun _ _ => rfl) fun pid ha => (due_nil (full pid ha)).symm

theorem Progress.read (prog : Progress reader (due reader system) applied [.listed (pid :: pids) maxSeq])
    (seen : ∀ env ∈ system.log.stream pid, reader.filter.admits env → env.sequenceNr ≤ system.cursor pid) :
    Progress reader (due reader system) applied [.reading pid (system.log.stream pid) pids maxSeq] := by
  cases prog with
  | listed nodup sel pending done =>
    have all : due reader system pid = (system.log.stream pid).filter reader.wants :=
      due_eq_wanted fun env mem wanted => seen env mem (and_eq_true_iff.mp wanted).2
    refine .reading nodup sel (system.log.ids pid)
      (fun other mem => pending other (mem_cons_of_mem _ mem)) ?_ done
    rw [pending pid mem_cons_self, nil_append, all]

variable (prog : Progress reader wanted applied [.reading pid (env :: events) pids maxSeq])
include prog

theorem Progress.pass (unwanted : reader.wants env = false) :
    Progress reader wanted applied [.reading pid events pids maxSeq] := by
  cases prog with
  | reading nodup sel ms pending partly done =>
    rw [filter_cons_of_neg (by simp [unwanted])] at partly
    exact .reading nodup sel (fun other mem => ms other (mem_cons_of_mem _ mem)) pending
      partly done

theorem Progress.apply {seq : Nat} (adm : reader.filter.admits env = true) :
    Progress reader wanted (applied ++ [env]) [.reading pid events pids seq] := by
  cases prog with
  | reading nodup sel ms pending partly done =>
    obtain rfl : env.persistenceId = pid := ms env mem_cons_self
    have isWanted : reader.wants env = true := (Reader.wants_of_selected (sel _ mem_cons_self)).trans adm
    have others : ∀ other, other ≠ env.persistenceId → ofId other (applied ++ [env]) = ofId other applied :=
      fun other ne => by rw [ofId_snoc, if_neg ne]
    refine .reading nodup sel (fun other mem => ms other (mem_cons_of_mem _ mem))
      (fun other mem => ?_) ?_ fun other ha => ?_
    · rw [others other fun eq => (nodup_cons.mp nodup).1 (eq ▸ mem), pending other mem]
    · rw [filter_cons_of_pos isWanted] at partly
      rw [ofId_snoc, if_pos rfl, append_assoc, singleton_append, partly]
    · rw [others other fun eq => ha (eq ▸ mem_cons_self), done other ha]
omit prog

theorem Progress.next (prog : Progress reader wanted applied [.reading pid [] pids maxSeq]) :
    Progress reader wanted applied [.listed pids maxSeq] := by
  cases prog with
  | reading nodup sel ms pending partly done =>
    refine .listed (nodup_cons.mp nodup).2
      (fun other mem => sel other (mem_cons_of_mem _ mem)) pending fun other ha => ?_
    by_cases cur : other = pid
    · rw [cur]
      simpa using partly
    · exact done other fun mem => (mem_cons.mp mem).elim cur ha

theorem Progress.finish (prog : Progress reader wanted applied [.listed [] maxSeq]) :
    Progress reader wanted applied [] := by
  cases prog with
  | listed nodup sel pending done => exact .quiet fun pid => done pid not_mem_nil

theorem pollEvent_rebuilds (sys : ReaderSystem Projection) (events : List EventEnvelope) (pids : List String)
    (maxSeen : Nat) : (sys.pollEvent reader pid env events pids maxSeen).rebuilds = sys.rebuilds := by
  unfold ReaderSystem.pollEvent
  split
  · rfl
  · split <;> rfl

theorem pollStep_rebuilds {act : PollAction} (taken : system.pollStep reader phase act = some post) :
    post.rebuilds = system.rebuilds := by
  unfold ReaderSystem.pollStep at taken
  split at taken
  case h_1 =>
    obtain ⟨pids, res, taken⟩ := Option.bind_eq_some_iff.mp taken
    cases taken
    rfl
  case h_4 =>
    cases taken
    exact pollEvent_rebuilds ..
  case h_7 => cases taken
  all_goals
    cases taken
    rfl

variable [Inhabited Projection] (tracks : Tracks reader system applied)
include tracks

theorem Tracks.apply {ev : Event} (dec : reader.decoded env = .ok ev) :
    reader.apply system.projection ev = (applied ++ [env]).foldl reader.fold default := by
  rw [foldl_append, ← tracks.projection]
  simp only [foldl_cons, foldl_nil, Reader.fold, dec]

theorem Tracks.append (dec : (reader.decoded env).isOk) (app : system.log.append env = some log) :
    Tracks reader { system with log } applied := by
  have grown := fun pid => (tracks.cursors pid).append app
  have sameDue : due reader { system with log } = due reader system :=
    funext fun pid => congrArg (List.filter reader.wants) (grown pid).2.1
  refine ⟨tracks.projection, fun pid h mem => ?_, fun pid => (grown pid).1,
    tracks.polls.grow fun pid => (grown pid).2.2, ?_⟩
  · rcases EventLog.mem_stream_append app mem with old | rfl
    · exact tracks.decodable pid h old
    · exact dec
  · rw [sameDue]
    exact tracks.progress

theorem Tracks.move {poll : PollPhase} (offset : Nat) (polls : Polls reader system.log system.cursor poll) :
    Tracks reader { system with poll, offset } applied :=
  ⟨tracks.projection, tracks.decodable, tracks.cursors, polls, tracks.progress⟩

theorem Tracks.pollEvent {maxSeen : Nat} (cur : system.poll = .reading pid (env :: events) pids maxSeen)
    (apart : reader.filter.admits env → ∀ phase ∈ system.rebuilds, phase.past env.persistenceId) :
    ∃ applied', Tracks reader (system.pollEvent reader pid env events pids maxSeen) applied' := by
  have polls := cur ▸ tracks.polls
  cases polls with
  | reading sel buf =>
  obtain ⟨hp, rfl, _⟩ := buf.next
  obtain ⟨_, within, left⟩ := buf.advance
  have within : ∀ other,
      system.log.Within other ((system.passed env.persistenceId env.sequenceNr).cursor other) := by
    intro other
    rw [ReaderSystem.cursor_passed]
    split
    next eq => exact eq ▸ within
    · exact tracks.cursors other
  have polls : ∀ seen, Polls reader system.log (system.passed env.persistenceId env.sequenceNr).cursor
      (.reading env.persistenceId events pids seen) := by
    refine fun seen => .reading sel ?_
    rw [ReaderSystem.cursor_passed, if_pos rfl]
    exact left
  have dues : ∀ other, due reader (system.passed env.persistenceId env.sequenceNr) other = _ := due_passed buf
  have wants := Reader.wants_of_selected (sel _ mem_cons_self)
  unfold ReaderSystem.pollEvent
  cases adm : reader.filter.admits env with
  | false =>
    have eq : due reader (system.passed env.persistenceId env.sequenceNr) = due reader system := by
      funext other
      rw [dues, filter_cons_of_neg (by simp [wants, adm]), filter_nil, append_nil, ite_self]
    refine ⟨applied, tracks.projection, tracks.decodable, within, polls maxSeen, ?_⟩
    exact (congrArg (Progress reader · applied system.rebuilds) eq).mpr tracks.progress
  | true =>
    rw [filter_cons_of_pos (wants.trans adm)] at dues
    cases dec : reader.decoded env with
    | error m =>
      have decodes := tracks.decodable _ env hp
      rw [dec] at decodes
      cases decodes
    | ok ev =>
      exact ⟨applied ++ [env], tracks.apply dec, tracks.decodable, within, polls _,
        tracks.progress.polled (apart adm) dues⟩

theorem Tracks.pollStep {act : PollAction} (cur : system.poll = phase)
    (apart : Apart reader system (.poll act)) (taken : system.pollStep reader phase act = some post) :
    ∃ applied', Tracks reader post applied' := by
  have polls := cur ▸ tracks.polls
  unfold ReaderSystem.pollStep at taken
  split at taken
  next listed =>
    obtain ⟨pids, res, taken⟩ := Option.bind_eq_some_iff.mp taken
    cases taken
    exact ⟨applied, tracks.move _ (.listed (ReaderFilter.resolvePids_spec res).1)⟩
  next pid pids maxSeen =>
    cases taken
    cases polls with
    | listed sel =>
      exact ⟨applied, tracks.move _ (.reading sel (system.log.buffered_after pid _))⟩
  · cases taken
    cases polls with
    | listed sel =>
      exact ⟨applied, tracks.move _ (.listed fun pid mem => sel pid (mem_cons_of_mem _ mem))⟩
  next pid env events pids maxSeen =>
    cases taken
    exact tracks.pollEvent cur (apart env (cur ▸ rfl))
  · cases taken
    cases polls with
    | reading sel _ =>
      exact ⟨applied, tracks.move _ (.listed fun pid mem => sel pid (mem_cons_of_mem _ mem))⟩
  · cases taken
    exact ⟨applied, tracks.move _ .idle⟩
  · cases taken

theorem Tracks.advance (offset : Nat) (prog : Progress reader (due reader system) applied rebuilds) :
    Tracks reader { system with rebuilds, offset } applied :=
  ⟨tracks.projection, tracks.decodable, tracks.cursors, tracks.polls, prog⟩

theorem Tracks.rebuildEvent (only : system.rebuilds = [.reading pid (env :: events) pids maxSeq])
    (decodes : reader.filter.admits env → (reader.registered env).any Except.isOk) :
    ∃ applied', Tracks reader (system.rebuildEvent reader 0 pid env events pids maxSeq) applied' := by
  have prog := only ▸ tracks.progress
  unfold ReaderSystem.rebuildEvent ReaderSystem.setRebuild
  rw [only]
  cases adm : reader.filter.admits env with
  | false =>
    have unwanted : reader.wants env = false := by rw [Reader.wants, adm, Bool.and_false]
    exact ⟨applied, tracks.advance _ (prog.pass unwanted)⟩
  | true =>
    have decodes := decodes adm
    cases reg : reader.registered env with
    | none => simp [reg] at decodes
    | some dec =>
      cases dec with
      | error => simp [reg, Except.toBool] at decodes
      | ok ev =>
        have dec : reader.decoded env = .ok ev := by rw [Reader.decoded, reg, Option.getD_some]
        exact ⟨applied ++ [env], tracks.apply dec, tracks.decodable, tracks.cursors, tracks.polls,
          prog.apply adm⟩

theorem Tracks.rebuildStep {phase : RebuildPhase} {act : RebuildAction} (only : system.rebuilds = [phase])
    (apart : Apart reader system (.rebuild 0 act)) (taken : system.rebuildStep reader 0 phase act = some post) :
    ∃ applied', Tracks reader post applied' := by
  have prog := only ▸ tracks.progress
  have h : system.rebuilds[0]? = some phase := only ▸ rfl
  unfold ReaderSystem.rebuildStep ReaderSystem.setRebuild at taken
  rw [only] at taken
  split at taken
  next listed =>
    obtain ⟨pids, res, taken⟩ := Option.bind_eq_some_iff.mp taken
    cases taken
    exact ⟨applied, tracks.advance _ (prog.list apart res)⟩
  next pid pids maxSeq =>
    cases taken
    rw [system.log.eventsByPersistenceId_all]
    exact ⟨applied, tracks.advance _ (prog.read (apart _ h pid rfl))⟩
  · exact apart.elim
  · exact apart.elim
  next pid env events pids maxSeq =>
    cases taken
    exact tracks.rebuildEvent only (apart _ h env rfl)
  · cases taken
    exact ⟨applied, tracks.advance _ prog.next⟩
  · cases taken
    exact ⟨applied, tracks.advance _ prog.finish⟩
  · cases taken

theorem Tracks.step {act : ReaderAction} (apart : Apart reader system act)
    (taken : system.step reader act = some post) : ∃ applied', Tracks reader post applied' := by
  cases act with
  | append env =>
    obtain ⟨log, app, rfl⟩ := Option.map_eq_some_iff.mp taken
    exact ⟨applied, tracks.append apart app⟩
  | poll act => exact tracks.pollStep rfl apart taken
  | reset =>
    cases taken
    have none : system.rebuilds = [] := apart
    refine ⟨[], rfl, tracks.decodable, tracks.cursors, tracks.polls, ?_⟩
    rw [none]
    exact .reset rfl
  | rebuild i act =>
    obtain ⟨phase, h, taken⟩ := Option.bind_eq_some_iff.mp taken
    obtain ⟨rfl, only⟩ := tracks.progress.single h
    exact tracks.rebuildStep only apart taken
omit tracks

theorem tracks_start : Tracks reader (ReaderSystem.start : ReaderSystem Projection) [] where
  projection := rfl
  decodable := nofun
  cursors := fun _ => .inl rfl
  polls := .idle
  progress := .quiet fun _ => rfl

/-- Every event of the ids the reader follows is behind the poller. -/
def ReaderSystem.Settled (reader : Reader Event Projection) (system : ReaderSystem Projection) : Prop :=
  ∀ pid ∈ system.log.streams.keys, reader.filter.selects pid →
    ∀ env ∈ system.log.stream pid, env.sequenceNr ≤ system.cursor pid
deriving Decidable

/-- The projection is made from the wanted events of the log, each applied once and those
of one id in the order of the log. -/
def Projected (reader : Reader Event Projection) (system : ReaderSystem Projection) : Prop :=
  ∃ applied : List EventEnvelope, system.projection = applied.foldl reader.fold default ∧
    ∀ pid, ofId pid applied = (system.log.stream pid).filter reader.wants

theorem Tracks.projected (tracks : Tracks reader system applied) (alone : system.rebuilds = [])
    (settled : system.Settled reader) : Projected reader system := by
  have prog := alone ▸ tracks.progress
  cases prog with
  | quiet done =>
    refine ⟨applied, tracks.projection, fun pid => (done pid).trans (due_eq_wanted fun env mem wanted => ?_)⟩
    have own : env.persistenceId = pid := system.log.ids pid env mem
    have sel := (and_eq_true_iff.mp wanted).1
    exact settled pid (system.log.mem_keys mem) (own ▸ sel) env mem

theorem projection_exact {actions : List ReaderAction} {before : ReaderSystem Projection}
    (run : Run (ReaderSystem.step reader) (Apart reader) .start actions before)
    (apart : Apart reader before (.poll .finish)) (finished : before.step reader (.poll .finish) = some system)
    (settled : system.Settled reader) : Projected reader system := by
  obtain ⟨applied, tracks⟩ := run.invariant (fun st => ∃ applied, Tracks reader st applied)
    (fun _ _ _ ⟨_, tracks⟩ apart taken => tracks.step apart taken) ⟨[], tracks_start⟩
  obtain ⟨applied, tracks⟩ := tracks.step apart finished
  exact tracks.projected ((pollStep_rebuilds finished).trans apart) settled

def collector : Reader (List UInt8) (List (List UInt8)) where
  filter := .all
  codecs := some fun _ payload => some (.ok payload)
  decode := .ok
  apply := fun payloads payload => payloads ++ [payload]

def created : EventEnvelope := ⟨"a", 1, [7], [], "Created"⟩

def pollRound (listed : List String) (events : Nat) : List ReaderAction :=
  [.poll (.list listed), .poll .read] ++ List.replicate events (.poll .event) ++ [.poll .next]

def rebuiltBetweenRounds : List ReaderAction :=
  [.append created] ++ pollRound ["a"] 1 ++ [.poll .finish, .reset, .rebuild 0 (.list ["a"]), .rebuild 0 .read,
    .rebuild 0 .event, .append { created with sequenceNr := 2 }, .rebuild 0 .next, .rebuild 0 .finish] ++
    pollRound ["a"] 1

theorem projection_exact_rebuilt :
    ∃ before system, Run (ReaderSystem.step collector) (Apart collector) .start rebuiltBetweenRounds before ∧
      before.step collector (.poll .finish) = some system ∧ system.Settled collector ∧
      system.projection = [[7], [7]] ∧ Projected collector system := by
  have run : Run (ReaderSystem.step collector) (Apart collector) .start rebuiltBetweenRounds _ := Run.of_foldlM rfl
  refine ⟨_, _, run, rfl, ?_, rfl, projection_exact run ?_ rfl ?_⟩
  all_goals decide +kernel

theorem Projected.single (pid : String) (projected : Projected reader system)
    (only : system.log.streams.keys = [pid]) :
    system.projection = ((system.log.stream pid).filter reader.wants).foldl reader.fold default := by
  obtain ⟨applied, projection, once⟩ := projected
  have own : ∀ env ∈ applied, env.persistenceId = pid := by
    intro env mem
    have listed : env ∈ ofId env.persistenceId applied := mem_filter.mpr ⟨mem, by simp⟩
    rw [once] at listed
    have known := system.log.mem_keys (mem_filter.mp listed).1
    rw [only] at known
    exact mem_singleton.mp known
  have all : ofId pid applied = applied := filter_eq_self.mpr fun env mem => by simp [own env mem]
  rw [projection, ← once, all]

/-- The poller has not seen the event yet when the rebuild applies it. -/
theorem rebuild_then_poll_applies_twice :
    ∃ before system, Run (ReaderSystem.step collector) (fun _ _ => True) .start
        ([.append created, .reset, .rebuild 0 (.list ["a"]), .rebuild 0 .read, .rebuild 0 .event, .rebuild 0 .next,
          .rebuild 0 .finish] ++ pollRound ["a"] 1) before ∧
      before.step collector (.poll .finish) = some system ∧ (∀ env, (collector.decoded env).isOk) ∧
      system.Settled collector ∧ ¬ Projected collector system := by
  refine ⟨_, _, Run.of_foldlM rfl, rfl, fun _ => rfl, by decide +kernel, fun projected => ?_⟩
  have once := projected.single "a" rfl
  revert once
  decide +kernel

end Atomr.Patterns
