import Atomr.Fix.SessionDelivery
import Mathlib.Logic.Function.Basic

/-! Two sessions that face each other over links that lose nothing.

A message in flight has been counted by its sender and not yet by its receiver.
The numbers in flight are therefore the ones from the receiver's expected number
up to the sender's next one, in this order.
-/

namespace Atomr.Fix

open Library List

inductive Party where
  | left
  | right
  deriving DecidableEq

def Party.other : Party → Party
  | .left => .right
  | .right => .left

/-- A session, the link that leads away from it, and what its application sent and received. -/
structure Endpoint where
  session : FixSession
  outgoing : List FixMessage
  built : List FixMessage
  surfaced : List FixMessage

inductive BuildAction where
  | logon
  | logout (reason : Option String)
  | heartbeat (testReqId : Option String)
  | app (msg : FixMessage)

namespace Endpoint

def start (session : FixSession) : Endpoint := ⟨session, [], [], []⟩

variable (endpoint : Endpoint)

def build (now : Nat) (action : BuildAction) : Endpoint :=
  let (msg, session) := match action with
    | .logon => endpoint.session.buildLogon now
    | .logout reason => endpoint.session.buildLogout now reason
    | .heartbeat testReqId => endpoint.session.buildHeartbeat now testReqId
    | .app msg => endpoint.session.buildAppMessage now msg
  { endpoint with
    session
    outgoing := endpoint.outgoing ++ [msg]
    built := match action with
      | .app _ => endpoint.built ++ [msg]
      | _ => endpoint.built }

def receive (now : Nat) (msg : FixMessage) : Endpoint :=
  let handled := endpoint.session.handleInbound now msg
  { endpoint with
    session := handled.2
    outgoing := endpoint.outgoing ++ handled.1.outbound
    surfaced := endpoint.surfaced ++ handled.1.application.toList }

/-- Neither counter is at its last value. -/
def HasRoom : Prop :=
  endpoint.session.store.out < 2 ^ 64 - 1 ∧ endpoint.session.store.inExpected < 2 ^ 64 - 1
deriving Decidable

end Endpoint

structure Connection where
  endpoint : Party → Endpoint

inductive ConnectionAction where
  | build (party : Party) (now : Nat) (action : BuildAction)
  | deliver (party : Party) (now : Nat)

def BuildAction.sound : BuildAction → Bool
  | .app msg => msg.isApplication
  | .logon | .logout _ | .heartbeat _ => true

def ConnectionAction.sound : ConnectionAction → Bool
  | .build _ _ action => action.sound
  | .deliver _ _ => true

namespace Connection

def start (left right : FixSession) : Connection where
  endpoint
    | .left => .start left
    | .right => .start right

variable (connection : Connection) (party : Party)

def set (endpoint : Endpoint) : Connection := ⟨Function.update connection.endpoint party endpoint⟩

def step : ConnectionAction → Option Connection
  | .build party now action => some (connection.set party ((connection.endpoint party).build now action))
  | .deliver party now =>
    match (connection.endpoint party.other).outgoing with
    | [] => none
    | msg :: rest =>
      let taken := connection.set party.other { connection.endpoint party.other with outgoing := rest }
      some (taken.set party ((connection.endpoint party).receive now msg))

def Admissible (action : ConnectionAction) : Prop :=
  (connection.endpoint .left).HasRoom ∧ (connection.endpoint .right).HasRoom ∧ action.sound
deriving Decidable

@[simp] theorem endpoint_set (endpoint : Endpoint) : (connection.set party endpoint).endpoint party = endpoint := by
  simp [set]

@[simp] theorem endpoint_set_other (endpoint : Endpoint) :
    (connection.set party endpoint).endpoint party.other = connection.endpoint party.other := by
  have apart : party.other ≠ party := by cases party <;> decide
  simp [set, apart]

theorem Admissible.room {conn : Connection} {act : ConnectionAction}
    (admissible : conn.Admissible act) (p : Party) : (conn.endpoint p).HasRoom := by
  cases p
  · exact admissible.1
  · exact admissible.2.1

end Connection

/-- The messages of an undisturbed connection: none that speaks about numbers. -/
structure Ordinary (msg : FixMessage) : Prop where
  typed : msg.msgType ≠ none
  noResend : msg.msgType ≠ some .resendRequest
  noReset : msg.isSeqReset = false
  noRestart : msg.isResetLogon = false

variable {msg : FixMessage} {after receiver sender : Endpoint}

theorem Ordinary.of_type {kind : MsgType} (type : msg.msgType = some kind) (noResend : kind ≠ .resendRequest)
    (noReset : kind ≠ .sequenceReset) (noLogon : kind ≠ .logon) : Ordinary msg where
  typed := by simp [type]
  noResend := by simp [type, noResend]
  noReset := by simp [FixMessage.isSeqReset, type, noReset]
  noRestart := by simp [FixMessage.isResetLogon, type, noLogon]

namespace FixSession

variable (s : FixSession) (t : Nat)

theorem buildLogon_ordinary (keeps : s.config.resetOnLogon = false) :
    Ordinary (s.buildLogon t).1 ∧ (s.buildLogon t).1.isApplication = false := by
  obtain ⟨seq, shape⟩ : ∃ seq, (s.buildLogon t).1 = s.config.header seq t s.config.logonBody := by
    simp only [buildLogon, keeps]
    exact ⟨_, rfl⟩
  have type : (s.buildLogon t).1.msgType = some .logon := by
    rw [shape, FixSessionConfig.msgType_header]
    simp only [FixSessionConfig.logonBody, keeps]
    split <;> simp (disch := decide) [FixMessage.msgType_set, FixMessage.msgType_ofType, MsgType.code, MsgType.fromCode]
  have flag : (s.buildLogon t).1.get Tags.RESET_SEQ_NUM_FLAG = none := by
    rw [shape, FixSessionConfig.get_header _ _ _ _ (by decide)]
    cases fixt : s.config.version.isFixt <;>
      simp [FixSessionConfig.logonBody, keeps, fixt, FixMessage.get_set, FixMessage.get_ofType, Tags.MSG_TYPE,
        Tags.HEART_BT_INT, Tags.ENCRYPT_METHOD, Tags.DEFAULT_APPL_VER_ID, Tags.RESET_SEQ_NUM_FLAG]
  refine ⟨⟨?_, ?_, ?_, ?_⟩, ?_⟩ <;>
    simp [FixMessage.isSeqReset, FixMessage.isResetLogon, FixMessage.isApplication, MsgType.isAdmin, type, flag]

theorem msgType_buildLogout (reason : Option String) :
    (s.buildLogout t reason).1.msgType = some .logout := by
  rw [buildLogout, finalizeOutbound, FixSessionConfig.msgType_header]
  cases reason with
  | none => exact FixMessage.msgType_ofType .logout
  | some tx => exact (FixMessage.msgType_set _ tx (by decide)).trans (FixMessage.msgType_ofType .logout)

theorem msgType_buildHeartbeat (testReqId : Option String) :
    (s.buildHeartbeat t testReqId).1.msgType = some .heartbeat := by
  rw [buildHeartbeat, finalizeOutbound, FixSessionConfig.msgType_header]
  cases testReqId with
  | none => exact FixMessage.msgType_ofType .heartbeat
  | some id => exact (FixMessage.msgType_set _ id (by decide)).trans (FixMessage.msgType_ofType .heartbeat)

theorem buildLogout_ordinary (reason : Option String) :
    Ordinary (s.buildLogout t reason).1 ∧ (s.buildLogout t reason).1.isApplication = false := by
  have type := s.msgType_buildLogout t reason
  exact ⟨.of_type type (by decide) (by decide) (by decide), by simp [FixMessage.isApplication, type, MsgType.isAdmin]⟩

theorem buildHeartbeat_ordinary (testReqId : Option String) :
    Ordinary (s.buildHeartbeat t testReqId).1 ∧
      (s.buildHeartbeat t testReqId).1.isApplication = false := by
  have type := s.msgType_buildHeartbeat t testReqId
  exact ⟨.of_type type (by decide) (by decide) (by decide), by simp [FixMessage.isApplication, type, MsgType.isAdmin]⟩

theorem buildAppMessage_ordinary {m : FixMessage} (app : m.isApplication) :
    Ordinary (s.buildAppMessage t m).1 ∧ (s.buildAppMessage t m).1.isApplication := by
  have type : (s.buildAppMessage t m).1.msgType = m.msgType := FixSessionConfig.msgType_header _ _ _ _
  have kept : (s.buildAppMessage t m).1.isApplication := by rwa [FixMessage.isApplication, type]
  obtain ⟨kind, eq, admin⟩ := (Option.any_eq_true _ _).mp kept
  refine ⟨.of_type eq ?_ ?_ ?_, kept⟩ <;> rintro rfl <;> cases admin

end FixSession

structure Emits (before after : FixSession) (sent : List FixMessage) : Prop where
  out : after.store.out = before.store.out + sent.length
  numbers : sent.map FixMessage.seqNum = (List.range' before.store.out sent.length).map some
  ordinary : ∀ msg ∈ sent, Ordinary msg
  config : after.config = before.config

theorem Emits.of_built {pre post : FixSession} (built : Built pre msg post)
    (room : pre.store.out < 2 ^ 64 - 1) (ord : Ordinary msg) : Emits pre post [msg] where
  out := by
    rw [built.out, Nat.mod_eq_of_lt (by omega)]
    rfl
  numbers := by simp [built.number]
  ordinary := by simpa using ord
  config := built.config

namespace FixSession

variable (session : FixSession) (now : Nat)

theorem emits_observe {post : FixSession} {seq : Option Nat} {sent : List FixMessage}
    (emits : Emits (session.observe seq) post sent) : Emits session post sent := by
  have out : (session.observe seq).store.out = session.store.out := by cases seq <;> rfl
  exact ⟨out ▸ emits.out, out ▸ emits.numbers, emits.ordinary, emits.config⟩

/-- An ordinary message is answered with nothing, or with one ordinary message. -/
theorem dispatch_emits {m : FixMessage} (ord : Ordinary m) (keeps : session.config.resetOnLogon = false)
    (room : session.store.out < 2 ^ 64 - 1) :
    Emits session (session.dispatch now m).2 (session.dispatch now m).1.outbound ∧
      ∀ reply ∈ (session.dispatch now m).1.outbound, reply.isApplication = false := by
  obtain ⟨kind, type⟩ := Option.ne_none_iff_exists'.mp ord.typed
  obtain ⟨obs, seen⟩ : ∃ obs, obs = session.observe m.seqNum := ⟨_, rfl⟩
  have out : obs.store.out = session.store.out := by rw [seen]; cases m.seqNum <;> rfl
  have config : obs.config = session.config := by rw [seen]; rfl
  have silent : Emits session obs [] ∧ ∀ reply ∈ ([] : List FixMessage), reply.isApplication = false :=
    ⟨⟨out, rfl, by simp, config⟩, by simp⟩
  have reply : ∀ {reply post}, Built obs reply post → Ordinary reply ∧ reply.isApplication = false →
      Emits session post [reply] ∧ ∀ m ∈ [reply], m.isApplication = false := by
    intro reply post built plain
    have emits := Emits.of_built built (out ▸ room) plain.1
    exact ⟨session.emits_observe (seen ▸ emits), by simpa using plain.2⟩
  unfold dispatch
  rw [type]
  cases kind with
  | logon =>
    have kept : session.restart m = session := by rw [restart, ord.noRestart]; rfl
    simp only [onLogon, kept, ← seen]
    split
    · exact ⟨⟨silent.1.out, rfl, silent.1.ordinary, config⟩, silent.2⟩
    · have resets : obs.config.resetOnLogon = false := config ▸ keeps
      exact reply ((obs.buildLogon_built now resets).withState .active) (obs.buildLogon_ordinary now resets)
  | testRequest =>
    simp only [onTestRequest, ← seen]
    exact reply (obs.buildHeartbeat_built now _) (obs.buildHeartbeat_ordinary now _)
  | logout =>
    simp only [onLogout, ← seen]
    split
    · exact ⟨⟨silent.1.out, rfl, silent.1.ordinary, config⟩, silent.2⟩
    · exact reply ((obs.buildLogout_built now none).withState .disconnected) (obs.buildLogout_ordinary now none)
  | resendRequest => exact absurd type ord.noResend
  | sequenceReset => exact absurd ord.noReset (by simp [FixMessage.isSeqReset, type])
  | heartbeat | newOrderSingle | executionReport | other code =>
    simp only [← seen]
    exact silent

end FixSession

/-- What the sender has counted and the receiver has not is in flight, in the order of its numbers. -/
structure Agrees (sender receiver : Endpoint) : Prop where
  counted : sender.session.store.out = receiver.session.store.inExpected + sender.outgoing.length
  numbers : sender.outgoing.map FixMessage.seqNum =
    (List.range' receiver.session.store.inExpected sender.outgoing.length).map some
  ordinary : ∀ msg ∈ sender.outgoing, Ordinary msg
  delivered : sender.built = receiver.surfaced ++ sender.outgoing.filter FixMessage.isApplication
  keeps : sender.session.config.resetOnLogon = false

structure Sends (before after : Endpoint) (sent : List FixMessage) : Prop
    extends Emits before.session after.session sent where
  outgoing : after.outgoing = before.outgoing ++ sent
  built : after.built = before.built ++ sent.filter FixMessage.isApplication

theorem Agrees.send {sent : List FixMessage} (agrees : Agrees sender receiver) (sends : Sends sender after sent) :
    Agrees after receiver where
  counted := by rw [sends.out, agrees.counted, sends.outgoing, length_append, Nat.add_assoc]
  numbers := by
    rw [sends.outgoing, map_append, length_append, agrees.numbers, sends.numbers, agrees.counted,
      ← map_append, List.range'_append_1]
  ordinary := by
    rw [sends.outgoing]
    exact forall_mem_append.mpr ⟨agrees.ordinary, sends.ordinary⟩
  delivered := by rw [sends.built, agrees.delivered, sends.outgoing, filter_append, append_assoc]
  keeps := by rw [sends.config, agrees.keeps]

theorem Agrees.of_receiver_eq (agrees : Agrees sender receiver)
    (exp : after.session.store.inExpected = receiver.session.store.inExpected)
    (surf : after.surfaced = receiver.surfaced) : Agrees sender after where
  counted := by rw [exp, agrees.counted]
  numbers := by rw [exp, agrees.numbers]
  ordinary := agrees.ordinary
  delivered := by rw [surf, agrees.delivered]
  keeps := agrees.keeps

variable {rest : List FixMessage}

theorem Agrees.deliver (agrees : Agrees sender receiver) (link : sender.outgoing = msg :: rest)
    (exp : after.session.store.inExpected = receiver.session.store.inExpected + 1)
    (surf : after.surfaced = receiver.surfaced ++ [msg].filter FixMessage.isApplication) :
    Agrees { sender with outgoing := rest } after where
  counted := by
    have counted := agrees.counted
    rw [link, length_cons] at counted
    simp only [exp]
    omega
  numbers := by
    have nums := agrees.numbers
    rw [link] at nums
    rw [exp]
    exact (List.cons.inj nums).2
  ordinary := fun later mem => agrees.ordinary later (link ▸ mem_cons_of_mem msg mem)
  delivered := by
    rw [agrees.delivered, link, surf, append_assoc, ← filter_append]
    rfl
  keeps := agrees.keeps

theorem Agrees.head (agrees : Agrees sender receiver) (link : sender.outgoing = msg :: rest) :
    Ordinary msg ∧ msg.seqNum = some receiver.session.store.inExpected := by
  have nums := agrees.numbers
  rw [link] at nums
  exact ⟨agrees.ordinary msg (link ▸ mem_cons_self), (List.cons.inj nums).1⟩

namespace Endpoint

variable {ep : Endpoint}

theorem build_sends (t : Nat) {act : BuildAction} (keeps : ep.session.config.resetOnLogon = false)
    (room : ep.session.store.out < 2 ^ 64 - 1) (sound : act.sound) :
    (∃ sent, Sends ep (ep.build t act) sent) ∧
      (ep.build t act).session.store.inExpected = ep.session.store.inExpected ∧
      (ep.build t act).surfaced = ep.surfaced := by
  cases act with
  | logon =>
    have built := ep.session.buildLogon_built t keeps
    obtain ⟨ord, admin⟩ := ep.session.buildLogon_ordinary t keeps
    exact ⟨⟨_, .of_built built room ord, rfl, by simp [build, admin]⟩, built.inExpected, rfl⟩
  | logout reason =>
    have built := ep.session.buildLogout_built t reason
    obtain ⟨ord, admin⟩ := ep.session.buildLogout_ordinary t reason
    exact ⟨⟨_, .of_built built room ord, rfl, by simp [build, admin]⟩, built.inExpected, rfl⟩
  | heartbeat testReqId =>
    have built := ep.session.buildHeartbeat_built t testReqId
    obtain ⟨ord, admin⟩ := ep.session.buildHeartbeat_ordinary t testReqId
    exact ⟨⟨_, .of_built built room ord, rfl, by simp [build, admin]⟩, built.inExpected, rfl⟩
  | app m =>
    have built := ep.session.buildAppMessage_built t m
    obtain ⟨ord, kept⟩ := ep.session.buildAppMessage_ordinary t sound
    exact ⟨⟨_, .of_built built room ord, rfl, by simp [build, kept]⟩, built.inExpected, rfl⟩

/-- An ordinary message with the expected number is counted, handed on if it is the application's,
and answered with ordinary messages. -/
theorem receive_sends (t : Nat) {m : FixMessage} (ord : Ordinary m)
    (num : m.seqNum = some ep.session.store.inExpected)
    (keeps : ep.session.config.resetOnLogon = false) (room : ep.session.store.out < 2 ^ 64 - 1)
    (below : ep.session.store.inExpected < 2 ^ 64 - 1) :
    (∃ sent, Sends ep (ep.receive t m) sent) ∧
      (ep.receive t m).session.store.inExpected = ep.session.store.inExpected + 1 ∧
      (ep.receive t m).surfaced = ep.surfaced ++ [m].filter FixMessage.isApplication := by
  have passes : ep.session.Passes m := .inr (.inl num)
  obtain ⟨kind, type⟩ := Option.ne_none_iff_exists'.mp ord.typed
  have noReset : kind ≠ .sequenceReset := fun eq => by simpa [FixMessage.isSeqReset, type, eq] using ord.noReset
  have counted := inExpected_of_passes t num below type noReset passes
  rw [if_neg (by simp [ReplyRestarts, keeps])] at counted
  unfold receive
  rw [FixSession.handleInbound_of_passes _ t passes]
  refine ⟨?_, counted, ?_⟩
  · obtain ⟨emits, admin⟩ := ep.session.dispatch_emits t ord keeps room
    have none : (ep.session.dispatch t m).1.outbound.filter FixMessage.isApplication = [] :=
      filter_eq_nil_iff.mpr fun reply mem => by simp [admin reply mem]
    exact ⟨_, emits, rfl, by simp [none]⟩
  · cases app : m.isApplication with
    | true => simp [FixSession.dispatch_of_isApplication _ t app, app]
    | false => simp [FixSession.application_dispatch_of_not _ t app, app]

end Endpoint

namespace Connection

def Agreed (connection : Connection) : Prop := ∀ party, Agrees (connection.endpoint party) (connection.endpoint party.other)

theorem agreed_iff (conn : Connection) (p : Party) :
    conn.Agreed ↔ Agrees (conn.endpoint p) (conn.endpoint p.other) ∧
      Agrees (conn.endpoint p.other) (conn.endpoint p) := by
  constructor
  · intro agreed
    have back := agreed p.other
    cases p <;> exact ⟨agreed _, back⟩
  · rintro ⟨outward, inward⟩ any
    cases p <;> cases any <;> assumption

theorem Agreed.step {conn next : Connection} {act : ConnectionAction} (agreed : conn.Agreed)
    (admissible : conn.Admissible act) (taken : conn.step act = some next) : next.Agreed := by
  cases act with
  | build p t act =>
    obtain ⟨outward, inward⟩ := (conn.agreed_iff p).mp agreed
    obtain ⟨⟨sent, sends⟩, exp, surf⟩ :=
      Endpoint.build_sends t outward.keeps (admissible.room p).1 admissible.2.2
    rw [← Option.some.inj taken, agreed_iff _ p, endpoint_set, endpoint_set_other]
    exact ⟨outward.send sends, inward.of_receiver_eq exp surf⟩
  | deliver p t =>
    obtain ⟨outward, inward⟩ := (conn.agreed_iff p).mp agreed
    simp only [Connection.step] at taken
    split at taken
    · cases taken
    next m rest link =>
      obtain ⟨ord, num⟩ := inward.head link
      obtain ⟨room, below⟩ := admissible.room p
      obtain ⟨⟨sent, sends⟩, exp, surf⟩ :=
        Endpoint.receive_sends t ord num outward.keeps room below
      rw [← Option.some.inj taken, agreed_iff _ p, endpoint_set, endpoint_set_other, endpoint_set]
      exact ⟨(outward.send sends).of_receiver_eq rfl rfl, inward.deliver link exp surf⟩

end Connection

/-- Along every run the numbers in flight account for the difference of the counters, no message is
objected to, and each application message is handed on once, in the order of building. -/
theorem connection_agreement {left right : FixSession} {actions : List ConnectionAction} {connection : Connection}
    (keepsLeft : left.config.resetOnLogon = false) (keepsRight : right.config.resetOnLogon = false)
    (leftward : right.store.peekOut = left.store.currentIn) (rightward : left.store.peekOut = right.store.currentIn)
    (run : Run Connection.step Connection.Admissible (.start left right) actions connection) (party : Party) :
    (connection.endpoint party).session.store.peekOut =
        (connection.endpoint party.other).session.store.currentIn + (connection.endpoint party).outgoing.length ∧
      (∀ msg rest now, (connection.endpoint party).outgoing = msg :: rest →
        ((connection.endpoint party.other).session.handleInbound now msg).1.Accepted) ∧
      (connection.endpoint party).built =
        (connection.endpoint party.other).surfaced ++ (connection.endpoint party).outgoing.filter FixMessage.isApplication := by
  have start : (Connection.start left right).Agreed :=
    (Connection.agreed_iff _ .left).mpr ⟨⟨rightward, rfl, forall_mem_nil _, rfl, keepsLeft⟩,
      ⟨leftward, rfl, forall_mem_nil _, rfl, keepsRight⟩⟩
  have agrees := run.invariant Connection.Agreed (fun _ _ _ => Connection.Agreed.step) start party
  refine ⟨agrees.counted, fun msg rest now link => ?_, agrees.delivered⟩
  obtain ⟨ordinary, num⟩ := agrees.head link
  obtain ⟨kind, type⟩ := Option.ne_none_iff_exists'.mp ordinary.typed
  rw [FixSession.handleInbound_of_passes _ now (.inr (.inl num))]
  exact FixSession.dispatch_accepts _ now type

def tradingDay : List ConnectionAction :=
  [.build .left 0 .logon, .deliver .right 1, .build .left 2 (.app (.ofType .newOrderSingle)), .deliver .left 3,
    .deliver .right 4, .build .right 5 (.app (.ofType .executionReport)), .build .left 6 (.logout none),
    .deliver .right 7]

theorem tradingDay_agreement :
    ∃ connection, Run Connection.step Connection.Admissible (.start (freshSession false) (freshSession false))
        tradingDay connection ∧
      (connection.endpoint .right).surfaced.length = 1 ∧ (connection.endpoint .right).outgoing.length = 2 ∧
      (connection.endpoint .right).session.store.peekOut =
        (connection.endpoint .left).session.store.currentIn + 2 := by
  exact Run.executed rfl fun run =>
    ⟨by decide +kernel, by decide +kernel, (connection_agreement rfl rfl rfl rfl run .right).1⟩

end Atomr.Fix
