import Atomr.Fix.Message

/-! The session layer: sequence counters, builders of outbound messages, and the
handler of inbound ones.

Outbound messages are numbered from one counter. The other counter holds the
number that the next inbound message has to carry. The clock is read in
seconds, once for each message that is built.
-/

namespace Atomr.Fix

/-- The next number to send and the next number expected. The first wraps, the second saturates. -/
structure InMemorySeqStore where
  out : Nat
  inExpected : Nat
  out_lt : out < 2 ^ 64
  inExpected_pos : 1 ≤ inExpected
  inExpected_lt : inExpected < 2 ^ 64
  deriving DecidableEq

namespace InMemorySeqStore

def new : InMemorySeqStore where
  out := 1
  inExpected := 1
  out_lt := by decide
  inExpected_pos := by decide
  inExpected_lt := by decide

def withCounters (nextOut nextIn : UInt64) : InMemorySeqStore where
  out := max nextOut.toNat 1
  inExpected := max nextIn.toNat 1
  out_lt := by have := nextOut.toNat_lt; omega
  inExpected_pos := by omega
  inExpected_lt := by have := nextIn.toNat_lt; omega

variable (store : InMemorySeqStore)

def nextOut : Nat × InMemorySeqStore :=
  (store.out, { store with out := (store.out + 1) % 2 ^ 64, out_lt := Nat.mod_lt _ (by decide) })

def peekOut : Nat := store.out

/-- The expected number moves past an observed one, and never back. -/
def observedIn (n : Nat) : InMemorySeqStore where
  out := store.out
  inExpected := max store.inExpected (min (n + 1) (2 ^ 64 - 1))
  out_lt := store.out_lt
  inExpected_pos := by have := store.inExpected_pos; omega
  inExpected_lt := by have := store.inExpected_lt; omega

def currentIn : Nat := store.inExpected

def reset (_store : InMemorySeqStore) : InMemorySeqStore := new

end InMemorySeqStore

inductive FixVersion where
  | fix42
  | fix44
  | fix50Sp2
  deriving DecidableEq, Repr

namespace FixVersion

def beginString : FixVersion → String
  | .fix42 => "FIX.4.2"
  | .fix44 => "FIX.4.4"
  | .fix50Sp2 => "FIXT.1.1"

def isFixt : FixVersion → Bool
  | .fix50Sp2 => true
  | .fix42 | .fix44 => false

end FixVersion

structure FixSessionConfig where
  version : FixVersion
  senderCompId : String
  targetCompId : String
  heartbeat : Nat
  resetOnLogon : Bool
  deriving DecidableEq, Repr

def FixSessionConfig.new (version : FixVersion) (senderCompId targetCompId : String) : FixSessionConfig :=
  ⟨version, senderCompId, targetCompId, 30, false⟩

inductive SessionState where
  | disconnected
  | logonSent
  | active
  | logoutSent
  deriving DecidableEq, Repr

structure FixSession where
  config : FixSessionConfig
  store : InMemorySeqStore
  state : SessionState
  deriving DecidableEq

structure InboundOutcome where
  outbound : List FixMessage := []
  application : Option FixMessage := none
  /-- The number expected and the number received. -/
  gapDetected : Option (Nat × Nat) := none
  ignoredDuplicate : Bool := false
  deriving DecidableEq

/-- Neither reported as a gap nor ignored. -/
def InboundOutcome.Accepted (outcome : InboundOutcome) : Prop :=
  outcome.gapDetected = none ∧ outcome.ignoredDuplicate = false
deriving Decidable

/-- Year, month and day of a day counted from 1970-01-01. -/
def civilFromDays (days : Nat) : Nat × Nat × Nat :=
  let z := days + 719468
  let era := z / 146097
  let doe := z - era * 146097
  let yoe := (doe - doe / 1460 + doe / 36524 - doe / 146096) / 365
  let y := yoe + era * 400
  let doy := doe - (365 * yoe + yoe / 4 - yoe / 100)
  let mp := (5 * doy + 2) / 153
  let d := doy - (153 * mp + 2) / 5 + 1
  let m := if mp < 10 then mp + 3 else mp - 9
  (if m ≤ 2 then y + 1 else y, m, d)

def sendingTime (now : Nat) : String :=
  let secsOfDay := now % 86400
  let (y, mo, d) := civilFromDays (now / 86400)
  padded 4 y ++ padded 2 mo ++ padded 2 d ++ "-" ++
    padded 2 (secsOfDay / 3600) ++ ":" ++ padded 2 (secsOfDay % 3600 / 60) ++ ":" ++ padded 2 (secsOfDay % 60)

example : sendingTime 1709210096 = "20240229-12:34:56" := by decide +kernel

/-- The header fields that every builder sets last, in this order. -/
def FixSessionConfig.header (config : FixSessionConfig) (seq now : Nat) (msg : FixMessage) : FixMessage :=
  let msg := msg.set Tags.BEGIN_STRING config.version.beginString
  let msg := msg.set Tags.SENDER_COMP_ID config.senderCompId
  let msg := msg.set Tags.TARGET_COMP_ID config.targetCompId
  let msg := msg.set Tags.MSG_SEQ_NUM seq.repr
  msg.set Tags.SENDING_TIME (sendingTime now)

def FixSessionConfig.logonBody (config : FixSessionConfig) : FixMessage :=
  let msg := FixMessage.ofType .logon
  let msg := msg.set Tags.ENCRYPT_METHOD "0"
  let msg := msg.set Tags.HEART_BT_INT config.heartbeat.repr
  let msg := if config.resetOnLogon then msg.set Tags.RESET_SEQ_NUM_FLAG "Y" else msg
  if config.version.isFixt then msg.set Tags.DEFAULT_APPL_VER_ID "9" else msg

namespace FixSession

def new (config : FixSessionConfig) (store : InMemorySeqStore) : FixSession := ⟨config, store, .disconnected⟩

variable (session : FixSession) (now : Nat)

def finalizeOutbound (msg : FixMessage) : FixMessage × FixSession :=
  let (seq, store) := session.store.nextOut
  (session.config.header seq now msg, { session with store })

def buildLogon : FixMessage × FixSession :=
  let session := if session.config.resetOnLogon then { session with store := session.store.reset } else session
  let (out, session) := session.finalizeOutbound now session.config.logonBody
  (out, { session with state := .logonSent })

def buildLogout (reason : Option String) : FixMessage × FixSession :=
  let msg := FixMessage.ofType .logout
  let msg := reason.elim msg fun text => msg.set Tags.TEXT text
  let (out, session) := session.finalizeOutbound now msg
  (out, { session with state := .logoutSent })

def buildHeartbeat (testReqId : Option String) : FixMessage × FixSession :=
  let msg := FixMessage.ofType .heartbeat
  let msg := testReqId.elim msg fun id => msg.set Tags.TEST_REQ_ID id
  session.finalizeOutbound now msg

/-- An end of zero asks for everything from the beginning on. -/
def buildResendRequest (beginSeq endSeq : Nat) : FixMessage × FixSession :=
  let msg := FixMessage.ofType .resendRequest
  let msg := msg.set Tags.BEGIN_SEQ_NO beginSeq.repr
  let msg := msg.set Tags.END_SEQ_NO endSeq.repr
  session.finalizeOutbound now msg

/-- A gap fill takes the number of the first message it stands for, and none from the counter. -/
def buildGapFill (beginSeq newSeqNo : Nat) : FixMessage :=
  let msg := FixMessage.ofType .sequenceReset
  let msg := msg.set Tags.GAP_FILL_FLAG "Y"
  let msg := msg.set Tags.POSS_DUP_FLAG "Y"
  let msg := msg.set Tags.NEW_SEQ_NO newSeqNo.repr
  session.config.header beginSeq now msg

def buildAppMessage (msg : FixMessage) : FixMessage × FixSession :=
  let (seq, store) := session.store.nextOut
  (session.config.header seq now msg, { session with store })

end FixSession

namespace FixMessage

def isSeqReset (msg : FixMessage) : Bool := msg.msgType = some .sequenceReset

def isResetLogon (msg : FixMessage) : Bool :=
  msg.msgType = some .logon && (msg.get Tags.RESET_SEQ_NUM_FLAG).any fun v => v = "Y" || v = "y"

end FixMessage

namespace FixSession

variable (session : FixSession)

def observe (seq : Option Nat) : FixSession :=
  { session with store := seq.elim session.store session.store.observedIn }

def restart (msg : FixMessage) : FixSession :=
  if msg.isResetLogon then { session with store := session.store.reset } else session

variable (now : Nat)

def onLogon (msg : FixMessage) : InboundOutcome × FixSession :=
  let session := (session.restart msg).observe msg.seqNum
  if session.state = .logonSent then ({}, { session with state := .active })
  else
    let (reply, session) := session.buildLogon now
    ({ outbound := [reply] }, { session with state := .active })

def onTestRequest (msg : FixMessage) : InboundOutcome × FixSession :=
  let session := session.observe msg.seqNum
  let (reply, session) := session.buildHeartbeat now (msg.get Tags.TEST_REQ_ID)
  ({ outbound := [reply] }, session)

/-- The whole range is filled, no message is sent again. -/
def onResendRequest (msg : FixMessage) : InboundOutcome × FixSession :=
  let session := session.observe msg.seqNum
  let beginSeq := (msg.getU64 Tags.BEGIN_SEQ_NO).getD 1
  let endSeq := (msg.getU64 Tags.END_SEQ_NO).getD 0
  let nextOut := session.store.peekOut
  let newSeqNo := if endSeq = 0 then nextOut else max ((endSeq + 1) % 2 ^ 64) nextOut
  ({ outbound := [session.buildGapFill now beginSeq newSeqNo] }, session)

/-- The number of the message itself is not observed. -/
def onSequenceReset (msg : FixMessage) : FixSession :=
  match msg.getU64 Tags.NEW_SEQ_NO with
  | some newSeq => if 1 ≤ newSeq then session.observe (some (newSeq - 1)) else session
  | none => session

def onLogout (msg : FixMessage) : InboundOutcome × FixSession :=
  let session := session.observe msg.seqNum
  if session.state = .logoutSent then ({}, { session with state := .disconnected })
  else
    let (reply, session) := session.buildLogout now none
    ({ outbound := [reply] }, { session with state := .disconnected })

def dispatch (msg : FixMessage) : InboundOutcome × FixSession :=
  match msg.msgType with
  | some .logon => session.onLogon now msg
  | some .testRequest => session.onTestRequest now msg
  | some .heartbeat => ({}, session.observe msg.seqNum)
  | some .resendRequest => session.onResendRequest now msg
  | some .sequenceReset => ({}, session.onSequenceReset msg)
  | some .logout => session.onLogout now msg
  | some .newOrderSingle | some .executionReport | some (.other _) =>
    ({ application := some msg }, session.observe msg.seqNum)
  | none => ({ ignoredDuplicate := true }, session)

def handleInbound (msg : FixMessage) : InboundOutcome × FixSession :=
  match msg.seqNum with
  | some seq =>
    if msg.isSeqReset || msg.isResetLogon then session.dispatch now msg
    else
      let expected := session.store.currentIn
      if expected < seq then
        let (request, session) := session.buildResendRequest now expected 0
        ({ outbound := [request], gapDetected := some (expected, seq) }, session)
      else if seq < expected then ({ ignoredDuplicate := true }, session)
      else session.dispatch now msg
  -- A message without a number is not checked.
  | none => session.dispatch now msg

end FixSession

namespace FixMessage

theorem find?_replaced (tg other : UInt32) (v : String) (fs : List FixField) :
    ((set.replaced tg v fs).find? fun f => f.tag == other).map FixField.value =
      if other = tg then some v else (fs.find? fun f => f.tag == other).map FixField.value := by
  induction fs with
  | nil => by_cases eq : other = tg <;> simp [set.replaced, eq, Ne.symm]
  | cons f fs ih =>
    by_cases hit : f.tag = tg
    · by_cases eq : other = tg
      · simp [set.replaced, hit, eq]
      · simp [set.replaced, hit, eq, Ne.symm eq]
    · by_cases wanted : f.tag = other
      · have ne : other ≠ tg := fun eq => hit (wanted.trans eq)
        simp [set.replaced, wanted, ne]
      · simp [set.replaced, hit, wanted, ih]

variable (m : FixMessage)

theorem get_set (tg other : UInt32) (v : String) :
    (m.set tg v).get other = if other = tg then some v else m.get other :=
  find?_replaced tg other v m.fields

variable {tg : UInt32}

theorem getU64_eq {n : Nat} (small : n < 2 ^ 64) (v : m.get tg = some n.repr) : m.getU64 tg = some n := by
  rw [getU64, v, Option.bind_some, Library.Text.parseUnsigned_repr small]

theorem getU64_lt {m : FixMessage} {n : Nat} (v : m.getU64 tg = some n) : n < 2 ^ 64 := by
  obtain ⟨tx, -, parsed⟩ := Option.bind_eq_some_iff.mp v
  exact Library.Text.parseUnsigned_lt parsed

theorem get_ofType (msgType : MsgType) (tg : UInt32) :
    (ofType msgType).get tg = if tg = Tags.MSG_TYPE then some msgType.code else none :=
  get_set new Tags.MSG_TYPE tg msgType.code

theorem msgType_ofType (kind : MsgType) : (ofType kind).msgType = some (.fromCode kind.code) := by
  rfl

theorem msgType_set (v : String) (other : tg ≠ Tags.MSG_TYPE) : (m.set tg v).msgType = m.msgType := by
  rw [msgType, msgType, get_set, if_neg other.symm]

end FixMessage

namespace FixSessionConfig

variable (config : FixSessionConfig)

theorem seqNum_header {seq : Nat} (t : Nat) (m : FixMessage) (small : seq < 2 ^ 64) :
    (config.header seq t m).seqNum = some seq := by
  apply FixMessage.getU64_eq _ small
  simp [header, FixMessage.get_set, Tags.SENDING_TIME, Tags.MSG_SEQ_NUM]

theorem get_header (seq t : Nat) (m : FixMessage) {tg : UInt32}
    (body : tg ∉ [Tags.BEGIN_STRING, Tags.SENDER_COMP_ID, Tags.TARGET_COMP_ID, Tags.MSG_SEQ_NUM,
      Tags.SENDING_TIME]) : (config.header seq t m).get tg = m.get tg := by
  simp only [List.mem_cons, not_or] at body
  obtain ⟨ver, snd, tgt, num, time⟩ := body
  simp [header, FixMessage.get_set, ver, snd, tgt, num, time]

theorem msgType_header (seq t : Nat) (m : FixMessage) : (config.header seq t m).msgType = m.msgType := by
  rw [FixMessage.msgType, FixMessage.msgType, get_header]
  decide

end FixSessionConfig

end Atomr.Fix
