import Atomr.Fix.Session
import Mathlib.Tactic.Tauto

/-! The counters of one session.

An accepted message moves the expected number past its own. A resend request is
answered with a gap fill that moves the peer's.
-/

namespace Atomr.Fix

/-- One message was built: it has the next number, and only the outbound counter and the state moved. -/
structure Built (before : FixSession) (msg : FixMessage) (after : FixSession) : Prop where
  number : msg.seqNum = some before.store.out
  out : after.store.out = (before.store.out + 1) % 2 ^ 64
  inExpected : after.store.inExpected = before.store.inExpected
  config : after.config = before.config

variable {msg : FixMessage}

theorem Built.withState {pre post : FixSession} (built : Built pre msg post) (state : SessionState) :
    Built pre msg { post with state } :=
  ⟨built.number, built.out, built.inExpected, built.config⟩

namespace FixSession

variable (session : FixSession) (now : Nat)

theorem finalizeOutbound_built (m : FixMessage) :
    Built session (session.finalizeOutbound now m).1 (session.finalizeOutbound now m).2 where
  number := session.config.seqNum_header now m session.store.out_lt
  out := rfl
  inExpected := rfl
  config := rfl

theorem buildLogout_built (reason : Option String) :
    Built session (session.buildLogout now reason).1 (session.buildLogout now reason).2 :=
  (session.finalizeOutbound_built now _).withState .logoutSent

theorem buildHeartbeat_built (testReqId : Option String) :
    Built session (session.buildHeartbeat now testReqId).1 (session.buildHeartbeat now testReqId).2 :=
  session.finalizeOutbound_built now _

theorem buildAppMessage_built (m : FixMessage) :
    Built session (session.buildAppMessage now m).1 (session.buildAppMessage now m).2 :=
  session.finalizeOutbound_built now m

theorem buildLogon_built (keeps : session.config.resetOnLogon = false) :
    Built session (session.buildLogon now).1 (session.buildLogon now).2 := by
  have eq : (if session.config.resetOnLogon then { session with store := session.store.reset } else session) =
      session := by rw [keeps]; rfl
  unfold buildLogon
  rw [eq]
  exact (session.finalizeOutbound_built now session.config.logonBody).withState .logonSent

theorem inExpected_buildLogon :
    (session.buildLogon now).2.store.inExpected =
      if session.config.resetOnLogon then 1 else session.store.inExpected := by
  cases reset : session.config.resetOnLogon <;> simp [buildLogon, reset] <;> rfl

theorem inExpected_observe (seq : Nat) :
    (session.observe (some seq)).store.inExpected = max session.store.inExpected (min (seq + 1) (2 ^ 64 - 1)) := rfl

theorem inExpected_observe_ge (seq : Option Nat) : session.store.inExpected ≤ (session.observe seq).store.inExpected := by
  cases seq with
  | none => exact Nat.le_refl _
  | some seq => exact Nat.le_max_left _ _

variable {msg : FixMessage} {kind : MsgType}

theorem inExpected_dispatch (type : msg.msgType = some kind) (noLogon : kind ≠ .logon)
    (noReset : kind ≠ .sequenceReset) :
    (session.dispatch now msg).2.store.inExpected = (session.observe msg.seqNum).store.inExpected := by
  unfold dispatch
  rw [type]
  cases kind with
  | logon => exact absurd rfl noLogon
  | sequenceReset => exact absurd rfl noReset
  | logout =>
    simp only [onLogout]
    split <;> rfl
  | _ => rfl

theorem inExpected_onLogon (m : FixMessage) :
    (session.onLogon now m).2.store.inExpected =
      if session.state ≠ .logonSent ∧ session.config.resetOnLogon then 1
      else ((session.restart m).observe m.seqNum).store.inExpected := by
  have st : ((session.restart m).observe m.seqNum).state = session.state := by
    unfold restart
    split <;> rfl
  have config : ((session.restart m).observe m.seqNum).config = session.config := by
    unfold restart
    split <;> rfl
  unfold onLogon
  simp only [st]
  split
  next initiated => simp [initiated]
  next hans => simp [hans, inExpected_buildLogon, config]

/-- No objection is made to the number: it is the expected one, absent, or not looked at. -/
def Passes (msg : FixMessage) : Prop :=
  msg.seqNum = none ∨ msg.seqNum = some session.store.inExpected ∨ msg.isSeqReset ∨ msg.isResetLogon
deriving Decidable

inductive Handled (session : FixSession) (now : Nat) (msg : FixMessage) : InboundOutcome × FixSession → Prop where
  | gap {seq : Nat} (number : msg.seqNum = some seq) (high : session.store.inExpected < seq) :
      Handled session now msg
        ({ outbound := [(session.buildResendRequest now session.store.inExpected 0).1],
           gapDetected := some (session.store.inExpected, seq) },
          (session.buildResendRequest now session.store.inExpected 0).2)
  | stale {seq : Nat} (number : msg.seqNum = some seq) (low : seq < session.store.inExpected) :
      Handled session now msg ({ ignoredDuplicate := true }, session)
  | dispatched (passes : session.Passes msg) : Handled session now msg (session.dispatch now msg)

theorem handleInbound_of_passes (passes : session.Passes msg) :
    session.handleInbound now msg = session.dispatch now msg := by
  unfold handleInbound
  rcases passes with ha | exp | reset | reset
  · simp [ha]
  · simp [exp, InMemorySeqStore.currentIn]
  all_goals cases msg.seqNum <;> simp [reset]

theorem handleInbound_handled (m : FixMessage) : Handled session now m (session.handleInbound now m) := by
  by_cases passes : session.Passes m
  · rw [handleInbound_of_passes session now passes]
    exact .dispatched passes
  obtain ⟨hp, ne, reset⟩ : m.seqNum ≠ none ∧ m.seqNum ≠ some session.store.inExpected ∧
      (m.isSeqReset || m.isResetLogon) = false := by
    simpa [Passes] using passes
  obtain ⟨seq, num⟩ := Option.ne_none_iff_exists'.mp hp
  have unequal : seq ≠ session.store.inExpected := fun eq => ne (eq ▸ num)
  simp only [handleInbound, num, reset, InMemorySeqStore.currentIn]
  rcases Nat.lt_or_gt_of_ne unequal with low | high
  · simpa [low, Nat.not_lt_of_gt low] using .stale num low
  · simpa [high] using .gap num high

theorem dispatch_accepts (type : msg.msgType = some kind) : (session.dispatch now msg).1.Accepted := by
  unfold dispatch
  rw [type]
  cases kind with
  | logon =>
    simp only [onLogon]
    split <;> exact ⟨rfl, rfl⟩
  | logout =>
    simp only [onLogout]
    split <;> exact ⟨rfl, rfl⟩
  | _ => exact ⟨rfl, rfl⟩

theorem passes_of_accepted (acc : (session.handleInbound now msg).1.Accepted) :
    session.Passes msg ∧ msg.msgType ≠ none := by
  have hh := session.handleInbound_handled now msg
  generalize session.handleInbound now msg = res at acc hh
  cases hh with
  | gap => exact absurd acc.1 (by simp)
  | stale => exact absurd acc.2 (by simp)
  | dispatched passes =>
    refine ⟨passes, fun ha => ?_⟩
    rw [dispatch, ha] at acc
    exact absurd acc.2 (by simp)

end FixSession

/-- The reply to this message starts the counters over after its number was observed. -/
def ReplyRestarts (session : FixSession) (msg : FixMessage) : Prop :=
  msg.msgType = some .logon ∧ session.state ≠ .logonSent ∧ session.config.resetOnLogon = true
deriving Decidable

theorem inExpected_of_passes {s : FixSession} {seq : Nat} {kind : MsgType} (t : Nat)
    (num : msg.seqNum = some seq) (small : seq < 2 ^ 64 - 1) (type : msg.msgType = some kind)
    (noReset : kind ≠ .sequenceReset) (passes : s.Passes msg) :
    (s.dispatch t msg).2.store.inExpected = if ReplyRestarts s msg then 1 else seq + 1 := by
  have counted : msg.isResetLogon ∨ seq = s.store.inExpected := by
    rcases passes with ha | exp | reset | reset
    · simp [ha] at num
    · exact .inr (Option.some.inj (num.symm.trans exp))
    · simp [FixMessage.isSeqReset, type, noReset] at reset
    · exact .inl reset
  -- Whether the counters start over before or not, the observed number is the highest.
  have obs : ((s.restart msg).observe msg.seqNum).store.inExpected = seq + 1 := by
    rw [num, FixSession.inExpected_observe]
    rcases counted with reset | eq
    · have first : (s.restart msg).store.inExpected = 1 := by rw [FixSession.restart, if_pos reset]; rfl
      omega
    · have kept : (s.restart msg).store.inExpected ≤ seq + 1 := by
        unfold FixSession.restart
        split
        · exact Nat.le_add_left 1 seq
        · omega
      omega
  by_cases logon : kind = .logon
  · subst logon
    have reacts : s.dispatch t msg = s.onLogon t msg := by simp [FixSession.dispatch, type]
    rw [reacts, FixSession.inExpected_onLogon, obs]
    simp [ReplyRestarts, type]
  · have plain : msg.isResetLogon = false := by simp [FixMessage.isResetLogon, type, logon]
    rw [FixSession.inExpected_dispatch s t type logon noReset, if_neg (by simp [ReplyRestarts, type, logon])]
    rwa [FixSession.restart, plain] at obs

/-- After an accepted message the next number is expected, unless the reply to a logon started the
counters over. -/
theorem accepted_advances_expected (session : FixSession) (now : Nat) (msg : FixMessage) (seq : Nat)
    (number : msg.seqNum = some seq) (small : seq < 2 ^ 64 - 1) (typed : msg.msgType ≠ some .sequenceReset)
    (accepted : (session.handleInbound now msg).1.Accepted) :
    ((session.handleInbound now msg).2.store.currentIn = seq + 1 ↔ ¬ (ReplyRestarts session msg ∧ seq ≠ 0)) ∧
      (¬ (ReplyRestarts session msg ∧ seq ≠ 0) → ∀ later following, following.seqNum = some (seq + 1) →
        following.msgType ≠ none → ((session.handleInbound now msg).2.handleInbound later following).1.Accepted) := by
  obtain ⟨passes, present⟩ := session.passes_of_accepted now accepted
  obtain ⟨kind, type⟩ := Option.ne_none_iff_exists'.mp present
  have advanced := inExpected_of_passes now number small type (fun eq => typed (eq ▸ type)) passes
  rw [session.handleInbound_of_passes now passes, InMemorySeqStore.currentIn, advanced]
  have expected : ¬ (ReplyRestarts session msg ∧ seq ≠ 0) →
      (session.dispatch now msg).2.store.inExpected = seq + 1 := by
    intro keeps
    rw [advanced]
    split
    · have zero : seq = 0 := by tauto
      rw [zero]
    · rfl
  refine ⟨⟨fun reached restarts => ?_, fun keeps => advanced ▸ expected keeps⟩, ?_⟩
  · rw [if_pos restarts.1] at reached
    omega
  · intro keeps later following next typed
    obtain ⟨kind, type⟩ := Option.ne_none_iff_exists'.mp typed
    rw [FixSession.handleInbound_of_passes _ later (.inr (.inl (next.trans (congrArg some (expected keeps).symm))))]
    exact FixSession.dispatch_accepts _ later type

def numbered (kind : MsgType) (seq : Nat) : FixMessage := (FixMessage.ofType kind).set Tags.MSG_SEQ_NUM seq.repr

def freshSession (resetOnLogon : Bool) : FixSession := .new ⟨.fix44, "US", "THEM", 30, resetOnLogon⟩ .new

theorem heartbeat_advances_expected :
    ((freshSession true).handleInbound 0 (numbered .heartbeat 1)).2.store.currentIn = 2 :=
  ((accepted_advances_expected (freshSession true) 0 (numbered .heartbeat 1) 1 (by decide +kernel) (by decide)
    (by decide +kernel) (by decide +kernel)).1).mpr (by decide +kernel)

/-- A peer's first logon is taken, the reply forgets it, and the peer's second message is then a gap. -/
theorem logon_reply_forgets_logon :
    (numbered .logon 1).seqNum = some 1 ∧
      ((freshSession true).handleInbound 0 (numbered .logon 1)).1.Accepted ∧
      ((freshSession true).handleInbound 0 (numbered .logon 1)).2.store.currentIn = 1 ∧
      (((freshSession true).handleInbound 0 (numbered .logon 1)).2.handleInbound 0
        (numbered .heartbeat 2)).1.gapDetected = some (1, 2) := by
  decide +kernel

namespace FixSession

variable (s : FixSession) (t : Nat)

theorem msgType_buildGapFill (beginSeq newSeqNo : Nat) :
    (s.buildGapFill t beginSeq newSeqNo).msgType = some .sequenceReset := by
  rfl

theorem gapFillFlag_buildGapFill (beginSeq newSeqNo : Nat) :
    (s.buildGapFill t beginSeq newSeqNo).get Tags.GAP_FILL_FLAG = some "Y" := by
  rw [buildGapFill, FixSessionConfig.get_header _ _ _ _ (by decide)]
  simp [FixMessage.get_set, Tags.NEW_SEQ_NO, Tags.GAP_FILL_FLAG]

variable {newSeqNo : Nat}

theorem newSeqNo_buildGapFill (beginSeq : Nat) (small : newSeqNo < 2 ^ 64) :
    (s.buildGapFill t beginSeq newSeqNo).getU64 Tags.NEW_SEQ_NO = some newSeqNo := by
  apply FixMessage.getU64_eq _ small
  rw [buildGapFill, FixSessionConfig.get_header _ _ _ _ (by decide)]
  simp [FixMessage.get_set]

theorem inExpected_sequenceReset {m : FixMessage} (type : m.msgType = some .sequenceReset)
    (v : m.getU64 Tags.NEW_SEQ_NO = some newSeqNo) (small : newSeqNo < 2 ^ 64) :
    (s.handleInbound t m).2.store.inExpected = max s.store.inExpected newSeqNo := by
  have passes : s.Passes m := .inr (.inr (.inl (by simp [FixMessage.isSeqReset, type])))
  rw [handleInbound_of_passes s t passes]
  simp only [dispatch, type, onSequenceReset, v]
  split
  · rw [inExpected_observe]
    omega
  · omega

end FixSession

/-- A request is answered with one gap fill, after which a peer that is not ahead expects the
next number of this session. -/
def Resynchronises (session : FixSession) (now : Nat) (request : FixMessage) : Prop :=
  ∃ fill, (session.handleInbound now request).1.outbound = [fill] ∧
    fill.msgType = some .sequenceReset ∧ fill.get Tags.GAP_FILL_FLAG = some "Y" ∧
    fill.getU64 Tags.NEW_SEQ_NO = some session.store.peekOut ∧
    (session.handleInbound now request).2.store.peekOut = session.store.peekOut ∧
    ∀ (peer : FixSession) (later : Nat), peer.store.currentIn ≤ session.store.peekOut →
      (peer.handleInbound later fill).2.store.currentIn = session.store.peekOut

/-- The answer is exact unless the request names an end that this session has not sent yet. The
largest number wraps around to zero and does no harm. -/
theorem resend_request_resynchronises_iff (session : FixSession) (now beginSeq endSeq : Nat) (request : FixMessage)
    (type : request.msgType = some .resendRequest) (inSequence : request.seqNum = some session.store.currentIn)
    (begins : request.getU64 Tags.BEGIN_SEQ_NO = some beginSeq) (ends : request.getU64 Tags.END_SEQ_NO = some endSeq) :
    Resynchronises session now request ↔
      endSeq = 0 ∨ endSeq < session.store.peekOut ∨ endSeq = 2 ^ 64 - 1 := by
  have endSmall := FixMessage.getU64_lt ends
  have outSmall := session.store.out_lt
  obtain ⟨newSeqNo, chosen⟩ : ∃ n, n = if endSeq = 0 then session.store.out
      else max ((endSeq + 1) % 2 ^ 64) session.store.out := ⟨_, rfl⟩
  have newSmall : newSeqNo < 2 ^ 64 := by rw [chosen]; split <;> omega
  have passes : session.Passes request := .inr (.inl inSequence)
  have answer : session.handleInbound now request =
      ({ outbound := [(session.observe request.seqNum).buildGapFill now beginSeq newSeqNo] },
        session.observe request.seqNum) := by
    rw [session.handleInbound_of_passes now passes]
    simp only [FixSession.dispatch, type, FixSession.onResendRequest, begins, ends, chosen]
    rw [inSequence]
    rfl
  have carried := (session.observe request.seqNum).newSeqNo_buildGapFill now beginSeq newSmall
  have kind := (session.observe request.seqNum).msgType_buildGapFill now beginSeq newSeqNo
  have exact_iff : newSeqNo = session.store.peekOut ↔
      endSeq = 0 ∨ endSeq < session.store.peekOut ∨ endSeq = 2 ^ 64 - 1 := by
    rw [chosen, InMemorySeqStore.peekOut]
    split
    · simp_all
    · omega
  rw [← exact_iff]
  constructor
  · rintro ⟨fill, sent, -, -, val, -⟩
    rw [answer, List.cons.injEq] at sent
    rw [← sent.1, carried] at val
    exact Option.some.inj val
  · intro eq
    refine ⟨_, by rw [answer], kind, FixSession.gapFillFlag_buildGapFill _ _ _ _, eq ▸ carried, ?_, ?_⟩
    · rw [answer, inSequence]
      rfl
    · intro peer later behind
      have moved := peer.inExpected_sequenceReset later kind carried newSmall
      rw [InMemorySeqStore.currentIn, moved, eq]
      exact Nat.max_eq_right behind

def resendRequest (seq beginSeq endSeq : Nat) : FixMessage :=
  ((numbered .resendRequest seq).set Tags.BEGIN_SEQ_NO beginSeq.repr).set Tags.END_SEQ_NO endSeq.repr

theorem open_request_resynchronises : Resynchronises (freshSession false) 0 (resendRequest 1 1 0) :=
  (resend_request_resynchronises_iff (freshSession false) 0 1 0 (resendRequest 1 1 0) (by decide +kernel)
    (by decide +kernel) (by decide +kernel) (by decide +kernel)).mpr (.inl rfl)

/-- Asked for the numbers up to five before it has sent anything, a session lets its peer expect six. -/
theorem request_beyond_sent_skips :
    (freshSession false).store.peekOut = 1 ∧
      (((freshSession false).handleInbound 0 (resendRequest 1 1 5)).1.outbound.map fun fill =>
        (fill.getU64 Tags.NEW_SEQ_NO, ((freshSession false).handleInbound 0 fill).2.store.currentIn)) =
        [(some 6, 6)] ∧
      ((freshSession false).handleInbound 0 (resendRequest 1 1 5)).2.store.peekOut = 1 := by
  decide +kernel

end Atomr.Fix
