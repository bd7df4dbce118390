import Atomr.Fix.SessionCounters
import Atomr.Library.Runs

/-! The application messages that a session hands on, over any stream of inbound messages.

Only the expected number is held against a message. A message without a number,
and the state of the session, are not looked at.
-/

namespace Atomr.Fix

open Library List Option

def FixMessage.isApplication (msg : FixMessage) : Bool := msg.msgType.any fun kind => !kind.isAdmin

namespace FixSession

/-- Handling the message sets both counters back to one. -/
def Restarts (session : FixSession) (msg : FixMessage) : Prop :=
  session.Passes msg ∧ (msg.isResetLogon ∨ ReplyRestarts session msg)
deriving Decidable

variable {m : FixMessage}

theorem dispatch_of_isApplication (s : FixSession) (t : Nat) (app : m.isApplication) :
    s.dispatch t m = ({ application := some m }, s.observe m.seqNum) := by
  obtain ⟨kind, type, admin⟩ := (any_eq_true _ _).mp app
  unfold dispatch
  rw [type]
  cases kind with
  | newOrderSingle | executionReport | other code => rfl
  | _ => cases admin

theorem application_dispatch_of_not (s : FixSession) (t : Nat) (admin : m.isApplication = false) :
    (s.dispatch t m).1.application = none := by
  unfold dispatch
  cases type : m.msgType with
  | none => rfl
  | some kind =>
    cases kind with
    | logon =>
      simp only [onLogon]
      split <;> rfl
    | logout =>
      simp only [onLogout]
      split <;> rfl
    | newOrderSingle | executionReport | other code => simp [FixMessage.isApplication, type, MsgType.isAdmin] at admin
    | _ => rfl

theorem inExpected_onSequenceReset_ge (s : FixSession) (m : FixMessage) :
    s.store.inExpected ≤ (s.onSequenceReset m).store.inExpected := by
  unfold onSequenceReset
  split
  · split
    · exact s.inExpected_observe_ge _
    · exact Nat.le_refl _
  · exact Nat.le_refl _

variable {s : FixSession}

theorem inExpected_mono (t : Nat) (keeps : ¬ s.Restarts m) :
    s.store.inExpected ≤ (s.handleInbound t m).2.store.inExpected := by
  have hh := s.handleInbound_handled t m
  generalize s.handleInbound t m = res at hh
  cases hh with
  | gap | stale => exact Nat.le_refl _
  | dispatched passes =>
    obtain ⟨plain, quiet⟩ : m.isResetLogon = false ∧ ¬ ReplyRestarts s m := by
      simpa [Restarts, passes] using keeps
    cases type : m.msgType with
    | none => simp [dispatch, type]
    | some kind =>
      by_cases reset : kind = .sequenceReset
      · simpa [dispatch, type, reset] using s.inExpected_onSequenceReset_ge m
      by_cases logon : kind = .logon
      · have reacts : s.dispatch t m = s.onLogon t m := by simp [dispatch, type, logon]
        have silent : ¬ (s.state ≠ .logonSent ∧ s.config.resetOnLogon) := fun hans => quiet ⟨logon ▸ type, hans⟩
        rw [reacts, inExpected_onLogon, if_neg silent, restart, plain]
        exact s.inExpected_observe_ge m.seqNum
      · rw [inExpected_dispatch s t type logon reset]
        exact s.inExpected_observe_ge m.seqNum

theorem application_handleInbound {t : Nat} {app : FixMessage}
    (surf : (s.handleInbound t m).1.application = some app) :
    app = m ∧ m.isApplication ∧ s.Passes m ∧
      (s.handleInbound t m).2 = s.observe m.seqNum := by
  have hh := s.handleInbound_handled t m
  generalize s.handleInbound t m = res at surf hh
  cases hh with
  | gap | stale => cases surf
  | dispatched passes =>
    cases application : m.isApplication with
    | false => rw [application_dispatch_of_not s t application] at surf; cases surf
    | true =>
      rw [dispatch_of_isApplication s t application] at surf ⊢
      exact ⟨(Option.some.inj surf).symm, rfl, passes, rfl⟩

theorem not_admin_of_isApplication (app : m.isApplication) :
    m.msgType ≠ some .logon ∧ m.isSeqReset = false ∧ m.isResetLogon = false := by
  obtain ⟨kind, type, admin⟩ := (any_eq_true _ _).mp app
  have noLogon : kind ≠ .logon := fun eq => by simp [eq, MsgType.isAdmin] at admin
  have noReset : kind ≠ .sequenceReset := fun eq => by simp [eq, MsgType.isAdmin] at admin
  simp [FixMessage.isSeqReset, FixMessage.isResetLogon, type, noLogon, noReset]

end FixSession

structure Surfaced where
  epoch : Nat
  state : SessionState
  message : FixMessage

structure Feed where
  session : FixSession
  epoch : Nat
  surfaced : List Surfaced

namespace Feed

def start (session : FixSession) : Feed := ⟨session, 0, []⟩

def step (feed : Feed) (inbound : Nat × FixMessage) : Option Feed :=
  let handled := feed.session.handleInbound inbound.1 inbound.2
  some {
    session := handled.2
    epoch := if feed.session.Restarts inbound.2 then feed.epoch + 1 else feed.epoch
    surfaced := feed.surfaced ++ handled.1.application.toList.map (Surfaced.mk feed.epoch feed.session.state) }

/-- An application message has a number, and comes neither while disconnected nor with the last
number there is, where it is the expected one. -/
def Regular (feed : Feed) (inbound : Nat × FixMessage) : Prop :=
  inbound.2.isApplication → inbound.2.seqNum ≠ none ∧
    (inbound.2.seqNum = some feed.session.store.currentIn →
      feed.session.store.currentIn < 2 ^ 64 - 1 ∧ feed.session.state ≠ .disconnected)
deriving Decidable

def Ascends (first second : Surfaced) : Prop :=
  ∃ m n, first.message.seqNum = some m ∧ second.message.seqNum = some n ∧ m < n

structure InOrder (feed : Feed) : Prop where
  regular : ∀ entry ∈ feed.surfaced, entry.message.seqNum ≠ none ∧ entry.state ≠ .disconnected
  ascending : feed.surfaced.Pairwise fun a b => a.epoch = b.epoch → Ascends a b
  past : ∀ entry ∈ feed.surfaced, entry.epoch ≤ feed.epoch
  below : ∀ entry ∈ feed.surfaced, entry.epoch = feed.epoch →
    ∃ n, entry.message.seqNum = some n ∧ n < feed.session.store.inExpected

/-- A step hands the message on and observes its number, or hands nothing on and either starts a
new epoch or leaves the expected number where it was or higher. -/
inductive Stepped (feed : Feed) (inbound : Nat × FixMessage) : Feed → Prop where
  | surfaced (application : inbound.2.isApplication) (passes : feed.session.Passes inbound.2) :
      Stepped feed inbound ⟨feed.session.observe inbound.2.seqNum, feed.epoch,
        feed.surfaced ++ [⟨feed.epoch, feed.session.state, inbound.2⟩]⟩
  | restarted (session : FixSession) : Stepped feed inbound ⟨session, feed.epoch + 1, feed.surfaced⟩
  | quiet {session : FixSession} (later : feed.session.store.inExpected ≤ session.store.inExpected) :
      Stepped feed inbound ⟨session, feed.epoch, feed.surfaced⟩

variable {feed : Feed} {inbound : Nat × FixMessage} {next : Feed}

theorem step_stepped (taken : feed.step inbound = some next) : feed.Stepped inbound next := by
  rw [← Option.some.inj taken]
  cases handed : (feed.session.handleInbound inbound.1 inbound.2).1.application with
  | some app =>
    obtain ⟨rfl, application, passes, post⟩ := FixSession.application_handleInbound handed
    obtain ⟨noLogon, -, noReset⟩ := FixSession.not_admin_of_isApplication application
    have keeps : ¬ feed.session.Restarts inbound.2 := by simp [FixSession.Restarts, ReplyRestarts, noLogon, noReset]
    simpa only [post, keeps, if_false, toList_some, map_cons, map_nil] using
      Stepped.surfaced application passes
  | none =>
    by_cases rsts : feed.session.Restarts inbound.2
    · simpa only [rsts, if_true, toList_none, map_nil, append_nil] using Stepped.restarted _
    · have later := FixSession.inExpected_mono inbound.1 rsts
      simpa only [rsts, if_false, toList_none, map_nil, append_nil] using Stepped.quiet later

theorem InOrder.surface {m : FixMessage} (order : feed.InOrder)
    (num : m.seqNum = some feed.session.store.inExpected) (room : feed.session.store.inExpected < 2 ^ 64 - 1)
    (connected : feed.session.state ≠ .disconnected) :
    InOrder ⟨feed.session.observe m.seqNum, feed.epoch,
      feed.surfaced ++ [⟨feed.epoch, feed.session.state, m⟩]⟩ where
  regular := forall_mem_append.mpr ⟨order.regular, forall_mem_singleton.mpr ⟨by simp [num], connected⟩⟩
  ascending := by
    refine pairwise_append.mpr ⟨order.ascending, pairwise_singleton _ _, fun e old => ?_⟩
    refine forall_mem_singleton.mpr fun eq => ?_
    obtain ⟨n, earlier, below⟩ := order.below e old eq
    exact ⟨n, _, earlier, num, below⟩
  past := forall_mem_append.mpr ⟨order.past, forall_mem_singleton.mpr (Nat.le_refl _)⟩
  below := by
    have moved : (feed.session.observe m.seqNum).store.inExpected = feed.session.store.inExpected + 1 := by
      rw [num, FixSession.inExpected_observe]
      omega
    simp only [moved]
    refine forall_mem_append.mpr ⟨fun e old eq => ?_, forall_mem_singleton.mpr fun _ => ?_⟩
    · obtain ⟨n, earlier, below⟩ := order.below e old eq
      exact ⟨n, earlier, Nat.lt_succ_of_lt below⟩
    · exact ⟨_, num, Nat.lt_succ_self _⟩

theorem InOrder.step (order : feed.InOrder) (regular : feed.Regular inbound) (taken : feed.step inbound = some next) :
    next.InOrder := by
  cases step_stepped taken with
  | restarted s =>
    refine ⟨order.regular, order.ascending, fun e mem => ?_, fun e mem eq => ?_⟩
    · exact Nat.le_succ_of_le (order.past e mem)
    · have past := order.past e mem
      simp only at eq
      omega
  | quiet later =>
    refine ⟨order.regular, order.ascending, order.past, fun e mem eq => ?_⟩
    obtain ⟨n, num, below⟩ := order.below e mem eq
    exact ⟨n, num, Nat.lt_of_lt_of_le below later⟩
  | surfaced app passes =>
    obtain ⟨hp, first⟩ := regular app
    obtain ⟨-, noReset, noRestart⟩ := FixSession.not_admin_of_isApplication app
    have num : inbound.2.seqNum = some feed.session.store.inExpected := by
      simpa [FixSession.Passes, hp, noReset, noRestart] using passes
    obtain ⟨room, connected⟩ := first num
    exact order.surface num room connected

end Feed

/-- Along a stream of regular messages, what is handed on between two restarts has ascending
numbers, and nothing is handed on while the session is disconnected. -/
theorem surfaced_ascending {session : FixSession} {stream : List (Nat × FixMessage)} {last : Feed}
    (run : Run Feed.step Feed.Regular (.start session) stream last) :
    (∀ entry ∈ last.surfaced, entry.message.seqNum ≠ none ∧ entry.state ≠ .disconnected) ∧
      last.surfaced.Pairwise fun a b => a.epoch = b.epoch → Feed.Ascends a b := by
  have order := run.invariant Feed.InOrder (fun _ _ _ => Feed.InOrder.step)
    ⟨by simp [Feed.start], .nil, by simp [Feed.start], by simp [Feed.start]⟩
  exact ⟨order.regular, order.ascending⟩

def orderStream : List (Nat × FixMessage) :=
  [(0, numbered .logon 1), (1, numbered .newOrderSingle 2), (2, numbered .executionReport 3)]

theorem orderStream_ascending :
    ∃ last, Run Feed.step Feed.Regular (.start (freshSession false)) orderStream last ∧
      last.surfaced.length = 2 ∧ (last.surfaced.Pairwise fun a b => a.epoch = b.epoch → Feed.Ascends a b) := by
  exact Run.executed rfl fun run => ⟨by decide +kernel, (surfaced_ascending run).2⟩

def unnumberedStream : List (Nat × FixMessage) := [(0, .ofType .newOrderSingle), (1, .ofType .newOrderSingle)]

/-- Two messages without a number are handed on by a session that never saw a logon. -/
theorem unnumbered_surfaced_while_disconnected :
    ∃ last, Run Feed.step (fun _ _ => True) (.start (freshSession false)) unnumberedStream last ∧
      (last.surfaced.map fun entry => (entry.epoch, entry.state, entry.message.seqNum)) =
        [(0, .disconnected, none), (0, .disconnected, none)] := by
  exact ⟨_, Run.of_foldlM rfl, by decide +kernel⟩

end Atomr.Fix
