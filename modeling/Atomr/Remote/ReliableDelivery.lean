import Atomr.Remote.Endpoint
import Atomr.Library.Runs

/-! A sending endpoint, its peer and the link between them.

The link loses frames, delivers them in any order and may drop everything at
once. Two logs record what the endpoint accepted for sending and which numbers
the peer's receive buffer was shown.
-/

namespace Atomr.Remote

open Library List Option

structure Association where
  writer : Option EndpointWriter
  peer : EndpointReader
  outbound : List AkkaPdu
  returning : List AckInfo
  accepted : List RemoteEnvelope
  observed : Finset Nat

inductive LinkAction where
  | send (envelope : RemoteEnvelope)
  | sendSystem (envelope : RemoteEnvelope)
  | resend
  | shutdown (reason : DisassociateReason)
  | heartbeat
  | deliver (position : Nat)
  | report
  | acknowledge (position : Nat)
  | loseOutbound (position : Nat)
  | loseReturning (position : Nat)
  | disconnect

namespace Association

def start (ackWindow : Nat) : Association := ⟨some (.new ackWindow), .new, [], [], [], ∅⟩

def command (a : Association) (w : EndpointWriter) (cmd : EndpointCmd) : Association :=
  { a with writer := (w.handle cmd).1, outbound := a.outbound ++ (w.handle cmd).2 }

def submit (a : Association) (w : EndpointWriter) (cmd : EndpointCmd) (envelope : RemoteEnvelope) : Association :=
  { a.command w cmd with accepted := a.accepted ++ [(w.transmit envelope).2] }

/-- A frame reaches the peer; only envelopes concern its receive buffer. -/
def arrive (a : Association) : AkkaPdu → Association
  | .payload envelope =>
    { a with peer := (a.peer.handle (.payload envelope)).1, observed := insert envelope.seqNo a.observed }
  | _ => a

def step (a : Association) : LinkAction → Option Association
  | .send envelope => a.writer.map fun w => a.submit w (.send envelope) envelope
  | .sendSystem envelope => a.writer.map fun w => a.submit w (.sendSystem envelope) envelope
  | .resend => a.writer.map fun w => a.command w .resendBuffer
  | .shutdown reason => a.writer.map fun w => a.command w (.shutdown reason)
  | .heartbeat => a.writer.map fun _ => { a with outbound := a.outbound ++ [.heartbeat] }
  | .deliver position => a.outbound[position]?.map fun pdu =>
      { a with outbound := a.outbound.eraseIdx position }.arrive pdu
  | .report => some { a with returning := a.returning ++ a.peer.ackTick.toList }
  -- The reader half forwards an acknowledgement to its writer.
  | .acknowledge position => a.writer.bind fun w => a.returning[position]?.map fun ack =>
      { a with returning := a.returning.eraseIdx position }.command w (.applyAck ack)
  | .loseOutbound position => some { a with outbound := a.outbound.eraseIdx position }
  | .loseReturning position => some { a with returning := a.returning.eraseIdx position }
  | .disconnect => some { a with outbound := [], returning := [] }

def Buffered (a : Association) (envelope : RemoteEnvelope) : Prop :=
  (a.writer.bind fun w => w.sendBuf.pending.lookup envelope.seqNo) = some envelope
deriving Decidable

/-- Envelopes are submitted while the buffer has room and numbers are left, a resend finds every
pending number nacked, and a writer stops only when the peer has seen all that is pending. -/
def Orderly (a : Association) : LinkAction → Prop
  -- The largest number is left out too: a receiver at that watermark adds one without a check.
  | .send _ | .sendSystem _ => ∀ w ∈ a.writer, w.sendBuf.isFull = false ∧ w.seq + 2 < 2 ^ 64
  | .resend => ∀ w ∈ a.writer, ∀ seq ∈ w.sendBuf.pending.keys, seq ∈ w.sendBuf.nacks
  | .shutdown _ => ∀ w ∈ a.writer, ∀ seq ∈ w.sendBuf.pending.keys, seq ∈ a.observed
  | _ => True

instance (a : Association) (action : LinkAction) : Decidable (a.Orderly action) := by
  cases action <;> unfold Orderly <;> infer_instance

variable {a : Association} {e : RemoteEnvelope} {w : EndpointWriter}

theorem Buffered.lookup (hr : a.writer = some w) (buf : a.Buffered e) :
    w.sendBuf.pending.lookup e.seqNo = some e := by
  simpa [Buffered, hr] using buf

theorem Buffered.mem (hr : a.writer = some w) (buf : a.Buffered e) : e.seqNo ∈ w.sendBuf.pending.keys :=
  AList.mem_keys.mp (AList.lookup_isSome.mp (by rw [buf.lookup hr]; rfl))

end Association

structure Tracked (a : Association) : Prop where
  received : a.peer.recvBuf.Within a.observed
  reports : ∀ ack ∈ a.returning, ∀ n, 1 ≤ n → n ≤ ack.cumulativeAck → n ∈ a.observed
  numbers : ∀ w ∈ a.writer, ∀ e ∈ a.accepted, e.seqNo ≤ w.seq
  pending : ∀ w ∈ a.writer, ∀ n e, w.sendBuf.pending.lookup n = some e → 1 ≤ n ∧ n ≤ w.seq
  kept : ∀ e ∈ a.accepted, e.seqNo ∈ a.observed ∨ a.Buffered e

theorem tracked_start (ackWindow : Nat) : Tracked (.start ackWindow) := by
  refine ⟨⟨?_, ?_⟩, ?_, ?_, ?_, ?_⟩ <;>
    simp [Association.start, EndpointReader.new, AckedReceiveBuffer.new, EndpointWriter.new, AckedSendBuffer.new]
  omega

variable {a next : Association} {w : EndpointWriter} {action : LinkAction}

theorem Tracked.link (htr : Tracked a) (writer : next.writer = a.writer) (pr : next.peer = a.peer)
    (acc : next.accepted = a.accepted) (obs : next.observed = a.observed)
    (reports : ∀ ack ∈ next.returning, ∀ n, 1 ≤ n → n ≤ ack.cumulativeAck → n ∈ a.observed) : Tracked next := by
  obtain ⟨recv, _, nums, pending, kept⟩ := htr
  constructor
  · rw [pr, obs]
    exact recv
  · rw [obs]
    exact reports
  · rw [writer, acc]
    exact nums
  · rw [writer]
    exact pending
  · rw [acc, obs]
    simpa only [Association.Buffered, writer] using kept

theorem Tracked.arrive (htr : Tracked a) (pdu : AkkaPdu) : Tracked (a.arrive pdu) := by
  cases pdu with
  | payload env =>
    refine ⟨htr.received.observe env.seqNo, ?_, htr.numbers, htr.pending, ?_⟩
    · intro ack mem n pos bdd
      exact Finset.mem_insert_of_mem (htr.reports ack mem n pos bdd)
    · intro e mem
      exact (htr.kept e mem).imp_left Finset.mem_insert_of_mem
  | associate info => exact htr
  | disassociate reason => exact htr
  | heartbeat => exact htr
  | ack info => exact htr

variable {cmd : EndpointCmd} {envelope : RemoteEnvelope}

theorem buffered_submit (hr : a.writer = some w) (room : w.sendBuf.isFull = false) (fresh : w.seq + 1 < 2 ^ 64)
    (sends : (w.handle cmd).1 = some (w.transmit envelope).1) (e : RemoteEnvelope) :
    (a.submit w cmd envelope).Buffered e ↔
      if e.seqNo = w.seq + 1 then e = { envelope with seqNo := w.seq + 1 } else a.Buffered e := by
  rw [EndpointWriter.transmit_of_room envelope room fresh] at sends
  simp only [Association.Buffered, Association.submit, Association.command, sends, hr, bind_some,
    Table.lookup_insert_if]
  split
  · rw [Option.some.injEq, eq_comm]
  · rfl

theorem Tracked.submit (htr : Tracked a) (hr : a.writer = some w) (room : w.sendBuf.isFull = false)
    (fresh : w.seq + 1 < 2 ^ 64) (sends : (w.handle cmd).1 = some (w.transmit envelope).1) :
    Tracked (a.submit w cmd envelope) := by
  have nums := htr.numbers w hr
  have transmitted := EndpointWriter.transmit_of_room envelope room fresh
  have next : (a.submit w cmd envelope).writer = some (w.transmit envelope).1 := sends
  have log : (a.submit w cmd envelope).accepted = a.accepted ++ [{ envelope with seqNo := w.seq + 1 }] := by
    rw [Association.submit, transmitted]
  rw [transmitted] at next
  refine ⟨htr.received, htr.reports, ?_, ?_, ?_⟩
  · rw [next, log]
    rintro _ ⟨⟩ e mem
    rcases mem_append.mp mem with old | new
    · exact Nat.le_succ_of_le (nums e old)
    · rw [mem_singleton.mp new]
  · rw [next]
    rintro _ ⟨⟩ n e found
    rw [Table.lookup_insert_if] at found
    split at found
    next eq => exact ⟨by omega, Nat.le_of_eq eq⟩
    · obtain ⟨pos, bdd⟩ := htr.pending w hr n e found
      exact ⟨pos, Nat.le_succ_of_le bdd⟩
  · rw [log]
    intro e mem
    rw [buffered_submit hr room fresh sends]
    -- An envelope accepted earlier has a smaller number, so its slot is not the one written.
    rcases mem_append.mp mem with old | new
    · have ne : e.seqNo ≠ w.seq + 1 := Nat.ne_of_lt (Nat.lt_succ_of_le (nums e old))
      rw [if_neg ne]
      exact htr.kept e old
    · rw [mem_singleton.mp new, if_pos rfl]
      exact Or.inr rfl

theorem buffered_applyAck (hr : a.writer = some w) (ack : AckInfo) (e : RemoteEnvelope) :
    (a.command w (.applyAck ack)).Buffered e ↔ ack.cumulativeAck < e.seqNo ∧ a.Buffered e := by
  simp only [Association.Buffered, Association.command, EndpointWriter.handle, bind_some,
    AckedSendBuffer.lookup_applyAck]
  split <;> simp_all

variable (tracked : Tracked a)
include tracked

theorem Tracked.applyAck (hr : a.writer = some w) {ack : AckInfo}
    (cov : ∀ n, 1 ≤ n → n ≤ ack.cumulativeAck → n ∈ a.observed) : Tracked (a.command w (.applyAck ack)) := by
  refine ⟨tracked.received, tracked.reports, ?_, ?_, ?_⟩
  · rintro _ ⟨⟩ e mem
    exact tracked.numbers w hr e mem
  · rintro _ ⟨⟩ n e found
    rw [AckedSendBuffer.lookup_applyAck] at found
    split at found
    · exact tracked.pending w hr n e found
    · cases found
  · intro e mem
    rw [buffered_applyAck hr]
    rcases tracked.kept e mem with seen | buf
    · exact Or.inl seen
    · by_cases above : ack.cumulativeAck < e.seqNo
      · exact Or.inr ⟨above, buf⟩
      · have pos := (tracked.pending w hr e.seqNo e (buf.lookup hr)).1
        exact Or.inl (cov e.seqNo pos (Nat.le_of_not_lt above))

theorem Tracked.resend (hr : a.writer = some w) : Tracked (a.command w .resendBuffer) := by
  refine ⟨tracked.received, tracked.reports, ?_, ?_, ?_⟩
  · rintro _ ⟨⟩ e mem
    exact tracked.numbers w hr e mem
  · rintro _ ⟨⟩ n e found
    exact tracked.pending w hr n e found
  · intro e mem
    simpa [Association.Buffered, hr, Association.command, EndpointWriter.handle, AckedSendBuffer.drainResend]
      using tracked.kept e mem

theorem Tracked.shutdown (hr : a.writer = some w) (seen : ∀ seq ∈ w.sendBuf.pending.keys, seq ∈ a.observed)
    (reason : DisassociateReason) : Tracked (a.command w (.shutdown reason)) := by
  refine ⟨tracked.received, tracked.reports, ?_, ?_, ?_⟩
  · rintro _ ⟨⟩
  · rintro _ ⟨⟩
  · intro e mem
    rcases tracked.kept e mem with obs | buf
    · exact Or.inl obs
    · exact Or.inl (seen e.seqNo (buf.mem hr))

theorem tracked_step (ord : a.Orderly action) (taken : a.step action = some next) : Tracked next := by
  cases action with
  | send env | sendSystem env =>
    obtain ⟨w, hr, rfl⟩ := map_eq_some_iff.mp taken
    obtain ⟨room, fresh⟩ := ord w hr
    exact tracked.submit hr room (by omega) rfl
  | resend =>
    obtain ⟨w, hr, rfl⟩ := map_eq_some_iff.mp taken
    exact tracked.resend hr
  | shutdown reason =>
    obtain ⟨w, hr, rfl⟩ := map_eq_some_iff.mp taken
    exact tracked.shutdown hr (ord w hr) reason
  | heartbeat =>
    obtain ⟨w, hr, rfl⟩ := map_eq_some_iff.mp taken
    exact tracked.link rfl rfl rfl rfl tracked.reports
  | deliver pos =>
    obtain ⟨pdu, _, rfl⟩ := map_eq_some_iff.mp taken
    have fewer : Tracked { a with outbound := a.outbound.eraseIdx pos } :=
      tracked.link rfl rfl rfl rfl tracked.reports
    exact fewer.arrive pdu
  | report =>
    cases taken
    refine tracked.link rfl rfl rfl rfl fun ack mem => ?_
    rcases mem_append.mp mem with old | new
    · exact tracked.reports ack old
    -- A report covers what the receive buffer has up to its watermark, all of it observed.
    · rw [a.peer.eq_ack_of_mem_ackTick new]
      exact tracked.received.below
  | acknowledge pos =>
    obtain ⟨w, hr, taken⟩ := bind_eq_some_iff.mp taken
    obtain ⟨ack, found, rfl⟩ := map_eq_some_iff.mp taken
    have fewer : Tracked { a with returning := a.returning.eraseIdx pos } :=
      tracked.link rfl rfl rfl rfl fun other mem => tracked.reports other (mem_of_mem_eraseIdx mem)
    exact fewer.applyAck hr (tracked.reports ack (mem_of_getElem? found))
  | loseOutbound pos =>
    cases taken
    exact tracked.link rfl rfl rfl rfl tracked.reports
  | loseReturning pos =>
    cases taken
    exact tracked.link rfl rfl rfl rfl fun ack mem => tracked.reports ack (mem_of_mem_eraseIdx mem)
  | disconnect =>
    cases taken
    exact tracked.link rfl rfl rfl rfl (by simp)
omit tracked

theorem writer_arrive (a : Association) (pdu : AkkaPdu) : (a.arrive pdu).writer = a.writer := by
  cases pdu <;> rfl

/-- In an orderly step an envelope leaves the buffer only when the peer has seen its number. -/
theorem leaves_only_observed (htr : Tracked a) (ord : a.Orderly action) (taken : a.step action = some next)
    {e : RemoteEnvelope} (pre : a.Buffered e) (post : ¬ next.Buffered e) : e.seqNo ∈ a.observed := by
  cases action with
  | send env | sendSystem env =>
    obtain ⟨w, hr, rfl⟩ := map_eq_some_iff.mp taken
    obtain ⟨room, fresh⟩ := ord w hr
    -- The new number is above every pending one, so no buffered envelope is overwritten.
    have bdd := (htr.pending w hr e.seqNo e (pre.lookup hr)).2
    rw [buffered_submit hr room (by omega) rfl, if_neg (by omega)] at post
    exact absurd pre post
  | resend =>
    obtain ⟨w, hr, rfl⟩ := map_eq_some_iff.mp taken
    exact absurd (pre.lookup hr) post
  | shutdown reason =>
    obtain ⟨w, hr, rfl⟩ := map_eq_some_iff.mp taken
    exact ord w hr e.seqNo (pre.mem hr)
  | acknowledge idx =>
    obtain ⟨w, hr, taken⟩ := bind_eq_some_iff.mp taken
    obtain ⟨ack, found, rfl⟩ := map_eq_some_iff.mp taken
    have pos := (htr.pending w hr e.seqNo e (pre.lookup hr)).1
    by_cases above : ack.cumulativeAck < e.seqNo
    · refine absurd ?_ post
      exact (buffered_applyAck hr ack e).mpr ⟨above, pre⟩
    · exact htr.reports ack (mem_of_getElem? found) e.seqNo pos (Nat.le_of_not_lt above)
  | deliver idx =>
    obtain ⟨pdu, _, rfl⟩ := map_eq_some_iff.mp taken
    rw [Association.Buffered, writer_arrive] at post
    exact absurd pre post
  | heartbeat =>
    obtain ⟨w, hr, rfl⟩ := map_eq_some_iff.mp taken
    exact absurd pre post
  | report | loseOutbound idx | loseReturning idx | disconnect =>
    cases taken
    exact absurd pre post

theorem resend_emits (ord : a.Orderly .resend) (taken : a.step .resend = some next) :
    ∃ hem, next.outbound = a.outbound ++ hem ∧ ∀ e, a.Buffered e → .payload e ∈ hem := by
  obtain ⟨w, hr, rfl⟩ := map_eq_some_iff.mp taken
  refine ⟨_, rfl, fun e buf => mem_map_of_mem ?_⟩
  have nacked := ord w hr e.seqNo (buf.mem hr)
  exact AckedSendBuffer.mem_drainResend.mpr ⟨e.seqNo, nacked, buf.lookup hr⟩

/-- Along orderly runs nothing is lost: what was accepted is buffered until the peer has seen it. -/
theorem delivery_reliable_when_orderly (ackWindow : Nat) (actions : List LinkAction) (a : Association)
    (run : Run Association.step Association.Orderly (.start ackWindow) actions a) :
    (∀ e ∈ a.accepted, e.seqNo ∈ a.observed ∨ a.Buffered e)
      ∧ ∀ action next, a.Orderly action → a.step action = some next →
          (∀ e, a.Buffered e → ¬ next.Buffered e → e.seqNo ∈ a.observed)
            ∧ (action = .resend →
                ∃ emitted, next.outbound = a.outbound ++ emitted ∧ ∀ e, a.Buffered e → .payload e ∈ emitted) := by
  have tracked := run.invariant Tracked (fun _ _ _ kept orderly taken => tracked_step kept orderly taken)
    (tracked_start ackWindow)
  refine ⟨tracked.kept, fun action next orderly taken => ⟨?_, ?_⟩⟩
  · exact fun e pre post => leaves_only_observed tracked orderly taken pre post
  · rintro rfl
    exact resend_emits orderly taken

/-- The first envelope is seen and acknowledged; the second one is lost on the link and stays
in the buffer. -/
theorem delivery_reliable_after_loss :
    let envelope : RemoteEnvelope := ⟨"akka://sys/user/a", none, 0, 0, 0, 1, "u32", false, [42]⟩
    let actions : List LinkAction :=
      [.send envelope, .deliver 0, .report, .acknowledge 0, .resend, .sendSystem envelope, .disconnect]
    ∃ a, Run Association.step Association.Orderly (.start 1) actions a
      ∧ a.accepted.map RemoteEnvelope.seqNo = [1, 2] ∧ a.observed = {1}
      ∧ ∀ e ∈ a.accepted, e.seqNo ∈ a.observed ∨ a.Buffered e := by
  intro envelope actions
  exact Run.executed rfl fun run =>
    ⟨by decide +kernel, by decide +kernel, (delivery_reliable_when_orderly 1 actions _ run).1⟩

/-- With a window of one, two envelopes are sent and lost with the connection. The request to
resend repeats neither, and the second one is in no buffer although the peer never saw it. -/
theorem resend_repeats_nothing_and_overflow_drops :
    let envelope : RemoteEnvelope := ⟨"akka://sys/user/a", none, 0, 0, 0, 1, "u32", false, [42]⟩
    let first := { envelope with seqNo := 1 }
    let second := { envelope with seqNo := 2 }
    let actions : List LinkAction := [.send envelope, .send envelope, .disconnect]
    ∃ a next, Run Association.step (fun _ _ => True) (.start 1) actions a ∧ a.step .resend = some next
      ∧ a.accepted = [first, second] ∧ a.observed = ∅
      ∧ a.Buffered first ∧ next.outbound = [] ∧ ¬ a.Buffered second := by
  intro envelope first second actions
  have run : Run Association.step (fun _ _ => True) (.start 1) actions _ := Run.of_foldlM rfl
  exact ⟨_, _, run, rfl, by decide +kernel⟩

end Atomr.Remote
