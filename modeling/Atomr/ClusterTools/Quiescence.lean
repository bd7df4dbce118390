import Atomr.ClusterTools.KillSwitch
import Mathlib.Data.Finset.Basic

/-! Quiescence: guarded parties that acknowledge a halt, on the calling node and on its peers.

A party can acknowledge once, and its acknowledgement can be awaited once: whoever
collects first takes the receiver. A node that is asked to halt answers when it has
finished collecting, whether or not its parties acknowledged. The run theorem asks
for calls that find every receiver and for answers that tell the truth.
-/

namespace Atomr.ClusterTools

open Library List Option

inductive AckState where
  | waiting
  | acked
  /-- The handle was dropped, and the receiver learns of it. -/
  | dropped
  deriving DecidableEq, Repr

structure Guarded where
  ack : AckState
  /-- The receiver has been taken by a collection. -/
  taken : Bool
  deriving DecidableEq, Repr

inductive HaltPdu where
  | halt (sender : String) (epoch : Nat) (reason : HaltReason)
  | ack (sender : String) (epoch : Nat)
  deriving DecidableEq, Repr

structure QuiescenceReport where
  acked : Nat
  total : Nat
  timedOut : Bool
  remoteAcked : Nat
  remoteTotal : Nat
  deriving DecidableEq, Repr

structure Collecting where
  receivers : List Nat
  acked : Nat
  total : Nat
  expired : Bool
  deriving DecidableEq, Repr

namespace Collecting

variable (parties : List Guarded)

def untaken : List Nat := (List.range parties.length).filter fun p => (parties[p]?).any fun party => !party.taken

def start : Collecting :=
  let receivers := untaken parties
  ⟨receivers, 0, receivers.length, false⟩

def takeAll : List Guarded := parties.map fun party => { party with taken := true }

/-- Resolve the next receiver. One that is still open is given up after the deadline. -/
def next (collecting : Collecting) (parties : List Guarded) : Option Collecting :=
  match collecting.receivers with
  | [] => none
  | p :: rest =>
    match (parties[p]?).map Guarded.ack with
    | some .acked => some { collecting with receivers := rest, acked := collecting.acked + 1 }
    | some .dropped => some { collecting with receivers := rest }
    | _ => if collecting.expired then some { collecting with receivers := rest } else none

end Collecting

structure QuiescenceCall where
  node : String
  epoch : Nat
  reason : HaltReason
  /-- How many parties the node had when the call began; the call does not keep this. -/
  registered : Nat
  parties : Collecting
  peers : Option (List String)

structure HaltCall where
  node : String
  origin : String
  epoch : Nat
  parties : Collecting

structure HaltSystem where
  switches : Cluster String
  guarded : String → List Guarded
  transport : String → Bool
  remoteAcks : String → Table Nat (Finset String)
  inFlight : List (String × HaltPdu)
  calls : List QuiescenceCall
  halts : List HaltCall

inductive HaltAction where
  | latch (action : Action String)
  | register (node : String)
  | ack (node : String) (party : Nat)
  | dropHandle (node : String) (party : Nat)
  | await (node : String)
  | collect (call : Nat)
  | expire (call : Nat)
  | broadcast (call : Nat) (peers : List String)
  | finish (call : Nat)
  | deliver (index : Nat)
  | collectHalt (halt : Nat)
  | expireHalt (halt : Nat)
  | answer (halt : Nat)

namespace HaltSystem

def start (baseKey : String) (transport : String → Bool) : HaltSystem :=
  ⟨ClusterTools.start baseKey id, fun _ => [], transport, fun _ => ∅, [], [], []⟩

def setParties (system : HaltSystem) (node : String) (parties : List Guarded) : HaltSystem :=
  { system with guarded := Function.update system.guarded node parties }

def ackedPeers (system : HaltSystem) (node : String) (epoch : Nat) : Finset String :=
  ((system.remoteAcks node).lookup epoch).getD ∅

def remoteAckCount (system : HaltSystem) (node : String) (epoch : Nat) (peers : List String) : Nat :=
  peers.countP fun peer => peer ∈ system.ackedPeers node epoch

def settleHandle (system : HaltSystem) (node : String) (party : Nat) (outcome : AckState) : Option HaltSystem :=
  match (system.guarded node)[party]? with
  | some held =>
    if held.ack = .waiting then
      some (system.setParties node ((system.guarded node).set party { held with ack := outcome }))
    else none
  | none => none

def awaitQuiescence (system : HaltSystem) (node : String) : HaltSystem :=
  let switch := system.switches node
  let parties := system.guarded node
  { system.setParties node (Collecting.takeAll parties) with
    calls := system.calls ++ [{
      node
      epoch := switch.epoch
      reason := switch.lastReason.getD (.manual "")
      registered := parties.length
      parties := .start parties
      peers := none }] }

/-- Start the acknowledgements of the epoch from empty, and ask every peer. -/
def startRemote (system : HaltSystem) (call : QuiescenceCall) (peers : List String) : HaltSystem :=
  if peers = [] then system
  else { system with
    remoteAcks := Function.update system.remoteAcks call.node
      ((system.remoteAcks call.node).insert call.epoch ∅)
    inFlight := system.inFlight ++ peers.map fun peer => (peer, .halt call.node call.epoch call.reason) }

def applyPdu (system : HaltSystem) (node : String) : HaltPdu → HaltSystem
  | .halt origin epoch reason =>
    let parties := system.guarded node
    { system.setParties node (Collecting.takeAll parties) with
      switches := Function.update system.switches node ((system.switches node).engageEpoch epoch reason)
      halts := system.halts ++ [⟨node, origin, epoch, .start parties⟩] }
  | .ack sender epoch => { system with
      remoteAcks := Function.update system.remoteAcks node
        ((system.remoteAcks node).upsert epoch fun held => insert sender (held.getD ∅)) }

end HaltSystem

namespace QuiescenceCall

def remote (call : QuiescenceCall) (system : HaltSystem) : Nat × Nat :=
  match call.peers with
  | none => (0, 0)
  | some peers => (system.remoteAckCount call.node call.epoch peers, peers.length)

def report (call : QuiescenceCall) (system : HaltSystem) : QuiescenceReport :=
  let (remoteAcked, remoteTotal) := call.remote system
  let acked := call.parties.acked + remoteAcked
  let total := call.parties.total + remoteTotal
  { acked, total, timedOut := acked < total, remoteAcked, remoteTotal }

def counted (call : QuiescenceCall) (system : HaltSystem) : List String :=
  (call.peers.getD []).filter fun peer => peer ∈ system.ackedPeers call.node call.epoch

/-- The local receivers are resolved, and so is the remote tier of a node that has one. -/
def Ready (call : QuiescenceCall) (system : HaltSystem) : Prop :=
  call.parties.receivers = [] ∧ (call.peers = none → system.transport call.node = false) ∧
    (call.parties.expired ∨ (call.remote system).2 ≤ (call.remote system).1)
deriving Decidable

end QuiescenceCall

namespace HaltSystem

def setCall (system : HaltSystem) (index : Nat) (call : QuiescenceCall) : HaltSystem :=
  { system with calls := system.calls.set index call }

def setHalt (system : HaltSystem) (index : Nat) (halt : HaltCall) : HaltSystem :=
  { system with halts := system.halts.set index halt }

def step (system : HaltSystem) : HaltAction → Option HaltSystem
  | .latch action => (ClusterTools.step system.switches action).map fun switches => { system with switches }
  | .register node => some (system.setParties node (system.guarded node ++ [⟨.waiting, false⟩]))
  | .ack node party => system.settleHandle node party .acked
  | .dropHandle node party => system.settleHandle node party .dropped
  | .await node => some (system.awaitQuiescence node)
  | .collect index => do
    let call ← system.calls[index]?
    let parties ← call.parties.next (system.guarded call.node)
    some (system.setCall index { call with parties })
  | .expire index => do
    let call ← system.calls[index]?
    some (system.setCall index { call with parties := { call.parties with expired := true } })
  | .broadcast index peers => do
    let call ← system.calls[index]?
    if call.parties.receivers = [] ∧ call.peers = none ∧ system.transport call.node then
      some ((system.startRemote call peers).setCall index { call with peers := some peers })
    else none
  | .finish index => do
    let call ← system.calls[index]?
    if call.Ready system then some { system with calls := system.calls.eraseIdx index } else none
  | .deliver index => do
    let (node, pdu) ← system.inFlight[index]?
    some (applyPdu { system with inFlight := system.inFlight.eraseIdx index } node pdu)
  | .collectHalt index => do
    let halt ← system.halts[index]?
    let parties ← halt.parties.next (system.guarded halt.node)
    some (system.setHalt index { halt with parties })
  | .expireHalt index => do
    let halt ← system.halts[index]?
    some (system.setHalt index { halt with parties := { halt.parties with expired := true } })
  -- The counts of the collection are not looked at.
  | .answer index => do
    let halt ← system.halts[index]?
    if halt.parties.receivers = [] then
      let reply := if system.transport halt.node then [(halt.origin, HaltPdu.ack halt.node halt.epoch)] else []
      some { system with halts := system.halts.eraseIdx index, inFlight := system.inFlight ++ reply }
    else none

end HaltSystem

def HaltPdu.acksFor (node : String) : HaltPdu → Bool
  | .ack sender _ => sender = node
  | .halt _ _ _ => false

def AllAcked (guarded : String → List Guarded) (node : String) : Prop :=
  ∀ party ∈ guarded node, party.ack = .acked
deriving Decidable

def Acked (guarded : String → List Guarded) (node : String) (p : Nat) : Prop :=
  ∃ party, (guarded node)[p]? = some party ∧ party.ack = .acked

/-- A call finds the receiver of every party that has not acknowledged; a node that
answers has had all its parties acknowledge; and a party is not registered on a node
whose answer is under way or has been counted by a call. An answer to an earlier call
that arrives late is counted by the next call of its epoch, though it says nothing of the
parties registered since. -/
def OrderlyHalt (system : HaltSystem) : HaltAction → Prop
  | .await node => ∀ party ∈ system.guarded node, party.taken = true → party.ack = .acked
  | .answer index => ∀ halt ∈ system.halts[index]?, system.transport halt.node → AllAcked system.guarded halt.node
  | .register node => (∀ message ∈ system.inFlight, message.2.acksFor node = false) ∧
      ∀ call ∈ system.calls, ∀ peers ∈ call.peers, node ∈ peers → node ∉ system.ackedPeers call.node call.epoch
  | _ => True

/-- Unless a receiver was given up, each party registered before the call has
acknowledged or is still waited for. -/
structure LocalSound (guarded : String → List Guarded) (call : QuiescenceCall) : Prop where
  counts : call.parties.acked + call.parties.receivers.length ≤ call.parties.total
  parties : call.parties.acked + call.parties.receivers.length = call.parties.total →
    ∀ p < call.registered, Acked guarded call.node p ∨ p ∈ call.parties.receivers

structure SoundHalt (system : HaltSystem) : Prop where
  answers : ∀ message ∈ system.inFlight, ∀ node, message.2.acksFor node → AllAcked system.guarded node
  remote : ∀ call ∈ system.calls, ∀ peers ∈ call.peers, ∀ peer ∈ peers,
    peer ∈ system.ackedPeers call.node call.epoch → AllAcked system.guarded peer
  calls : ∀ call ∈ system.calls, LocalSound system.guarded call

structure Steady (guarded guarded' : String → List Guarded) : Prop where
  acked : ∀ node p, Acked guarded node p → Acked guarded' node p
  all : ∀ node, AllAcked guarded node → AllAcked guarded' node

variable {call : QuiescenceCall} {guarded : String → List Guarded} {n : String}

theorem LocalSound.mono {guarded' : String → List Guarded} (sound : LocalSound guarded call)
    (kept : ∀ n p, Acked guarded n p → Acked guarded' n p) : LocalSound guarded' call :=
  ⟨sound.counts, fun exact p bound => (sound.parties exact p bound).imp_left (kept _ p)⟩

variable {system post : HaltSystem}

theorem SoundHalt.steady (sound : SoundHalt system) (steady : Steady system.guarded guarded) :
    SoundHalt { system with guarded } where
  answers m mem n acks := steady.all n (sound.answers m mem n acks)
  remote c mem peers known pr listed counted :=
    steady.all pr (sound.remote c mem peers known pr listed counted)
  calls c mem := (sound.calls c mem).mono steady.acked

theorem steady_update {ps : List Guarded}
    (kept : ∀ (p : Nat) (party : Guarded), (guarded n)[p]? = some party → party.ack = .acked →
      ∃ party', ps[p]? = some party' ∧ party'.ack = .acked)
    (all : (∀ party ∈ guarded n, party.ack = .acked) → ∀ party ∈ ps, party.ack = .acked) :
    Steady guarded (Function.update guarded n ps) where
  acked other p acked := by
    by_cases eq : other = n
    · subst eq
      obtain ⟨party, found, done⟩ := acked
      simpa [Acked] using kept p party found done
    · simpa [Acked, eq] using acked
  all other every := by
    by_cases eq : other = n
    · subst eq
      simpa [AllAcked] using all every
    · simpa [AllAcked, eq] using every

theorem steady_takeAll (guarded : String → List Guarded) (n : String) :
    Steady guarded (Function.update guarded n (Collecting.takeAll (guarded n))) := by
  refine steady_update (fun p party found done => ⟨{ party with taken := true }, ?_, done⟩) fun every => ?_
  · simp [Collecting.takeAll, found]
  · intro party mem
    obtain ⟨h, hp, rfl⟩ := mem_map.mp mem
    exact every h hp

theorem steady_settleHandle {party : Nat} {out : AckState}
    (settled : system.settleHandle n party out = some post) :
    ∃ guarded, Steady system.guarded guarded ∧ post = { system with guarded } := by
  unfold HaltSystem.settleHandle at settled
  split at settled
  next h found =>
    split at settled
    next waiting =>
      cases settled
      refine ⟨_, steady_update (fun p other there done => ?_) fun every => ?_, rfl⟩
      · have ne : party ≠ p := by
          rintro rfl
          cases found.symm.trans there
          simp [waiting] at done
        exact ⟨other, by rw [List.getElem?_set_ne ne, there], done⟩
      · have closed := every h (mem_of_getElem? found)
        simp [waiting] at closed
    · cases settled
  · cases settled

theorem SoundHalt.register (sound : SoundHalt system) (ord : OrderlyHalt system (.register n)) :
    SoundHalt (system.setParties n (system.guarded n ++ [⟨.waiting, false⟩])) := by
  obtain ⟨quiet, uncounted⟩ := ord
  have others : ∀ other, other ≠ n → AllAcked system.guarded other →
      AllAcked (Function.update system.guarded n (system.guarded n ++ [⟨.waiting, false⟩])) other := by
    intro other ne every
    simpa [AllAcked, ne] using every
  refine ⟨fun m mem other acks => ?_, fun c mem peers known pr listed counted => ?_,
    fun c mem => (sound.calls c mem).mono fun other p acked => ?_⟩
  · refine others other ?_ (sound.answers m mem other acks)
    rintro rfl
    simp [quiet m mem] at acks
  · refine others pr ?_ (sound.remote c mem peers known pr listed counted)
    rintro rfl
    exact uncounted c mem peers known listed counted
  · obtain ⟨party, found, done⟩ := acked
    by_cases eq : other = n
    · subst eq
      have bound : p < (system.guarded other).length := (List.getElem?_eq_some_iff.mp found).1
      exact ⟨party, by simp [HaltSystem.setParties, List.getElem?_append_left bound, found], done⟩
    · exact ⟨party, by simpa [HaltSystem.setParties, eq] using found, done⟩

theorem LocalSound.start (ord : ∀ party ∈ guarded n, party.taken = true → party.ack = .acked) (ep : Nat)
    (reason : HaltReason) :
    LocalSound guarded ⟨n, ep, reason, (guarded n).length, .start (guarded n), none⟩ where
  counts := by simp [Collecting.start]
  parties _ p bound := by
    have found : (guarded n)[p]? = some ((guarded n)[p]) := List.getElem?_eq_getElem bound
    by_cases taken : ((guarded n)[p]).taken = true
    · exact .inl ⟨_, found, ord _ (getElem_mem bound) taken⟩
    · refine .inr (mem_filter.mpr ⟨mem_range.mpr bound, ?_⟩)
      simp [found, taken]

theorem LocalSound.collected {parties : Collecting} (sound : LocalSound guarded call)
    (res : call.parties.next (guarded call.node) = some parties) : LocalSound guarded { call with parties } := by
  have counts := sound.counts
  unfold Collecting.next at res
  split at res
  · cases res
  next p rest receivers =>
    have skipped : LocalSound guarded { call with parties := { call.parties with receivers := rest } } := by
      rw [receivers, length_cons] at counts
      exact ⟨by simp only; omega, fun exact => by simp only at exact; omega⟩
    split at res
    next acked =>
      cases res
      obtain ⟨party, found, done⟩ := map_eq_some_iff.mp acked
      rw [receivers, length_cons] at counts
      refine ⟨by simp only; omega, fun exact q bound => ?_⟩
      rcases sound.parties (by rw [receivers, length_cons]; simp only at exact; omega) q bound with
        acknowledged | waited
      · exact .inl acknowledged
      · rw [receivers] at waited
        rcases mem_cons.mp waited with rfl | later
        · exact .inl ⟨party, found, done⟩
        · exact .inr later
    · cases res
      exact skipped
    · split at res
      · cases res
        exact skipped
      · cases res

theorem SoundHalt.setCall (sound : SoundHalt system) (i : Nat) (remote : ∀ peers ∈ call.peers, ∀ pr ∈ peers,
      pr ∈ system.ackedPeers call.node call.epoch → AllAcked system.guarded pr)
    (ps : LocalSound system.guarded call) : SoundHalt (system.setCall i call) where
  answers := sound.answers
  remote other mem := by
    rcases mem_or_eq_of_mem_set mem with old | rfl
    · exact sound.remote other old
    · exact remote
  calls other mem := by
    rcases mem_or_eq_of_mem_set mem with old | rfl
    · exact sound.calls other old
    · exact ps

theorem SoundHalt.awaitQuiescence (sound : SoundHalt system) (ord : OrderlyHalt system (.await n)) :
    SoundHalt (system.awaitQuiescence n) := by
  have steady := steady_takeAll system.guarded n
  have kept := sound.steady steady
  refine ⟨kept.answers, forall_mem_append.mpr ⟨kept.remote, forall_mem_singleton.mpr ?_⟩,
    forall_mem_append.mpr ⟨kept.calls, forall_mem_singleton.mpr ?_⟩⟩
  · intro peers known
    cases known
  · exact (LocalSound.start ord _ _).mono steady.acked

theorem ackedPeers_update (n other : String) (ep : Nat) (acks : Table Nat (Finset String)) :
    HaltSystem.ackedPeers { system with remoteAcks := Function.update system.remoteAcks n acks } other ep =
      if other = n then (acks.lookup ep).getD ∅ else system.ackedPeers other ep := by
  unfold HaltSystem.ackedPeers
  by_cases eq : other = n
  · subst eq
    simp
  · simp [eq]

@[simp]
theorem startRemote_calls (c : QuiescenceCall) (peers : List String) :
    (system.startRemote c peers).calls = system.calls := by
  unfold HaltSystem.startRemote
  split <;> rfl

@[simp]
theorem startRemote_guarded (c : QuiescenceCall) (peers : List String) :
    (system.startRemote c peers).guarded = system.guarded := by
  unfold HaltSystem.startRemote
  split <;> rfl

theorem ackedPeers_startRemote (c : QuiescenceCall) {peers : List String} (some_peer : peers ≠ [])
    (n : String) (ep : Nat) :
    (system.startRemote c peers).ackedPeers n ep =
      if n = c.node ∧ ep = c.epoch then ∅ else system.ackedPeers n ep := by
  rw [HaltSystem.startRemote, if_neg some_peer]
  refine (ackedPeers_update c.node n ep _).trans ?_
  by_cases eq : n = c.node
  · subst eq
    by_cases here : ep = c.epoch
    · subst here
      simp
    · simp [here, HaltSystem.ackedPeers]
  · simp [eq]

variable (sound : SoundHalt system)
include sound

theorem SoundHalt.startRemote (c : QuiescenceCall) (peers : List String) :
    SoundHalt (system.startRemote c peers) := by
  by_cases nobody : peers = []
  · simpa [HaltSystem.startRemote, nobody] using sound
  · refine ⟨fun m hp => ?_, fun other hp known listed pr among counted => ?_, ?_⟩
    · rw [HaltSystem.startRemote, if_neg nobody] at hp ⊢
      intro n acksFor
      rcases mem_append.mp hp with old | new
      · exact sound.answers m old n acksFor
      · obtain ⟨_, _, rfl⟩ := mem_map.mp new
        cases acksFor
    · rw [startRemote_calls] at hp
      rw [startRemote_guarded]
      refine sound.remote other hp known listed pr among ?_
      rw [ackedPeers_startRemote c nobody] at counted
      split at counted
      · cases counted
      · exact counted
    · simpa using sound.calls

theorem SoundHalt.broadcast (mem : call ∈ system.calls) (i : Nat) (peers : List String) :
    SoundHalt ((system.startRemote call peers).setCall i { call with peers := some peers }) := by
  refine (sound.startRemote call peers).setCall i ?_ ?_
  · rintro _ ⟨⟩ pr listed counted
    rw [ackedPeers_startRemote call (ne_nil_of_mem listed), if_pos ⟨rfl, rfl⟩] at counted
    cases counted
  · rw [startRemote_guarded]
    exact ⟨(sound.calls call mem).counts, (sound.calls call mem).parties⟩

theorem SoundHalt.applyPdu {pdu : HaltPdu} (truthful : ∀ other, pdu.acksFor other → AllAcked system.guarded other) :
    SoundHalt (system.applyPdu n pdu) := by
  cases pdu with
  | halt origin ep reason =>
    have kept := sound.steady (steady_takeAll system.guarded n)
    exact ⟨kept.answers, kept.remote, kept.calls⟩
  | ack snd ep =>
    refine ⟨sound.answers, fun c mem peers known pr listed counted => ?_, sound.calls⟩
    by_cases eq : pr = snd
    · exact truthful pr (by simp [HaltPdu.acksFor, eq])
    · refine sound.remote c mem peers known pr listed ?_
      simp only [HaltSystem.applyPdu, ackedPeers_update] at counted
      split at counted
      next here =>
        rw [Table.lookup_upsert_if] at counted
        split at counted
        next there =>
          rw [getD_some, Finset.mem_insert] at counted
          exact here ▸ there ▸ counted.resolve_left eq
        · exact here ▸ counted
      · exact counted

theorem SoundHalt.fewer {calls : List QuiescenceCall} {inFlight : List (String × HaltPdu)} (switches : Cluster String)
    (halts : List HaltCall) (kept : ∀ c ∈ calls, c ∈ system.calls)
    (as : ∀ m ∈ inFlight, m ∈ system.inFlight ∨
      ∀ n, m.2.acksFor n → AllAcked system.guarded n) :
    SoundHalt { system with switches, halts, calls, inFlight } where
  answers m mem n acks :=
    (as m mem).elim (fun old => sound.answers m old n acks) fun truthful => truthful n acks
  remote c mem := sound.remote c (kept c mem)
  calls c mem := sound.calls c (kept c mem)

theorem SoundHalt.step (act : HaltAction) (ord : OrderlyHalt system act)
    (moved : system.step act = some post) : SoundHalt post := by
  cases act with
  | latch act =>
    obtain ⟨switches, -, rfl⟩ := map_eq_some_iff.mp moved
    exact sound.fewer switches _ (fun _ => id) fun _ => .inl
  | register n =>
    cases moved
    exact sound.register ord
  | ack n p | dropHandle n p =>
    obtain ⟨guarded, steady, rfl⟩ := steady_settleHandle moved
    exact sound.steady steady
  | await n =>
    cases moved
    exact sound.awaitQuiescence ord
  | collect i =>
    obtain ⟨c, found, resolving⟩ := bind_eq_some_iff.mp moved
    obtain ⟨ps, res, ⟨⟩⟩ := bind_eq_some_iff.mp resolving
    have mem := mem_of_getElem? found
    exact sound.setCall i (sound.remote c mem) ((sound.calls c mem).collected res)
  | expire i =>
    obtain ⟨c, found, ⟨⟩⟩ := bind_eq_some_iff.mp moved
    have mem := mem_of_getElem? found
    exact sound.setCall i (sound.remote c mem)
      ⟨(sound.calls c mem).counts, (sound.calls c mem).parties⟩
  | broadcast i peers =>
    obtain ⟨c, found, begun⟩ := bind_eq_some_iff.mp moved
    split at begun
    · cases begun
      exact sound.broadcast (mem_of_getElem? found) i peers
    · cases begun
  | finish i =>
    obtain ⟨c, -, ended⟩ := bind_eq_some_iff.mp moved
    split at ended
    · cases ended
      exact sound.fewer _ _ (fun _ => mem_of_mem_eraseIdx) fun _ => .inl
    · cases ended
  | deliver i =>
    obtain ⟨⟨n, pdu⟩, found, ⟨⟩⟩ := bind_eq_some_iff.mp moved
    refine SoundHalt.applyPdu (sound.fewer _ _ (fun _ => id) fun _ kept => .inl (mem_of_mem_eraseIdx kept)) ?_
    exact sound.answers (n, pdu) (mem_of_getElem? found)
  | collectHalt i =>
    obtain ⟨halt, -, resolving⟩ := bind_eq_some_iff.mp moved
    obtain ⟨ps, -, ⟨⟩⟩ := bind_eq_some_iff.mp resolving
    exact sound.fewer _ _ (fun _ => id) fun _ => .inl
  | expireHalt i =>
    obtain ⟨halt, -, ⟨⟩⟩ := bind_eq_some_iff.mp moved
    exact sound.fewer _ _ (fun _ => id) fun _ => .inl
  | answer i =>
    obtain ⟨halt, found, hans⟩ := bind_eq_some_iff.mp moved
    split at hans
    · cases hans
      refine sound.fewer _ _ (fun _ => id) fun m mem => ?_
      rcases mem_append.mp mem with old | new
      · exact .inl old
      · refine .inr fun n acks => ?_
        split at new
        next attached =>
          cases mem_singleton.mp new
          have eq : halt.node = n := by simpa [HaltPdu.acksFor] using acks
          exact eq ▸ ord halt found attached
        · cases new
    · cases hans
omit sound

theorem SoundHalt.start (baseKey : String) (transport : String → Bool) :
    SoundHalt (HaltSystem.start baseKey transport) where
  answers := nofun
  remote := nofun
  calls := nofun

/-- A report without a timeout, in a run whose calls find every receiver and whose
answers tell the truth: the parties of the caller and of every counted peer have acknowledged. -/
theorem quiescence_report_sound {baseKey : String} {transport : String → Bool} {actions : List HaltAction}
    (run : Run HaltSystem.step OrderlyHalt (HaltSystem.start baseKey transport) actions system)
    {call : QuiescenceCall} (running : call ∈ system.calls) (ready : call.Ready system)
    (complete : (call.report system).timedOut = false) :
    (∀ p < call.registered, Acked system.guarded call.node p) ∧
      ∀ peer ∈ call.counted system, AllAcked system.guarded peer := by
  have sound : SoundHalt system :=
    run.invariant SoundHalt (fun _ act _ sound orderly moved => sound.step act orderly moved)
      (.start baseKey transport)
  have parties := sound.calls call running
  constructor
  · -- The remote count is at most the number of peers, so no local receiver was given up.
    have remote : (call.remote system).1 ≤ (call.remote system).2 := by
      unfold QuiescenceCall.remote
      split
      · exact le_rfl
      · exact countP_le_length
    have reached : ¬ call.parties.acked + (call.remote system).1 < call.parties.total + (call.remote system).2 := by
      simpa [QuiescenceCall.report] using complete
    have counts := parties.counts
    have none_left := ready.1
    intro p bound
    rcases parties.parties (by rw [none_left, length_nil]; omega) p bound with acked | waited
    · exact acked
    · rw [none_left] at waited
      cases waited
  · intro peer counted
    obtain ⟨listed, acked⟩ := mem_filter.mp counted
    cases known : call.peers with
    | none =>
      rw [known] at listed
      cases listed
    | some peers =>
      rw [known] at listed
      exact sound.remote call running peers known peer listed (by simpa using acked)

instance (system : HaltSystem) (action : HaltAction) : Decidable (OrderlyHalt system action) := by
  cases action <;> unfold OrderlyHalt <;> infer_instance

/-- The node and its peer have a party each, and both acknowledge in time. -/
theorem quiescence_report_sound_two_nodes :
    ∃ system, Run HaltSystem.step OrderlyHalt (HaltSystem.start "halt" fun _ => true)
        [.register "a", .register "b", .latch (.engage "a" .quorumLost), .ack "a" 0, .await "a", .collect 0,
          .broadcast 0 ["b"], .deliver 0, .ack "b" 0, .collectHalt 0, .answer 0, .deliver 0] system ∧
      ∃ call ∈ system.calls, call.registered = 1 ∧ call.report system = ⟨2, 2, false, 1, 1⟩ ∧
        (∀ p < call.registered, Acked system.guarded call.node p) ∧
        ∀ peer ∈ call.counted system, AllAcked system.guarded peer := by
  exact Run.executed rfl fun run =>
    ⟨_, mem_singleton_self _, rfl, by decide +kernel,
      quiescence_report_sound run (mem_singleton_self _) (by decide +kernel) (by decide +kernel)⟩

/-- A party that let a first call expire is not looked for by the second, and a peer
whose collection expired answers as one that has quiesced. -/
theorem report_omits_waiting_parties :
    (∃ system, Run HaltSystem.step (fun _ _ => True) (HaltSystem.start "halt" fun _ => false)
        [.register "a", .await "a", .expire 0, .collect 0, .finish 0, .await "a"] system ∧
      ∃ call ∈ system.calls, call.registered = 1 ∧ call.Ready system ∧
        call.report system = ⟨0, 0, false, 0, 0⟩ ∧ system.guarded "a" = [⟨.waiting, true⟩]) ∧
    ∃ system, Run HaltSystem.step (fun _ _ => True) (HaltSystem.start "halt" fun _ => true)
        [.register "b", .await "a", .broadcast 0 ["b"], .deliver 0, .expireHalt 0, .collectHalt 0, .answer 0,
          .deliver 0] system ∧
      ∃ call ∈ system.calls, call.Ready system ∧ call.report system = ⟨1, 1, false, 1, 1⟩ ∧
        call.counted system = ["b"] ∧ system.guarded "b" = [⟨.waiting, true⟩] := by
  refine ⟨⟨_, Run.of_foldlM rfl, _, mem_singleton_self _, rfl, ?_, ?_, rfl⟩,
    _, Run.of_foldlM rfl, _, mem_singleton_self _, ?_, ?_, ?_, rfl⟩ <;> decide +kernel

end Atomr.ClusterTools
