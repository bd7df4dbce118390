import Atomr.Remote.EndpointManager
import Atomr.Library.Runs

/-! Quarantined and tombstoned peers: the calls that gate a peer, and those that meet the gate.

A call suspends where the source awaits, and other calls and events run in
between. The gate is checked only when an endpoint is asked for: an event of the
handshake layer, or a call that was already waiting, overwrites the state of the
peer. The run theorem asks that nothing of the kind happens to a gated peer.
-/

namespace Atomr.Remote

open Atomr.Core Library Table

inductive TransportError where
  | closed
  | handshakeRejected (reason : String)
  /-- A failure of the transport below, as it reports it. -/
  | other (reason : String)
  deriving DecidableEq, Repr

structure RemoteSettings where
  handshakeTimeout : Nat
  quarantineDuration : Nat

namespace EndpointManager

variable (m : EndpointManager)

def peerState (target : Address) : Option AssociationState := (m.peers.lookup target.display).map PeerEntry.state

def refusal (settings : RemoteSettings) (m : EndpointManager) (now : Nat) (key : String) : Option TransportError :=
  match m.peers.lookup key with
  | none => none
  | some entry =>
    if entry.state = .quarantined ∧ now - entry.stateSince < settings.quarantineDuration then
      some (.handshakeRejected (key ++ " is quarantined"))
    else if entry.state = .tombstoned then some (.handshakeRejected (key ++ " is tombstoned"))
    else none

variable (now : Nat)

def markPending (key : String) : EndpointManager :=
  let m := m.transition now key .pending
  { m with peers := m.peers.adjust key fun entry =>
      { entry with attempt := if entry.attempt = 0xFFFFFFFF then entry.attempt else entry.attempt + 1 } }

/-- The call up to its first suspension: an endpoint, an error, or nothing yet. -/
def endpointFor (settings : RemoteSettings) (localAddress : Option Address) (m : EndpointManager) (now : Nat)
    (target : Address) : EndpointManager × Except TransportError (Option EndpointHandle) :=
  match m.endpoints.lookup target.display with
  | some handle => (m, .ok (some handle))
  | none =>
    match m.refusal settings now target.display with
    | some error => (m, .error error)
    | none =>
      -- The peer stays pending when there is no local address.
      (m.markPending now target.display, if localAddress.isSome then .ok none else .error .closed)

/-- One round of the loop that waits for the endpoint; none while it goes on sleeping. -/
def pollEndpoint (deadline : Nat) (target : Address) :
    EndpointManager × Option (Except TransportError EndpointHandle) :=
  match m.endpoints.lookup target.display with
  | some handle => (m, some (.ok handle))
  | none =>
    if deadline < now then
      ({ m with peers := m.peers.adjust target.display fun entry => entry.transition now .idle },
        some (.error (.handshakeRejected ("handshake timeout to " ++ target.display))))
    else (m, none)

def dropEndpoint (target : Address) (reason : DisassociateReason) : EndpointManager × List EndpointEffect :=
  ({ m with endpoints := m.endpoints.erase target.display },
    (m.endpoints.lookup target.display).toList.map fun handle => .shutdown handle reason)

def tombstone (target : Address) : EndpointManager × List EndpointEffect :=
  let (m, effects) := m.dropEndpoint target (.other "tombstoned")
  (m.transition now target.display .tombstoned, effects)

def purgeTombstones (olderThan : Nat) : EndpointManager × Nat :=
  let peers := m.peers.retain fun _ entry =>
    !(entry.state = .tombstoned && olderThan ≤ now - entry.stateSince)
  ({ m with peers }, m.peers.keys.length - peers.keys.length)

theorem lookup_transition (k other : String) (next : AssociationState) :
    (m.transition now k next).peers.lookup other =
      if other = k then some (((m.peers.lookup k).getD (.new now)).transition now next)
      else m.peers.lookup other :=
  lookup_upsert_if ..

theorem lookup_markPending {k other : String} (ne : other ≠ k) :
    (m.markPending now k).peers.lookup other = m.peers.lookup other := by
  rw [markPending, lookup_adjust_if, if_neg ne, lookup_transition, if_neg ne]

end EndpointManager

/-- A waiting call; its deadline is set when the handshake has been sent. -/
structure Handshake where
  target : Address
  deadline : Option Nat
  deriving DecidableEq, Repr

structure Gate where
  manager : EndpointManager
  localAddress : Option Address
  handshakes : List Handshake
  quarantines : List Address

inductive GateAction where
  | event (now : Nat) (event : ProtocolEvent)
  | call (now : Nat) (target : Address)
  | dialled (now index : Nat) (succeeded : Bool)
  | poll (now index : Nat)
  | quarantine (now : Nat) (target : Address)
  | quarantined (now index : Nat)
  | tombstone (now : Nat) (target : Address)
  | purge (now olderThan : Nat)

def GateAction.now : GateAction → Nat
  | .event now _ | .call now _ | .dialled now _ _ | .poll now _ | .quarantine now _ | .quarantined now _
  | .tombstone now _ | .purge now _ => now

namespace Gate

variable (settings : RemoteSettings)

def step (gate : Gate) : GateAction → Option Gate
  | .event now event => some { gate with manager := (gate.manager.dispatchEvent now event).1 }
  | .call now target =>
    let (manager, outcome) := gate.manager.endpointFor settings gate.localAddress now target
    match outcome with
    | .ok none => some { gate with manager, handshakes := gate.handshakes ++ [⟨target, none⟩] }
    | _ => some { gate with manager }
  | .dialled now index succeeded =>
    match gate.handshakes[index]? with
    | some ⟨target, none⟩ =>
      some { gate with handshakes :=
        if succeeded then gate.handshakes.set index ⟨target, some (now + settings.handshakeTimeout)⟩
        else gate.handshakes.eraseIdx index }
    | _ => none
  | .poll now index =>
    match gate.handshakes[index]? with
    | some ⟨target, some deadline⟩ =>
      let (manager, outcome) := gate.manager.pollEndpoint now deadline target
      some { gate with
        manager
        handshakes := if outcome.isSome then gate.handshakes.eraseIdx index else gate.handshakes }
    | _ => none
  -- The endpoint goes first; the state is set when the disassociation has been sent.
  | .quarantine _ target => some { gate with
      manager := (gate.manager.dropEndpoint target .quarantined).1
      quarantines := gate.quarantines ++ [target] }
  | .quarantined now index =>
    match gate.quarantines[index]? with
    | some target => some { gate with
        manager := gate.manager.transition now target.display .quarantined
        quarantines := gate.quarantines.eraseIdx index }
    | none => none
  | .tombstone now target => some { gate with manager := (gate.manager.tombstone now target).1 }
  | .purge now olderThan => some { gate with manager := (gate.manager.purgeTombstones now olderThan).1 }

end Gate

/-- The peer under a key is in a gated state, entered no earlier than the given time,
and has no endpoint. -/
structure Barred (m : EndpointManager) (key : String) (state : AssociationState) (since : Nat) : Prop where
  entry : ∃ entry, m.peers.lookup key = some entry ∧ entry.state = state ∧ since ≤ entry.stateSince
  endpoint : m.endpoints.lookup key = none

/-- The steps that take a gate away without being asked to. -/
def Disturbs (gate : Gate) (target : Address) : GateAction → Prop
  | .event _ (.associated address _) => address.display = target.display
  | .event _ (.disassociated peer reason) => peer.display = target.display ∧
      ¬ (reason = .quarantined ∧ gate.manager.peerState target = some .quarantined)
  | .event _ (.payload _ _) => False
  | .poll now index => ∃ call ∈ gate.handshakes[index]?, ∃ deadline ∈ call.deadline,
      call.target.display = target.display ∧ deadline < now
  | .quarantined _ index => ∃ peer ∈ gate.quarantines[index]?, peer.display = target.display ∧
      (gate.manager.peerState target = some .tombstoned ∨ gate.manager.endpoints.lookup target.display ≠ none)
  | .call _ _ | .dialled _ _ _ | .quarantine _ _ | .tombstone _ _ | .purge _ _ => False

instance (gate : Gate) (target : Address) (action : GateAction) : Decidable (Disturbs gate target action) := by
  unfold Disturbs; split <;> infer_instance

/-- The steps that are meant to end a gate: a purge that sweeps the tombstone, and a
tombstone in place of a quarantine. -/
def Ends (gate : Gate) (target : Address) : GateAction → Prop
  | .purge now olderThan => ∃ entry ∈ gate.manager.peers.lookup target.display,
      entry.state = .tombstoned ∧ olderThan ≤ now - entry.stateSince
  | .tombstone _ peer => peer.display = target.display ∧ gate.manager.peerState target = some .quarantined
  | _ => False

instance (gate : Gate) (target : Address) (action : GateAction) : Decidable (Ends gate target action) := by
  cases action <;> unfold Ends <;> infer_instance

section

variable {m next : EndpointManager} {target : Address} {state : AssociationState} {since : Nat}

theorem Barred.peerState (barred : Barred m target.display state since) : m.peerState target = some state := by
  obtain ⟨e, found, rfl, -⟩ := barred.entry
  simp [EndpointManager.peerState, found]

theorem Barred.of_lookups (barred : Barred m target.display state since)
    (peers : next.peers.lookup target.display = m.peers.lookup target.display)
    (endpoints : next.endpoints.lookup target.display = m.endpoints.lookup target.display) :
    Barred next target.display state since :=
  ⟨peers ▸ barred.entry, endpoints ▸ barred.endpoint⟩

variable {now : Nat} {gate : Gate} {other : Address}

theorem Barred.of_transition (later : since ≤ now) (closed : m.endpoints.lookup target.display = none) :
    Barred (m.transition now target.display state) target.display state since where
  entry := ⟨_, by rw [EndpointManager.lookup_transition, if_pos rfl], rfl, later⟩
  endpoint := closed

theorem Barred.transition_other (barred : Barred m target.display state since) {k : String}
    (ne : target.display ≠ k) (t : Nat) (entered : AssociationState) :
    Barred (m.transition t k entered) target.display state since :=
  barred.of_lookups (by rw [EndpointManager.lookup_transition, if_neg ne]) rfl

theorem Barred.erase (barred : Barred m target.display state since) (k : String) :
    Barred { m with endpoints := m.endpoints.erase k } target.display state since where
  entry := barred.entry
  endpoint := by
    rw [lookup_erase_if, barred.endpoint]
    exact ite_self _

theorem Barred.dispatchEvent (barred : Barred gate.manager target.display state since) {ev : ProtocolEvent}
    (quiet : ¬ Disturbs gate target (.event now ev)) (later : since ≤ now) :
    Barred (gate.manager.dispatchEvent now ev).1 target.display state since := by
  cases ev with
  | associated addr uid =>
    have ne : target.display ≠ addr.display := fun eq => quiet eq.symm
    have moved := barred.transition_other ne now .connected
    simp only [EndpointManager.dispatchEvent]
    split
    · exact moved.of_lookups rfl (by rw [lookup_insert_if, if_neg ne])
    · exact moved
  | disassociated pr reason =>
    have erased := barred.erase pr.display
    by_cases eq : pr.display = target.display
    -- The peer says that it quarantines us too: the state is entered again.
    · obtain ⟨rfl, h⟩ := not_not.mp fun other => quiet ⟨eq, other⟩
      cases barred.peerState.symm.trans h
      simpa [EndpointManager.dispatchEvent, eq] using Barred.of_transition later erased.endpoint
    · exact erased.transition_other (fun here => eq here.symm) _ _
  | payload snd pdu =>
    simp only [EndpointManager.dispatchEvent]
    split <;> exact barred

variable (barred : Barred m target.display state since)
include barred

theorem Barred.endpointFor {cfg : RemoteSettings}
    (closed : state = .tombstoned ∨ state = .quarantined ∧ now - since < cfg.quarantineDuration)
    (laddr : Option Address) (eq : other.display = target.display) :
    ∃ reason, m.endpointFor cfg laddr now other = (m, .error (.handshakeRejected reason)) := by
  obtain ⟨e, found, rfl, later⟩ := barred.entry
  have refused : ∃ reason, m.refusal cfg now target.display = some (.handshakeRejected reason) := by
    rcases closed with tombstoned | ⟨quar, win⟩
    · exact ⟨target.display ++ " is tombstoned", by simp [EndpointManager.refusal, found, tombstoned]⟩
    · have still : now - e.stateSince < cfg.quarantineDuration := by omega
      exact ⟨target.display ++ " is quarantined", by simp [EndpointManager.refusal, found, quar, still]⟩
  obtain ⟨reason, refused⟩ := refused
  unfold EndpointManager.endpointFor
  rw [eq, barred.endpoint]
  simp [refused]

theorem Barred.endpointFor_other (ne : target.display ≠ other.display) (cfg : RemoteSettings)
    (laddr : Option Address) (t : Nat) :
    Barred (m.endpointFor cfg laddr t other).1 target.display state since := by
  unfold EndpointManager.endpointFor
  split
  · exact barred
  · split
    · exact barred
    · exact barred.of_lookups (EndpointManager.lookup_markPending m t ne) rfl

theorem Barred.pollEndpoint {deadline : Nat} (quiet : other.display = target.display → ¬ deadline < now) :
    Barred (m.pollEndpoint now deadline other).1 target.display state since := by
  unfold EndpointManager.pollEndpoint
  split
  · exact barred
  · split
    next passed =>
      have ne : target.display ≠ other.display := fun eq => quiet eq.symm passed
      exact barred.of_lookups (by rw [lookup_adjust_if, if_neg ne]) rfl
    · exact barred

theorem Barred.tombstone (later : since ≤ now) (again : other.display = target.display → state = .tombstoned) :
    Barred (m.tombstone now other).1 target.display state since := by
  have erased := barred.erase other.display
  by_cases eq : other.display = target.display
  · cases again eq
    simpa [EndpointManager.tombstone, EndpointManager.dropEndpoint, eq] using
      Barred.of_transition later erased.endpoint
  · exact erased.transition_other (fun here => eq here.symm) _ _

theorem Barred.purgeTombstones {olderThan : Nat} (young : ∀ e, m.peers.lookup target.display = some e →
      ¬ (e.state = .tombstoned ∧ olderThan ≤ now - e.stateSince)) :
    Barred (m.purgeTombstones now olderThan).1 target.display state since := by
  refine barred.of_lookups ?_ rfl
  obtain ⟨e, found, -⟩ := barred.entry
  have kept := young e found
  rw [EndpointManager.purgeTombstones, lookup_retain, found]
  simp [Option.filter, kept]
omit barred

variable {settings : RemoteSettings}

/-- A gate withstands every step that neither disturbs nor ends it. -/
theorem Barred.step {post : Gate} (barred : Barred gate.manager target.display state since) {act : GateAction}
    (taken : gate.step settings act = some post) (quiet : ¬ Disturbs gate target act)
    (lasting : ¬ Ends gate target act) (later : since ≤ act.now)
    (closed : state = .tombstoned ∨ state = .quarantined ∧ act.now - since < settings.quarantineDuration) :
    Barred post.manager target.display state since := by
  cases act with
  | event t event =>
    cases taken
    exact barred.dispatchEvent quiet later
  | call t other =>
    have moved : Barred (gate.manager.endpointFor settings gate.localAddress t other).1 target.display state
        since := by
      by_cases eq : other.display = target.display
      · obtain ⟨reason, refused⟩ := barred.endpointFor closed gate.localAddress eq
        exact (congrArg Prod.fst refused).symm ▸ barred
      · exact barred.endpointFor_other (fun here => eq here.symm) settings gate.localAddress t
    simp only [Gate.step] at taken
    split at taken <;> cases taken <;> exact moved
  | dialled t i succeeded =>
    simp only [Gate.step] at taken
    split at taken <;> cases taken
    exact barred
  | poll t i =>
    simp only [Gate.step] at taken
    split at taken
    next other deadline found =>
      cases taken
      exact barred.pollEndpoint fun eq passed => quiet ⟨_, found, deadline, rfl, eq, passed⟩
    · cases taken
  | quarantine t other =>
    cases taken
    exact barred.erase other.display
  | quarantined t i =>
    simp only [Gate.step] at taken
    split at taken
    next other found =>
      cases taken
      by_cases eq : other.display = target.display
      · have here : state = .quarantined := by
          refine (closed.resolve_left fun tombstoned => quiet ⟨other, found, eq, .inl ?_⟩).1
          rw [barred.peerState, tombstoned]
        subst here
        rw [eq]
        exact .of_transition later barred.endpoint
      · exact barred.transition_other (fun here => eq here.symm) _ _
    · cases taken
  | tombstone t other =>
    cases taken
    refine barred.tombstone later fun eq => closed.resolve_right fun ⟨quarantined, _⟩ => ?_
    exact lasting ⟨eq, by rw [barred.peerState, quarantined]⟩
  | purge t olderThan =>
    cases taken
    exact barred.purgeTombstones fun e found swept => lasting ⟨e, found, swept⟩

/-- A gated peer at a given time: its state, no endpoint, and no way to get one. -/
structure Gated (settings : RemoteSettings) (gate : Gate) (target : Address) (state : AssociationState)
    (now : Nat) : Prop where
  peer : gate.manager.peerState target = some state
  endpoint : gate.manager.endpoints.lookup target.display = none
  call : ∃ reason,
    (gate.manager.endpointFor settings gate.localAddress now target).2 = .error (.handshakeRejected reason)
  waiting : ∀ deadline handle, (gate.manager.pollEndpoint now deadline target).2 ≠ some (.ok handle)

theorem Barred.gated (barred : Barred gate.manager target.display state since)
    (closed : state = .tombstoned ∨ state = .quarantined ∧ now - since < settings.quarantineDuration) :
    Gated settings gate target state now where
  peer := barred.peerState
  endpoint := barred.endpoint
  call := by
    obtain ⟨reason, refused⟩ := barred.endpointFor closed gate.localAddress rfl
    exact ⟨reason, congrArg Prod.snd refused⟩
  waiting := by
    intro deadline handle
    rw [EndpointManager.pollEndpoint, barred.endpoint]
    dsimp only
    split <;> simp

/-- Undisturbed, a tombstoned peer is gated until the tombstone is purged, and a
quarantined one until the window has elapsed or a tombstone replaces it. -/
theorem gated_peer_stays_gated (target : Address) {before gate after : Gate} {actions : List GateAction} :
    (∀ now, before.step settings (.tombstone now target) = some gate →
      Run (Gate.step settings) (fun gate action => ¬ Disturbs gate target action ∧ ¬ Ends gate target action)
        gate actions after →
      ∀ later, Gated settings after target .tombstoned later) ∧
    (∀ now index, before.quarantines[index]? = some target → ¬ Disturbs before target (.quarantined now index) →
      before.step settings (.quarantined now index) = some gate →
      Run (Gate.step settings) (fun gate action => (¬ Disturbs gate target action ∧ ¬ Ends gate target action) ∧
        now ≤ action.now ∧ action.now - now < settings.quarantineDuration) gate actions after →
      ∀ later, now ≤ later → later - now < settings.quarantineDuration →
        Gated settings after target .quarantined later) := by
  constructor
  · intro now taken run later
    cases taken
    have erased := lookup_erase_if before.manager.endpoints target.display target.display
    have first : Barred (before.manager.tombstone now target).1 target.display .tombstoned 0 :=
      .of_transition (Nat.zero_le now) (erased.trans (if_pos rfl))
    have barred := run.invariant (fun gate => Barred gate.manager target.display .tombstoned 0)
      (fun _ _ _ barred allowed taken =>
        barred.step taken allowed.1 allowed.2 (Nat.zero_le _) (.inl rfl)) first
    exact barred.gated (.inl rfl)
  · intro now index pending quiet taken run later _ window
    have closed : before.manager.endpoints.lookup target.display = none :=
      not_not.mp fun registered => quiet ⟨target, pending, rfl, .inr registered⟩
    simp only [Gate.step, pending] at taken
    cases taken
    have first : Barred (before.manager.transition now target.display .quarantined) target.display .quarantined
        now := .of_transition (Nat.le_refl now) closed
    have barred := run.invariant (fun gate => Barred gate.manager target.display .quarantined now)
      (fun _ _ _ barred allowed taken =>
        barred.step taken allowed.1.1 allowed.1.2 allowed.2.1 (.inr ⟨rfl, allowed.2.2⟩)) first
    exact barred.gated (.inr ⟨rfl, window⟩)

end

def gatedPeer : Address := .remote "akka.tcp" "S" "h" 1

def otherPeer : Address := .remote "akka.tcp" "T" "h" 2

def emptyGate : Gate := ⟨.new, some otherPeer, [], []⟩

def gateSettings : RemoteSettings := ⟨10, 100⟩

def Gate.after (gate : Gate) (actions : List GateAction) : Gate :=
  actions.foldl (fun gate action => (gate.step gateSettings action).getD gate) gate

def tombstonedTrace : List GateAction :=
  [.event 1 (.associated otherPeer 7), .event 2 (.payload gatedPeer .heartbeat), .call 3 gatedPeer, .purge 4 60]

def quarantinedTrace : List GateAction := [.event 2 (.associated otherPeer 7), .call 90 gatedPeer]

theorem gated_peer_stays_gated_two_gates :
    Gated gateSettings ((emptyGate.after [.tombstone 0 gatedPeer]).after tombstonedTrace) gatedPeer .tombstoned
      1000 ∧
    Gated gateSettings ((emptyGate.after [.quarantine 0 gatedPeer, .quarantined 1 0]).after quarantinedTrace)
      gatedPeer .quarantined 100 := by
  have tombstoned : emptyGate.step gateSettings (.tombstone 0 gatedPeer) =
      some (emptyGate.after [.tombstone 0 gatedPeer]) := rfl
  have kept : Run (Gate.step gateSettings)
      (fun gate act => ¬ Disturbs gate gatedPeer act ∧ ¬ Ends gate gatedPeer act)
      (emptyGate.after [.tombstone 0 gatedPeer]) tombstonedTrace
      ((emptyGate.after [.tombstone 0 gatedPeer]).after tombstonedTrace) := Run.of_foldlM rfl
  have quarantined : (emptyGate.after [.quarantine 0 gatedPeer]).step gateSettings (.quarantined 1 0) =
      some (emptyGate.after [.quarantine 0 gatedPeer, .quarantined 1 0]) := rfl
  have held : Run (Gate.step gateSettings) (fun gate act =>
      (¬ Disturbs gate gatedPeer act ∧ ¬ Ends gate gatedPeer act) ∧
        1 ≤ act.now ∧ act.now - 1 < gateSettings.quarantineDuration)
      (emptyGate.after [.quarantine 0 gatedPeer, .quarantined 1 0]) quarantinedTrace
      ((emptyGate.after [.quarantine 0 gatedPeer, .quarantined 1 0]).after quarantinedTrace) := Run.of_foldlM rfl
  exact ⟨(gated_peer_stays_gated gatedPeer).1 0 tombstoned kept 1000,
    (gated_peer_stays_gated gatedPeer).2 1 0 rfl (by decide) quarantined held 100 (by decide) (by decide)⟩

def reassociated (gating : List GateAction) : Gate :=
  (emptyGate.after gating).after [.event 9 (.associated gatedPeer 7)]

/-- A gated peer that associates is connected again, with an endpoint; a tombstoned one
whose call was waiting is idle again when that call times out. -/
theorem association_lifts_gate :
    (emptyGate.after [.tombstone 0 gatedPeer]).manager.peerState gatedPeer = some .tombstoned ∧
      (reassociated [.tombstone 0 gatedPeer]).manager.peerState gatedPeer = some .connected ∧
      ((reassociated [.tombstone 0 gatedPeer]).manager.endpointFor gateSettings (some otherPeer) 10 gatedPeer).2 =
        .ok (some ⟨gatedPeer, 7⟩) ∧
      (emptyGate.after [.quarantine 0 gatedPeer, .quarantined 1 0]).manager.peerState gatedPeer =
        some .quarantined ∧
      (reassociated [.quarantine 0 gatedPeer, .quarantined 1 0]).manager.peerState gatedPeer = some .connected ∧
      ((reassociated [.quarantine 0 gatedPeer, .quarantined 1 0]).manager.endpointFor gateSettings
        (some otherPeer) 10 gatedPeer).2 = .ok (some ⟨gatedPeer, 7⟩) ∧
      (emptyGate.after [.call 0 gatedPeer, .dialled 1 0 true, .tombstone 2 gatedPeer,
        .poll 12 0]).manager.peerState gatedPeer = some .idle := by
  refine ⟨?_, ?_, ?_, ?_, ?_, ?_, ?_⟩ <;> rfl

end Atomr.Remote
