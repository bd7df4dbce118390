import Atomr.Remote.EndpointManager
import Atomr.Library.Runs

/-! Inbound connections of a node, from the socket to the endpoints.

A socket's first frame has to be an association request, and all its frames
are attributed to the origin of that request. The frames of all sockets meet
in one queue, the events of the handshake layer in a second one. Nothing after
the socket remembers which connection a frame came from, so the model carries
the connection along and notes it with every delivery.
-/

namespace Atomr.Remote

open Atomr.Core Library List

structure Connection where
  id : Nat
  associate : AssociateInfo
  deriving DecidableEq, Repr

structure Node where
  protocol : AkkaProtocolTransport
  manager : EndpointManager
  connections : List Connection
  frames : List (Connection × InboundFrame)
  events : List (Connection × ProtocolEvent)
  reads : List AkkaPdu
  delivered : List (Connection × EndpointHandle × InboundPdu)

inductive NodeAction where
  | accept (id : Nat) (first : AkkaPdu)
  | read (id : Nat) (pdu : AkkaPdu)
  | close (id : Nat)
  | pumpFrame
  | pumpEvent (now : Nat)

namespace Node

def start (requireCookie : Option String) (localUid : UInt64) (localAddress : Option Address) : Node :=
  ⟨.new requireCookie localUid localAddress, .new, [], [], [], [], []⟩

def connection (node : Node) (id : Nat) : Option Connection := node.connections.find? fun c => c.id = id

/-- A frame of a connection enters the queue under the origin the connection claimed. -/
def receive (node : Node) (c : Connection) (pdu : AkkaPdu) : Node :=
  { node with
    frames := node.frames ++ [(c, ⟨c.associate.origin, pdu⟩)]
    reads := node.reads ++ [pdu] }

def deliveries (c : Connection) (effects : List EndpointEffect) : List (Connection × EndpointHandle × InboundPdu) :=
  effects.filterMap fun
    | .deliver handle pdu => some (c, handle, pdu)
    | _ => none

def step (node : Node) : NodeAction → Option Node
  | .accept id first =>
    match node.connection id, first with
    | some _, _ => none
    | none, .associate info =>
      let c : Connection := ⟨id, info⟩
      some ({ node with connections := c :: node.connections }.receive c first)
    -- Any other first frame closes the socket.
    | none, _ => some node
  | .read id pdu => (node.connection id).map fun c => node.receive c pdu
  | .close id => some { node with connections := node.connections.filter fun c => c.id ≠ id }
  | .pumpFrame =>
    match node.frames with
    | [] => none
    | (c, frame) :: rest =>
      let dispatched := node.protocol.dispatchFrame frame
      some { node with
        protocol := dispatched.next
        frames := rest
        events := node.events ++ dispatched.events.map fun event => (c, event) }
  | .pumpEvent now =>
    match node.events with
    | [] => none
    | (c, event) :: rest =>
      let handled := node.manager.dispatchEvent now event
      some { node with
        manager := handled.1
        events := rest
        delivered := node.delivered ++ deliveries c handled.2 }

/-- A connection that did not present the cookie sends payloads only under an origin that no
admitted request has named before. -/
def Unclaimed (node : Node) : NodeAction → Prop
  | .read id pdu => ∀ c ∈ node.connection id, (EndpointManager.inboundPdu pdu).isSome →
      c.associate.cookie ≠ node.protocol.requireCookie → ∀ earlier ∈ node.reads,
        AkkaProtocolTransport.admits node.protocol.requireCookie earlier ≠ some c.associate.origin.display
  | _ => True

instance (node : Node) (action : NodeAction) : Decidable (node.Unclaimed action) := by
  cases action <;> unfold Unclaimed <;> infer_instance

end Node

/-- The key an item may open an endpoint under, and the key under which an item without the
cookie would be delivered. -/
structure Mark where
  opens : Option String
  probes : Option String

variable (requireCookie : Option String)

def probe (c : Connection) (sender : Address) : Option String :=
  if c.associate.cookie = requireCookie then none else some sender.display

def frameMark (item : Connection × InboundFrame) : Mark where
  opens := AkkaProtocolTransport.admits requireCookie item.2.pdu
  probes := if (EndpointManager.inboundPdu item.2.pdu).isSome then probe requireCookie item.1 item.2.sender else none

def eventMark (item : Connection × ProtocolEvent) : Mark :=
  match item.2 with
  | .associated address _ => ⟨some address.display, none⟩
  | .disassociated _ _ => ⟨none, none⟩
  | .payload sender pdu =>
    ⟨none, if (EndpointManager.inboundPdu pdu).isSome then probe requireCookie item.1 sender else none⟩

/-- Everything read and not yet handled, in the order in which it will be. -/
def pipeline (node : Node) : List Mark :=
  node.events.map (eventMark requireCookie) ++ node.frames.map (frameMark requireCookie)

def Mark.Within (mark bound : Mark) : Prop :=
  (∀ key ∈ mark.opens, key ∈ bound.opens) ∧ ∀ key ∈ mark.probes, key ∈ bound.probes

def Mark.Before (earlier later : Mark) : Prop := ∀ key ∈ later.probes, key ∉ earlier.opens

structure Enforced (node : Node) : Prop where
  cookie : node.protocol.requireCookie = requireCookie
  delivered : ∀ d ∈ node.delivered, d.1.associate.cookie = requireCookie
  closed : ∀ mark ∈ pipeline requireCookie node, ∀ key ∈ mark.probes, key ∉ node.manager.endpoints
  ordered : (pipeline requireCookie node).Pairwise Mark.Before
  named : ∀ key ∈ node.manager.endpoints, ∃ pdu ∈ node.reads,
    AkkaProtocolTransport.admits requireCookie pdu = some key
  naming : ∀ mark ∈ pipeline requireCookie node, ∀ key ∈ mark.opens, ∃ pdu ∈ node.reads,
    AkkaProtocolTransport.admits requireCookie pdu = some key

variable {requireCookie} {c : Connection} {f : InboundFrame} {node : Node}

theorem mem_probes_frameMark {k : String} (probed : k ∈ (frameMark requireCookie (c, f)).probes) :
    (EndpointManager.inboundPdu f.pdu).isSome ∧ c.associate.cookie ≠ requireCookie
      ∧ f.sender.display = k := by
  simp only [frameMark, probe] at probed
  split at probed
  next passes =>
    split at probed
    · cases probed
    next hfor => exact ⟨passes, hfor, Option.some.inj probed⟩
  · cases probed

theorem frameMark_exclusive (x : Connection × InboundFrame) {opened probed : String}
    (opens : opened ∈ (frameMark requireCookie x).opens) (probes : probed ∈ (frameMark requireCookie x).probes) :
    False := by
  obtain ⟨c, snd, pdu⟩ := x
  cases pdu <;> simp [frameMark, AkkaProtocolTransport.admits, EndpointManager.inboundPdu] at opens probes

variable {ev : ProtocolEvent}

/-- The events of a frame do to the endpoints at most what its mark says. -/
theorem eventMark_within {p : AkkaProtocolTransport} (cookie : p.requireCookie = requireCookie) (c : Connection)
    (hem : ev ∈ (p.dispatchFrame f).events) :
    (eventMark requireCookie (c, ev)).Within (frameMark requireCookie (c, f)) := by
  rcases AkkaProtocolTransport.mem_events_dispatchFrame hem with
    ⟨pr, reason, rfl⟩ | ⟨addr, uid, rfl, adm⟩ | ⟨rfl, _⟩
  · exact ⟨by simp [eventMark], by simp [eventMark]⟩
  · rw [cookie] at adm
    exact ⟨by simp [eventMark, frameMark, adm], by simp [eventMark]⟩
  · exact ⟨by simp [eventMark], fun k probed => probed⟩

theorem enforced_receive (enf : Enforced requireCookie node) {pdu : AkkaPdu}
    (unclaimed : ∀ k ∈ (frameMark requireCookie (c, ⟨c.associate.origin, pdu⟩)).probes,
      ∀ earlier ∈ node.reads, AkkaProtocolTransport.admits requireCookie earlier ≠ some k) :
    Enforced requireCookie (node.receive c pdu) := by
  have longer : pipeline requireCookie (node.receive c pdu)
      = pipeline requireCookie node ++ [frameMark requireCookie (c, ⟨c.associate.origin, pdu⟩)] := by
    simp [pipeline, Node.receive]
  have kept : ∀ {k : String}, (∃ earlier ∈ node.reads, AkkaProtocolTransport.admits requireCookie earlier = some k) →
      ∃ earlier ∈ (node.receive c pdu).reads, AkkaProtocolTransport.admits requireCookie earlier = some k := by
    rintro k ⟨earlier, mem, adm⟩
    exact ⟨earlier, mem_append_left _ mem, adm⟩
  refine ⟨enf.cookie, enf.delivered, ?_, ?_, fun k opened => kept (enf.named k opened), ?_⟩
  · rw [longer]
    intro mark mem k probed opened
    rcases mem_append.mp mem with old | new
    · exact enf.closed mark old k probed opened
    · rw [mem_singleton.mp new] at probed
      obtain ⟨earlier, mem, adm⟩ := enf.named k opened
      exact unclaimed k probed earlier mem adm
  · rw [longer, pairwise_append]
    refine ⟨enf.ordered, pairwise_singleton _ _, ?_⟩
    intro mark old last new k probed opened
    rw [mem_singleton.mp new] at probed
    obtain ⟨earlier, mem, adm⟩ := enf.naming mark old k opened
    exact unclaimed k probed earlier mem adm
  · rw [longer]
    intro mark mem k opened
    rcases mem_append.mp mem with old | new
    · exact kept (enf.naming mark old k opened)
    · rw [mem_singleton.mp new] at opened
      exact ⟨pdu, mem_append_right _ mem_cons_self, opened⟩

theorem Mark.Within.refl (mark : Mark) : mark.Within mark := ⟨fun _ mem => mem, fun _ mem => mem⟩

/-- Marks within one of the queue may take its place. -/
theorem ordered_replace {pre post marks : List Mark} {bound : Mark}
    (ord : (pre ++ bound :: post).Pairwise Mark.Before) (within : ∀ mark ∈ marks, mark.Within bound)
    (inner : marks.Pairwise Mark.Before) : (pre ++ (marks ++ post)).Pairwise Mark.Before := by
  obtain ⟨first, tail, across⟩ := pairwise_append.mp ord
  obtain ⟨leading, last⟩ := pairwise_cons.mp tail
  have crossing : ∀ mark ∈ marks, ∀ later ∈ post, mark.Before later := by
    intro mark mem later follows k probed opened
    exact leading later follows k probed ((within mark mem).1 k opened)
  refine pairwise_append.mpr ⟨first, pairwise_append.mpr ⟨inner, last, crossing⟩, ?_⟩
  intro earlier isEarlier later isLater
  rcases mem_append.mp isLater with new | old
  · intro k probed
    exact across earlier isEarlier bound mem_cons_self k ((within later new).2 k probed)
  · exact across earlier isEarlier later (mem_cons_of_mem _ old)

variable (enforced : Enforced requireCookie node)
include enforced

theorem enforced_pumpFrame {rest : List (Connection × InboundFrame)} (queued : node.frames = (c, f) :: rest) :
    Enforced requireCookie { node with
      protocol := (node.protocol.dispatchFrame f).next
      frames := rest
      events := node.events ++ (node.protocol.dispatchFrame f).events.map fun ev => (c, ev) } := by
  obtain ⟨marks, hem⟩ : ∃ marks, (node.protocol.dispatchFrame f).events.map
      (fun ev => eventMark requireCookie (c, ev)) = marks := ⟨_, rfl⟩
  have within : ∀ mark ∈ marks, mark.Within (frameMark requireCookie (c, f)) := by
    intro mark mem
    rw [← hem] at mem
    obtain ⟨ev, isEvent, rfl⟩ := mem_map.mp mem
    exact eventMark_within enforced.cookie c isEvent
  -- A frame that opens an endpoint probes none, so its events do not meet each other.
  have inner : marks.Pairwise Mark.Before := pairwise_of_forall_mem_list
    fun earlier isEarlier later isLater k probed opened =>
      frameMark_exclusive (c, f) ((within earlier isEarlier).1 k opened)
        ((within later isLater).2 k probed)
  obtain ⟨cookie, del, closed, ord, named, naming⟩ := enforced
  simp only [pipeline, queued] at closed ord naming
  -- Every mark of the new queue is within one of the old queue.
  have cov : ∀ mark ∈ node.events.map (eventMark requireCookie)
      ++ (marks ++ rest.map (frameMark requireCookie)), ∃ bound ∈ node.events.map (eventMark requireCookie)
        ++ frameMark requireCookie (c, f) :: rest.map (frameMark requireCookie), mark.Within bound := by
    intro mark mem
    simp only [mem_append] at mem
    rcases mem with old | new | old
    · exact ⟨mark, mem_append_left _ old, .refl mark⟩
    · exact ⟨_, mem_append_right _ mem_cons_self, within mark new⟩
    · exact ⟨mark, mem_append_right _ (mem_cons_of_mem _ old), .refl mark⟩
  refine ⟨by rw [← cookie, AkkaProtocolTransport.requireCookie_dispatchFrame], del, ?_, ?_, named, ?_⟩ <;>
    simp only [pipeline, map_append, map_map, Function.comp_def, hem, append_assoc]
  · intro mark mem k probed
    obtain ⟨bound, isBound, hi⟩ := cov mark mem
    exact closed bound isBound k (hi.2 k probed)
  · exact ordered_replace ord within inner
  · intro mark mem k opened
    obtain ⟨bound, isBound, hi⟩ := cov mark mem
    exact naming bound isBound k (hi.1 k opened)

theorem enforced_pumpEvent {rest : List (Connection × ProtocolEvent)} (queued : node.events = (c, ev) :: rest)
    (t : Nat) :
    Enforced requireCookie { node with
      manager := (node.manager.dispatchEvent t ev).1
      events := rest
      delivered := node.delivered ++ Node.deliveries c (node.manager.dispatchEvent t ev).2 } := by
  obtain ⟨cookie, del, closed, ord, named, naming⟩ := enforced
  simp only [pipeline, queued, map_cons, cons_append, forall_mem_cons, pairwise_cons]
    at closed ord naming
  -- An endpoint of the next state was there before or is opened by this event.
  have opened : ∀ k ∈ (node.manager.dispatchEvent t ev).1.endpoints,
      k ∈ node.manager.endpoints ∨ k ∈ (eventMark requireCookie (c, ev)).opens := by
    intro k mem
    rcases EndpointManager.mem_endpoints_dispatchEvent mem with old | ⟨addr, uid, rfl, rfl⟩
    · exact Or.inl old
    · exact Or.inr rfl
  refine ⟨cookie, ?_, ?_, ord.2, ?_, naming.2⟩
  · intro d mem
    rcases mem_append.mp mem with old | new
    · exact del d old
    · obtain ⟨eff, isEffect, noted⟩ := mem_filterMap.mp new
      cases eff with
      | deliver handle inbound =>
        obtain ⟨snd, pdu, rfl, passes, found⟩ := EndpointManager.deliver_dispatchEvent isEffect
        obtain rfl : (c, handle, inbound) = d := by simpa using noted
        -- Without the cookie the event was a probe, and probed endpoints are not open.
        by_contra hfor
        have probed : snd.display ∈ (eventMark requireCookie (c, .payload snd pdu)).probes := by
          simp [eventMark, passes, probe, hfor]
        refine closed.1 _ probed ?_
        exact AList.lookup_isSome.mp (by rw [found]; rfl)
      | spawn handle => simp at noted
      | resend handle => simp at noted
      | shutdown handle reason => simp at noted
  · intro mark mem k probed member'
    rcases opened k member' with old | new
    · exact closed.2 mark mem k probed old
    · exact ord.1 mark mem k probed new
  · intro k mem
    rcases opened k mem with old | new
    · exact named k old
    · exact naming.1 k new

theorem Enforced.reconnect (connections : List Connection) : Enforced requireCookie { node with connections } :=
  ⟨enforced.cookie, enforced.delivered, enforced.closed, enforced.ordered, enforced.named, enforced.naming⟩

theorem enforced_step {next : Node} {act : NodeAction} (unclaimed : node.Unclaimed act)
    (taken : node.step act = some next) : Enforced requireCookie next := by
  cases act with
  | accept id first =>
    simp only [Node.step] at taken
    split at taken
    · cases taken
    next info _ =>
      cases taken
      -- The first frame is a request, so it probes nothing whatever its cookie is.
      exact enforced_receive (enforced.reconnect _) (by simp [frameMark, EndpointManager.inboundPdu])
    · cases taken
      exact enforced
  | read id pdu =>
    obtain ⟨c, found, rfl⟩ := Option.map_eq_some_iff.mp taken
    refine enforced_receive enforced fun k probed => ?_
    obtain ⟨passes, hfor, rfl⟩ := mem_probes_frameMark probed
    rw [← enforced.cookie] at hfor ⊢
    exact unclaimed c found passes hfor
  | close id =>
    cases taken
    exact enforced.reconnect _
  | pumpFrame =>
    simp only [Node.step] at taken
    split at taken
    · cases taken
    next c f rest queued =>
      cases taken
      exact enforced_pumpFrame enforced queued
  | pumpEvent t =>
    simp only [Node.step] at taken
    split at taken
    · cases taken
    next c ev rest queued =>
      cases taken
      exact enforced_pumpEvent enforced queued t
omit enforced

/-- Along every such run, only connections that presented the cookie have frames delivered. -/
theorem cookie_enforced_when_unclaimed (cookie : String) (localUid : UInt64) (localAddress : Option Address)
    (actions : List NodeAction) (final : Node)
    (run : Run Node.step Node.Unclaimed (Node.start (some cookie) localUid localAddress) actions final) :
    ∀ d ∈ final.delivered, d.1.associate.cookie = some cookie := by
  have start : Enforced (some cookie) (Node.start (some cookie) localUid localAddress) :=
    ⟨rfl, by simp [Node.start], by simp [pipeline, Node.start], by simp [pipeline, Node.start],
      by simp [Node.start, EndpointManager.new], by simp [pipeline, Node.start]⟩
  have enforced := run.invariant (Enforced (some cookie))
    (fun _ _ _ kept unclaimed taken => enforced_step kept unclaimed taken) start
  exact enforced.delivered

/-- A peer with the cookie associates and sends; a stranger under another origin sends in vain. -/
theorem cookie_enforced_two_origins :
    let peer : Address := .remote "akka.tcp" "peer" "10.0.0.1" 2552
    let stranger : Address := .remote "akka.tcp" "stranger" "10.0.0.9" 2552
    let node := Node.start (some "secret") 1 none
    let actions : List NodeAction :=
      [.accept 1 (.associate ⟨peer, 7, some "secret", 1⟩), .accept 2 (.associate ⟨stranger, 8, none, 1⟩),
        .read 2 (.ack ⟨5, []⟩), .read 1 (.ack ⟨3, []⟩), .pumpFrame, .pumpFrame, .pumpFrame, .pumpFrame,
        .pumpEvent 0, .pumpEvent 0, .pumpEvent 0]
    ∃ final, Run Node.step Node.Unclaimed node actions final
      ∧ final.delivered.map (fun d => d.1.id) = [1] ∧ ∀ d ∈ final.delivered, d.1.associate.cookie = some "secret" := by
  intro peer stranger node actions
  exact Run.executed rfl fun run => ⟨by decide +kernel, cookie_enforced_when_unclaimed "secret" 1 none actions _ run⟩

/-- A stranger that claims the origin of an associated peer is refused, and its payload is
delivered to the endpoint of that peer. -/
theorem payload_delivered_without_cookie :
    let peer : Address := .remote "akka.tcp" "peer" "10.0.0.1" 2552
    let node := Node.start (some "secret") 1 none
    let forged : RemoteEnvelope := ⟨"akka://sys/user/a", none, 0, 0, 1, 1, "u32", false, [42]⟩
    let actions : List NodeAction :=
      [.accept 1 (.associate ⟨peer, 7, some "secret", 1⟩), .pumpFrame, .pumpEvent 0,
        .accept 2 (.associate ⟨peer, 7, none, 1⟩), .read 2 (.payload forged), .pumpFrame, .pumpFrame, .pumpEvent 0]
    ∃ final, Run Node.step (fun _ _ => True) node actions final
      ∧ final.delivered = [(⟨2, ⟨peer, 7, none, 1⟩⟩, ⟨peer, 7⟩, .payload forged)] := by
  exact ⟨_, Run.of_foldlM rfl, by decide +kernel⟩

end Atomr.Remote
