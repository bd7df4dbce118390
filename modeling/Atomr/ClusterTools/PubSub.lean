import Atomr.Library.Runs
import Atomr.Library.Table
import Mathlib.Data.List.Count

/-! Topics of a node and their announcement to other nodes.

A node announces the keys of its topic table, and a publisher forwards to the nodes that
announced the topic last. A topic keeps its key when its last subscriber leaves, so a node
without subscribers may announce it and is then forwarded to.
-/

namespace Atomr.ClusterTools

open Library List Function AList

variable {Path Msg : Type}

/-- A subscriber takes the messages of its own type. -/
structure TypedSubscriber (Path Msg : Type) where
  path : Path
  deliverAny : Msg → Bool

structure DistributedPubSub (Path Msg : Type) where
  topics : Table String (List (TypedSubscriber Path Msg))

namespace DistributedPubSub

def new : DistributedPubSub Path Msg := ⟨∅⟩

variable (bus : DistributedPubSub Path Msg)

def subscribe (topic : String) (subscriber : TypedSubscriber Path Msg) : DistributedPubSub Path Msg :=
  ⟨bus.topics.upsert topic fun held => held.getD [] ++ [subscriber]⟩

/-- The list may become empty; its key stays. -/
def unsubscribe [DecidableEq Path] (topic : String) (path : Path) : DistributedPubSub Path Msg :=
  ⟨bus.topics.adjust topic fun held => held.filter fun subscriber => subscriber.path ≠ path⟩

def publish (topic : String) : List Path := ((bus.topics.lookup topic).map fun held => held.map (·.path)).getD []

def publishMsg (topic : String) (msg : Msg) : Nat :=
  match bus.topics.lookup topic with
  | none => 0
  | some held => held.countP fun subscriber => subscriber.deliverAny msg

end DistributedPubSub

inductive MediatorPdu where
  | topicAnnounce (sender : String) (topics : List String)
  | forward (topic : String) (msgBlob : List UInt8) (typeId : String)
  deriving DecidableEq, Repr

abbrev NodeSet := Table String Unit

structure ClusterPubSub (Path Msg : Type) where
  bus : DistributedPubSub Path Msg
  selfNode : String
  remoteTopics : Table String NodeSet

namespace ClusterPubSub

def new (bus : DistributedPubSub Path Msg) (selfNode : String) : ClusterPubSub Path Msg := ⟨bus, selfNode, ∅⟩

variable (node : ClusterPubSub Path Msg)

def announce : MediatorPdu := .topicAnnounce node.selfNode node.bus.topics.keys

def advertise (sender : String) (remote : Table String NodeSet) (topic : String) : Table String NodeSet :=
  remote.upsert topic fun held => (held.getD ∅).insert sender ()

/-- An announcement replaces the earlier ones of its sender. What a decoder does with a forwarded
message is its own affair. -/
def applyPdu : MediatorPdu → ClusterPubSub Path Msg
  | .topicAnnounce sender topics =>
    { node with
      remoteTopics := topics.foldl (advertise sender) (node.remoteTopics.mapValues fun held => held.erase sender) }
  | .forward _ _ _ => node

/-- The number of deliveries reported to the caller, and what is sent to which node. -/
def publishRemote (topic : String) (msg : Msg) (typeId : String) (encode : Msg → List UInt8) :
    Nat × List (String × MediatorPdu) :=
  let delivered := node.bus.publishMsg topic msg
  match node.remoteTopics.lookup topic with
  | none => (delivered, [])
  | some nodes =>
    let targets := nodes.keys.filter fun target => target ≠ node.selfNode
    let sent := targets.map fun target => (target, MediatorPdu.forward topic (encode msg) typeId)
    (delivered + sent.length, sent)

end ClusterPubSub

def Advertised (remote : Table String NodeSet) (topic node : String) : Prop :=
  ∃ nodes ∈ remote.lookup topic, node ∈ nodes
deriving Decidable

namespace ClusterPubSub

theorem advertised_erase (remote : Table String NodeSet) (snd tp n : String) :
    Advertised (remote.mapValues fun h => h.erase snd) tp n ↔
      n ≠ snd ∧ Advertised remote tp n := by
  unfold Advertised
  rw [Table.lookup_mapValues]
  cases remote.lookup tp with
  | none => simp
  | some ns => simp [mem_erase]

theorem advertised_advertise (remote : Table String NodeSet) (snd ann tp n : String) :
    Advertised (advertise snd remote ann) tp n ↔
      tp = ann ∧ n = snd ∨ Advertised remote tp n := by
  unfold Advertised advertise
  rw [Table.lookup_upsert_if]
  by_cases eq : tp = ann
  · subst eq
    cases remote.lookup tp with
    | none => simp [-insert_empty]
    | some ns => simp [mem_insert]
  · simp [eq]

theorem advertised_foldl (snd tp n : String) (topics : List String) (remote : Table String NodeSet) :
    Advertised (topics.foldl (advertise snd) remote) tp n ↔
      tp ∈ topics ∧ n = snd ∨ Advertised remote tp n := by
  induction topics generalizing remote with
  | nil => simp
  | cons ann rest ih =>
    rw [foldl_cons, ih, advertised_advertise, mem_cons]
    constructor
    · rintro (⟨later, eq⟩ | ⟨first, eq⟩ | h)
      · exact .inl ⟨.inr later, eq⟩
      · exact .inl ⟨.inl first, eq⟩
      · exact .inr h
    · rintro (⟨first | later, eq⟩ | h)
      · exact .inr (.inl ⟨first, eq⟩)
      · exact .inl ⟨later, eq⟩
      · exact .inr (.inr h)

theorem advertised_applyPdu (rcv : ClusterPubSub Path Msg) (snd tp n : String) (topics : List String) :
    Advertised (rcv.applyPdu (.topicAnnounce snd topics)).remoteTopics tp n ↔
      if n = snd then tp ∈ topics else Advertised rcv.remoteTopics tp n := by
  refine (advertised_foldl snd tp n topics _).trans ?_
  rw [advertised_erase]
  by_cases eq : n = snd
  · simp [eq]
  · simp [eq]

variable (node : ClusterPubSub Path Msg)

def targets (topic : String) : List String :=
  ((node.remoteTopics.lookup topic).map fun nodes => nodes.keys.filter fun target => target ≠ node.selfNode).getD []

theorem sent_publishRemote (tp : String) (m : Msg) (typeId : String) (encode : Msg → List UInt8) :
    (node.publishRemote tp m typeId encode).2 =
      (node.targets tp).map fun tgt => (tgt, .forward tp (encode m) typeId) := by
  unfold publishRemote targets
  cases node.remoteTopics.lookup tp with
  | none => rfl
  | some ns => rfl

theorem nodup_targets (tp : String) : (node.targets tp).Nodup := by
  unfold targets
  cases node.remoteTopics.lookup tp with
  | none => exact nodup_nil
  | some ns => exact ns.keys_nodup.filter _

theorem mem_targets (tp tgt : String) :
    tgt ∈ node.targets tp ↔ tgt ≠ node.selfNode ∧ Advertised node.remoteTopics tp tgt := by
  unfold targets Advertised
  cases node.remoteTopics.lookup tp with
  | none => simp
  | some ns => simp [AList.mem_keys, and_comm]

theorem filter_publishRemote (tp : String) (m : Msg) (typeId : String) (encode : Msg → List UInt8)
    (tgt : String) :
    (node.publishRemote tp m typeId encode).2.filter (fun sent => sent.1 = tgt) =
      if tgt ∈ node.targets tp then [(tgt, .forward tp (encode m) typeId)] else [] := by
  have once := (node.nodup_targets tp).count (a := tgt)
  rw [sent_publishRemote, filter_map]
  have eq : (node.targets tp).filter (fun other => other = tgt) =
      List.replicate ((node.targets tp).count tgt) tgt := filter_eq tgt
  refine (congrArg (List.map _) eq).trans ?_
  rw [once]
  split <;> rfl

end ClusterPubSub

/-- The nodes under their names, with the announcements between each pair in the order sent. Each
announcement is kept with the bus it was made from, and so is the last one delivered; these
records are not read by the nodes. -/
structure Mediators (Path Msg : Type) where
  nodes : String → ClusterPubSub Path Msg
  links : String × String → List (MediatorPdu × DistributedPubSub Path Msg)
  heard : String × String → Option (DistributedPubSub Path Msg)

inductive MediatorAction (Path Msg : Type) where
  | subscribe (node topic : String) (subscriber : TypedSubscriber Path Msg)
  | unsubscribe (node topic : String) (path : Path)
  | announceTo (node target : String)
  | deliver (sender receiver : String)

namespace Mediators

def start : Mediators Path Msg := ⟨fun name => .new .new name, fun _ => [], fun _ => none⟩

def updateBus (net : Mediators Path Msg) (node : String) (bus : DistributedPubSub Path Msg) : Mediators Path Msg :=
  { net with nodes := Function.update net.nodes node { net.nodes node with bus } }

def step [DecidableEq Path] (net : Mediators Path Msg) : MediatorAction Path Msg → Option (Mediators Path Msg)
  | .subscribe node topic subscriber => some (net.updateBus node ((net.nodes node).bus.subscribe topic subscriber))
  | .unsubscribe node topic path => some (net.updateBus node ((net.nodes node).bus.unsubscribe topic path))
  | .announceTo node target =>
    let sent := ((net.nodes node).announce, (net.nodes node).bus)
    some { net with links := Function.update net.links (node, target) (net.links (node, target) ++ [sent]) }
  | .deliver sender receiver =>
    match net.links (sender, receiver) with
    | [] => none
    | (pdu, bus) :: rest => some
      { nodes := Function.update net.nodes receiver ((net.nodes receiver).applyPdu pdu)
        links := Function.update net.links (sender, receiver) rest
        heard := Function.update net.heard (receiver, sender) (some bus) }

/-- The sender had a subscriber of the topic when it made its last announcement delivered here. -/
def Subscribed (net : Mediators Path Msg) (receiver sender topic : String) : Prop :=
  ∃ bus ∈ net.heard (receiver, sender), bus.publish topic ≠ []
deriving Decidable

/-- It had none any more, and the topic was still in its table. -/
def Abandoned (net : Mediators Path Msg) (receiver sender topic : String) : Prop :=
  ∃ bus ∈ net.heard (receiver, sender), topic ∈ bus.topics ∧ bus.publish topic = []

/-- Announcements carry the topics of their bus, and the routing tables are those of the last
announcements delivered. -/
structure Routed (net : Mediators Path Msg) : Prop where
  named : ∀ name, (net.nodes name).selfNode = name
  carried : ∀ sender receiver, ∀ sent ∈ net.links (sender, receiver),
    sent.1 = .topicAnnounce sender sent.2.topics.keys
  table : ∀ receiver topic sender, Advertised (net.nodes receiver).remoteTopics topic sender ↔
    ∃ bus ∈ net.heard (receiver, sender), topic ∈ bus.topics

variable {net : Mediators Path Msg}

theorem Routed.updateBus (routed : net.Routed) (n : String) (bus : DistributedPubSub Path Msg) :
    (net.updateBus n bus).Routed := by
  have eq (nm : String) : ((net.updateBus n bus).nodes nm).selfNode = (net.nodes nm).selfNode ∧
      ((net.updateBus n bus).nodes nm).remoteTopics = (net.nodes nm).remoteTopics := by
    by_cases here : nm = n
    · subst here
      simp [Mediators.updateBus]
    · simp [Mediators.updateBus, here]
  refine ⟨fun nm => (eq nm).1.trans (routed.named nm), routed.carried, ?_⟩
  intro rcv tp snd
  rw [(eq rcv).2]
  exact routed.table rcv tp snd

theorem Routed.updateLink (routed : net.Routed) {snd rcv : String}
    {queue : List (MediatorPdu × DistributedPubSub Path Msg)}
    (hcar : ∀ sent ∈ queue, sent.1 = .topicAnnounce snd sent.2.topics.keys) :
    Routed { net with links := Function.update net.links (snd, rcv) queue } := by
  refine ⟨routed.named, ?_, routed.table⟩
  intro origin tgt sent mem
  dsimp only at mem
  by_cases here : (origin, tgt) = (snd, rcv)
  · cases here
    rw [update_self] at mem
    exact hcar sent mem
  · rw [update_of_ne here] at mem
    exact routed.carried origin tgt sent mem

theorem Routed.hear (routed : net.Routed) (snd rcv : String) (bus : DistributedPubSub Path Msg) :
    Routed { net with
      nodes := Function.update net.nodes rcv
        ((net.nodes rcv).applyPdu (.topicAnnounce snd bus.topics.keys))
      heard := Function.update net.heard (rcv, snd) (some bus) } := by
  refine ⟨?_, routed.carried, ?_⟩
  · intro nm
    dsimp only
    by_cases here : nm = rcv
    · subst here
      rw [update_self]
      exact routed.named nm
    · rw [update_of_ne here]
      exact routed.named nm
  · intro n tp origin
    dsimp only
    by_cases here : n = rcv
    · subst here
      rw [update_self, ClusterPubSub.advertised_applyPdu]
      by_cases eq : origin = snd
      · subst eq
        rw [← AList.mem_keys]
        simp
      · have other : (n, origin) ≠ (n, snd) := by simpa using eq
        rw [if_neg eq, update_of_ne other]
        exact routed.table n tp origin
    · have other : (n, origin) ≠ (rcv, snd) := fun equal => here (congrArg Prod.fst equal)
      rw [update_of_ne here, update_of_ne other]
      exact routed.table n tp origin

theorem routed_step [DecidableEq Path] (net : Mediators Path Msg) (act : MediatorAction Path Msg)
    (next : Mediators Path Msg) (routed : net.Routed) (taken : net.step act = some next) : next.Routed := by
  cases act with
  | subscribe n tp subscriber =>
    cases taken
    exact routed.updateBus n _
  | unsubscribe n tp p =>
    cases taken
    exact routed.updateBus n _
  | announceTo n tgt =>
    cases taken
    apply routed.updateLink
    intro sent mem
    rcases mem_append.mp mem with earlier | new
    · exact routed.carried _ _ sent earlier
    · rw [mem_singleton.mp new, ClusterPubSub.announce, routed.named]
  | deliver snd rcv =>
    have hcar := routed.carried snd rcv
    rw [step] at taken
    split at taken
    · cases taken
    next pdu bus rest queued =>
      cases taken
      rw [queued] at hcar
      obtain ⟨first, later⟩ := forall_mem_cons.mp hcar
      dsimp only at first
      subst first
      exact (routed.updateLink later).hear snd rcv bus

theorem advertised_iff (routed : net.Routed) (rcv tp snd : String) :
    Advertised (net.nodes rcv).remoteTopics tp snd ↔
      net.Subscribed rcv snd tp ∨ net.Abandoned rcv snd tp := by
  rw [routed.table]
  constructor
  · intro known
    obtain ⟨bus, last, hp⟩ := known
    by_cases empty : bus.publish tp = []
    · exact .inr ⟨bus, last, hp, empty⟩
    · exact .inl ⟨bus, last, empty⟩
  · intro known
    rcases known with ⟨bus, last, some⟩ | ⟨bus, last, hp, _⟩
    · refine ⟨bus, last, ?_⟩
      by_contra ha
      rw [DistributedPubSub.publish, lookup_eq_none.mpr ha] at some
      exact some rfl
    · exact ⟨bus, last, hp⟩

/-- A publish forwards the message once to each other node that had a subscriber at its last
announcement delivered here, and to no other, exactly when no other node had announced the topic
after its last subscriber left. -/
theorem forwards_to_subscribed_iff [DecidableEq Path] {actions : List (MediatorAction Path Msg)}
    {net : Mediators Path Msg} (run : Run step (fun _ _ => True) start actions net) (node topic : String) (msg : Msg)
    (typeId : String) (encode : Msg → List UInt8) :
    (∀ target, ((net.nodes node).publishRemote topic msg typeId encode).2.filter (fun sent => sent.1 = target) =
        if target ≠ node ∧ net.Subscribed node target topic then [(target, .forward topic (encode msg) typeId)]
        else []) ↔
      ∀ other, other ≠ node → ¬ net.Abandoned node other topic := by
  have routed := run.invariant Routed (fun net act next held _ taken => routed_step net act next held taken)
    ⟨fun _ => rfl, fun _ _ _ absent => (by cases absent), fun _ _ _ => by simp [start, Advertised, ClusterPubSub.new]⟩
  refine forall_congr' fun target => ?_
  rw [ClusterPubSub.filter_publishRemote]
  have routes := (net.nodes node).mem_targets topic target
  rw [routed.named, advertised_iff routed] at routes
  have apart : net.Subscribed node target topic → ¬ net.Abandoned node target topic := by
    intro subscribed abandoned
    obtain ⟨bus, last, some⟩ := subscribed
    obtain ⟨bus', last', _, none⟩ := abandoned
    rw [Option.mem_unique last last'] at some
    exact some none
  by_cases self : target = node
  · have absent : target ∉ (net.nodes node).targets topic := fun routed => (routes.mp routed).1 self
    rw [if_neg absent, if_neg fun routed => routed.1 self]
    exact iff_of_true rfl (absurd self)
  · by_cases subscribed : net.Subscribed node target topic
    · simp [routes, apart subscribed]
    · simp [routes, subscribed]

def announced : List (MediatorAction Nat Nat) :=
  [.subscribe "b" "news" ⟨1, fun _ => true⟩, .subscribe "b" "news" ⟨2, fun _ => true⟩,
    .subscribe "b" "old" ⟨3, fun _ => true⟩, .unsubscribe "b" "old" 3, .announceTo "b" "a", .deliver "b" "a"]

theorem forwards_to_subscribed_once :
    ∃ net : Mediators Nat Nat, Run step (fun _ _ => True) start announced net ∧ net.Subscribed "a" "b" "news" ∧
      ∀ target, ((net.nodes "a").publishRemote "news" 7 "u64" fun _ => [7]).2.filter (fun sent => sent.1 = target) =
        if target ≠ "a" ∧ net.Subscribed "a" target "news" then [(target, .forward "news" [7] "u64")] else [] := by
  refine Run.executed rfl fun run =>
    ⟨by decide +kernel, (forwards_to_subscribed_iff run "a" "news" 7 "u64" fun _ => [7]).mpr ?_⟩
  intro other _ abandoned
  obtain ⟨bus, last, _, none⟩ := abandoned
  by_cases eq : other = "b"
  · subst eq
    cases last
    revert none
    decide +kernel
  · have absent : ("a", other) ≠ ("a", "b") := by simpa using eq
    have nothing := (update_of_ne absent _ _).symm.trans last
    cases nothing

/-- The publisher forwards a topic that nobody on the other node subscribes to. -/
theorem abandoned_topic_forwarded :
    ∃ net : Mediators Nat Nat, Run step (fun _ _ => True) start announced net ∧ ¬ net.Subscribed "a" "b" "old" ∧
      ((net.nodes "a").publishRemote "old" 7 "u64" fun _ => [7]).2 = [("b", .forward "old" [7] "u64")] :=
  Run.exists_of_foldlM (by decide +kernel)

end Mediators

end Atomr.ClusterTools
