import Atomr.ClusterSharding.Coordinator
import Atomr.Library.Runs
import Mathlib.Algebra.Order.BigOperators.Group.List
import Mathlib.Algebra.Ring.Nat
import Mathlib.Data.Finset.Insert

/-! Shard regions that share a coordinator and deliver to each other.

A call of deliver asks the coordinator for the owner, and forwards the message or handles it.
The table of the coordinator keeps the first answer for each shard, so a message is forwarded
at most once and the shard is created in one region only.
-/

namespace Atomr.ClusterSharding

open Library List Option

structure MessageExtractor (Msg : Type) where
  entityId : Msg → String
  shardId : Msg → String

/-- A shard is known by the entities it has seen. -/
structure Shard where
  entities : Finset String

structure ShardRegion where
  shards : Table String Shard

inductive Stage where
  | called
  | allocated (owner : String)
  | located
  deriving DecidableEq, Repr

structure DeliverCall (Msg : Type) where
  region : String
  msg : Msg
  stage : Stage

/-- The regions under their ids, their coordinator and the calls in progress. The messages given to a
region from outside, those handed to a handler and the allocations asked for are logged in order. -/
structure Sharding (Msg : Type) where
  coordinator : ShardCoordinator
  regions : String → ShardRegion
  calls : List (DeliverCall Msg)
  submitted : List Msg
  handled : List (String × Msg)
  requests : List (String × String)

inductive ShardingAction (Msg : Type) where
  | deliver (region : String) (msg : Msg)
  | proceed (index : Nat)

namespace Sharding

variable {Msg : Type}

def start : Sharding Msg := ⟨.new, fun _ => ⟨∅⟩, [], [], [], []⟩

def setCall (net : Sharding Msg) (index : Nat) (call : DeliverCall Msg) : Sharding Msg :=
  { net with calls := net.calls.set index call }

def proceed (extractor : MessageExtractor Msg) (net : Sharding Msg) (index : Nat) (call : DeliverCall Msg) :
    Sharding Msg :=
  let shardId := extractor.shardId call.msg
  match call.stage with
  | .called =>
    let (owner, coordinator) := net.coordinator.allocate shardId call.region
    { net.setCall index { call with stage := .allocated owner } with
      coordinator, requests := net.requests ++ [(shardId, call.region)] }
  | .allocated owner =>
    -- The forwarder calls deliver on the owner.
    if owner ≠ call.region then net.setCall index ⟨owner, call.msg, .called⟩
    else
      let region := net.regions call.region
      let shards := region.shards.upsert shardId fun held => held.getD ⟨∅⟩
      { net.setCall index { call with stage := .located } with
        regions := Function.update net.regions call.region ⟨shards⟩ }
  | .located =>
    let region := net.regions call.region
    let shards := region.shards.adjust shardId fun shard => ⟨insert (extractor.entityId call.msg) shard.entities⟩
    { net with
      regions := Function.update net.regions call.region ⟨shards⟩
      calls := net.calls.eraseIdx index
      handled := net.handled ++ [(call.region, call.msg)] }

def step (extractor : MessageExtractor Msg) (net : Sharding Msg) : ShardingAction Msg → Option (Sharding Msg)
  | .deliver region msg => some
    { net with calls := net.calls ++ [⟨region, msg, .called⟩], submitted := net.submitted ++ [msg] }
  | .proceed index => (net.calls[index]?).map (net.proceed extractor index)

def firstRequest (net : Sharding Msg) (shardId : String) : Option String :=
  (net.requests.find? fun request => request.1 = shardId).map Prod.snd

end Sharding

namespace ShardCoordinator

theorem regionFor_allocate (coord : ShardCoordinator) (sid r other : String) :
    (coord.allocate sid r).2.regionFor other =
      (coord.regionFor other).or (if sid = other then some r else none) := by
  unfold allocate
  cases found : coord.allocation.lookup sid with
  | some ow =>
    by_cases eq : sid = other
    · subst eq
      simp [regionFor, found]
    · simp [eq]
  | none =>
    by_cases eq : sid = other
    · subst eq
      simp [regionFor, found]
    · simp [regionFor, eq, AList.lookup_insert_ne (Ne.symm eq)]

theorem regionFor_allocate_self (coord : ShardCoordinator) (sid r : String) :
    (coord.allocate sid r).2.regionFor sid = some (coord.allocate sid r).1 := by
  unfold allocate
  cases found : coord.allocation.lookup sid with
  | some ow => exact found
  | none => exact AList.lookup_insert _

end ShardCoordinator

namespace DeliverCall

variable {Msg : Type}

def owner (call : DeliverCall Msg) : Option String :=
  match call.stage with
  | .called => none
  | .allocated owner => some owner
  | .located => some call.region

/-- Steps a call has left. A call on another region than the owner is forwarded first. -/
def remaining (extractor : MessageExtractor Msg) (coordinator : ShardCoordinator) (call : DeliverCall Msg) : Nat :=
  match call.stage with
  | .called => if coordinator.regionFor (extractor.shardId call.msg) = some call.region then 3 else 5
  | .allocated owner => if owner = call.region then 2 else 4
  | .located => 1

end DeliverCall

namespace Sharding

variable {Msg : Type} {extractor : MessageExtractor Msg}

theorem firstRequest_snoc (net : Sharding Msg) (sid r other : String) :
    firstRequest { net with requests := net.requests ++ [(sid, r)] } other =
      (net.firstRequest other).or (if sid = other then some r else none) := by
  unfold firstRequest
  rw [List.find?_append]
  cases net.requests.find? fun req => req.1 = other with
  | some req => rfl
  | none =>
    by_cases eq : sid = other
    · simp [eq]
    · simp [eq]

/-- Every owner that is known, whether by a call, a handled message or a shard, is the one in the
table, and the table has the first requests. No message is lost. -/
structure Homed (extractor : MessageExtractor Msg) (net : Sharding Msg) : Prop where
  calls : ∀ call ∈ net.calls, ∀ owner ∈ call.owner,
    net.coordinator.regionFor (extractor.shardId call.msg) = some owner
  handled : ∀ entry ∈ net.handled, net.coordinator.regionFor (extractor.shardId entry.2) = some entry.1
  shards : ∀ region, ∀ shardId ∈ (net.regions region).shards, net.coordinator.regionFor shardId = some region
  first : ∀ shardId, net.coordinator.regionFor shardId = net.firstRequest shardId
  all : (net.handled.map Prod.snd ++ net.calls.map (·.msg)).Perm net.submitted

variable {c : DeliverCall Msg} {calls : List (DeliverCall Msg)} {index : Nat} {net : Sharding Msg}

namespace Homed

variable {net : Sharding Msg} {i : Nat} {c : DeliverCall Msg} (homed : net.Homed extractor)
include homed

theorem setCall (found : net.calls[i]? = some c) (changed : DeliverCall Msg) (eq : changed.msg = c.msg)
    (told : ∀ ow ∈ changed.owner, net.coordinator.regionFor (extractor.shardId changed.msg) = some ow) :
    (net.setCall i changed).Homed extractor := by
  refine ⟨?_, homed.handled, homed.shards, homed.first, ?_⟩
  · intro other mem ow claimed
    rcases mem_or_eq_of_mem_set mem with old | rfl
    · exact homed.calls other old ow claimed
    · exact told ow claimed
  · have kept := map_set_of_eq found eq
    simpa [Sharding.setCall, kept] using homed.all

theorem request (sid r : String) :
    Homed extractor { net with
      coordinator := (net.coordinator.allocate sid r).2
      requests := net.requests ++ [(sid, r)] } := by
  have kept : ∀ {other ow}, net.coordinator.regionFor other = some ow →
      (net.coordinator.allocate sid r).2.regionFor other = some ow := by
    intro other ow pre
    rw [ShardCoordinator.regionFor_allocate, pre, some_or]
  refine ⟨?_, fun e mem => kept (homed.handled e mem),
    fun other sid mem => kept (homed.shards other sid mem), ?_, homed.all⟩
  · intro c mem ow told
    exact kept (homed.calls c mem ow told)
  · intro other
    rw [ShardCoordinator.regionFor_allocate, homed.first]
    exact (firstRequest_snoc net _ _ _).symm

theorem setShards {shards : Table String Shard} {r : String}
    (own : ∀ sid ∈ shards, net.coordinator.regionFor sid = some r) :
    Homed extractor { net with regions := Function.update net.regions r ⟨shards⟩ } := by
  refine ⟨homed.calls, homed.handled, ?_, homed.first, homed.all⟩
  intro other
  dsimp only
  by_cases here : other = r
  · subst here
    rw [Function.update_self]
    exact own
  · rw [Function.update_of_ne here]
    exact homed.shards other

theorem handle (found : net.calls[i]? = some c)
    (told : net.coordinator.regionFor (extractor.shardId c.msg) = some c.region) :
    Homed extractor { net with
      calls := net.calls.eraseIdx i
      handled := net.handled ++ [(c.region, c.msg)] } := by
  refine ⟨?_, ?_, homed.shards, homed.first, ?_⟩
  · intro other mem
    exact homed.calls other (mem_of_mem_eraseIdx mem)
  · exact forall_mem_append.mpr ⟨homed.handled, forall_mem_singleton.mpr told⟩
  · obtain ⟨bound, isCall⟩ := List.getElem?_eq_some_iff.mp found
    have taken := (getElem_cons_eraseIdx_perm bound).map (·.msg)
    rw [isCall] at taken
    refine List.Perm.trans ?_ homed.all
    simpa using taken.append_left (net.handled.map Prod.snd)

end Homed

theorem homed_proceed (homed : net.Homed extractor) (found : net.calls[index]? = some c) :
    (net.proceed extractor index c).Homed extractor := by
  have known := homed.calls _ (mem_of_getElem? found)
  obtain ⟨r, m, stage⟩ := c
  cases stage with
  | called =>
    refine (homed.request (extractor.shardId m) r).setCall found _ rfl ?_
    intro ow told
    cases told
    exact ShardCoordinator.regionFor_allocate_self _ _ _
  | allocated ow =>
    have told := known ow rfl
    rw [proceed]
    dsimp only
    split
    · exact homed.setCall found _ rfl fun _ claimed => (by cases claimed)
    next here =>
      obtain rfl := not_not.mp here
      have created : ∀ sid ∈ (net.regions ow).shards.upsert (extractor.shardId m) (fun h => h.getD ⟨∅⟩),
          net.coordinator.regionFor sid = some ow := by
        intro sid mem
        rcases (AList.mem_insert _).mp mem with rfl | old
        · exact told
        · exact homed.shards ow sid old
      refine (homed.setShards created).setCall found _ rfl fun _ claimed => ?_
      cases claimed
      exact told
  | located =>
    refine (homed.setShards fun sid mem => ?_).handle found (known r rfl)
    exact homed.shards r sid ((Table.mem_adjust ..).mp mem)

theorem homed_step {next : Sharding Msg} {act : ShardingAction Msg} (homed : net.Homed extractor)
    (taken : net.step extractor act = some next) : next.Homed extractor := by
  cases act with
  | deliver r m =>
    cases taken
    refine ⟨?_, homed.handled, homed.shards, homed.first, ?_⟩
    · refine forall_mem_append.mpr ⟨homed.calls, forall_mem_singleton.mpr fun ow told => ?_⟩
      cases told
    · simpa [← append_assoc] using homed.all.append_right [m]
  | proceed i =>
    obtain ⟨c, found, rfl⟩ := map_eq_some_iff.mp taken
    exact homed_proceed homed found

def remaining (extractor : MessageExtractor Msg) (net : Sharding Msg) : Nat :=
  (net.calls.map (·.remaining extractor net.coordinator)).sum

theorem remaining_allocate_le (coord : ShardCoordinator) (sid r : String) (c : DeliverCall Msg) :
    c.remaining extractor (coord.allocate sid r).2 ≤ c.remaining extractor coord := by
  obtain ⟨place, m, stage⟩ := c
  cases stage with
  | called =>
    rw [DeliverCall.remaining, DeliverCall.remaining]
    dsimp only
    by_cases own : coord.regionFor (extractor.shardId m) = some place
    · rw [ShardCoordinator.regionFor_allocate, own, some_or]
    · split <;> omega
  | allocated ow => exact le_rfl
  | located => exact le_rfl

theorem sum_map_of_getElem? (found : calls[index]? = some c) (steps : DeliverCall Msg → Nat) :
    (calls.map steps).sum = steps c + ((calls.eraseIdx index).map steps).sum := by
  obtain ⟨bound, rfl⟩ := List.getElem?_eq_some_iff.mp found
  rw [← ((getElem_cons_eraseIdx_perm bound).map steps).sum_eq, map_cons, sum_cons]

theorem sum_map_set (found : calls[index]? = some c) (changed : DeliverCall Msg) (steps : DeliverCall Msg → Nat) :
    ((calls.set index changed).map steps).sum = steps changed + ((calls.eraseIdx index).map steps).sum := by
  obtain ⟨bound, _⟩ := List.getElem?_eq_some_iff.mp found
  rw [((set_perm_cons_eraseIdx bound changed).map steps).sum_eq, map_cons, sum_cons]

theorem remaining_told (ext : MessageExtractor Msg) (coord : ShardCoordinator) (r : String)
    (m : Msg) :
    let (ow, post) := coord.allocate (ext.shardId m) r
    DeliverCall.remaining ext post ⟨r, m, .allocated ow⟩ <
      DeliverCall.remaining ext coord ⟨r, m, .called⟩ := by
  simp only [DeliverCall.remaining]
  by_cases own : coord.regionFor (ext.shardId m) = some r
  · have ow := coord.regionFor_allocate_self (ext.shardId m) r
    rw [ShardCoordinator.regionFor_allocate, own, some_or, Option.some.injEq] at ow
    rw [if_pos own, if_pos ow.symm]
    omega
  · split <;> omega

theorem remaining_proceed (homed : net.Homed extractor) (found : net.calls[index]? = some c) :
    (net.proceed extractor index c).remaining extractor < net.remaining extractor := by
  have known := homed.calls c (mem_of_getElem? found)
  have pre := sum_map_of_getElem? found (·.remaining extractor net.coordinator)
  obtain ⟨r, m, stage⟩ := c
  cases stage with
  | called =>
    have others : ((net.calls.eraseIdx index).map (·.remaining extractor
        (net.coordinator.allocate (extractor.shardId m) r).2)).sum ≤
        ((net.calls.eraseIdx index).map (·.remaining extractor net.coordinator)).sum :=
      sum_le_sum fun other _ => remaining_allocate_le _ _ _ other
    have post := sum_map_set found ⟨r, m, .allocated (net.coordinator.allocate (extractor.shardId m) r).1⟩
      (·.remaining extractor (net.coordinator.allocate (extractor.shardId m) r).2)
    have told := remaining_told extractor net.coordinator r m
    simp only [remaining, proceed, setCall]
    rw [pre, post]
    exact Nat.add_lt_add_of_lt_of_le told others
  | allocated ow =>
    have told := known ow rfl
    by_cases here : ow = r
    · subst here
      have post := sum_map_set found ⟨ow, m, .located⟩ (·.remaining extractor net.coordinator)
      simp only [remaining, proceed, setCall, ne_eq, not_true_eq_false, if_false]
      rw [pre, post]
      simp only [DeliverCall.remaining, if_true]
      omega
    · have post := sum_map_set found ⟨ow, m, .called⟩ (·.remaining extractor net.coordinator)
      simp only [remaining, proceed, setCall, ne_eq, here, not_false_eq_true, if_true]
      rw [pre, post]
      simp only [DeliverCall.remaining, told, here, if_true, if_false]
      omega
  | located =>
    simp only [remaining, proceed]
    rw [pre]
    simp only [DeliverCall.remaining]
    omega

def proceeds (actions : List (ShardingAction Msg)) : Nat :=
  actions.countP fun
    | .proceed _ => true
    | .deliver _ _ => false

theorem proceeds_run {final : Sharding Msg} {acts : List (ShardingAction Msg)}
    (run : Run (step extractor) (fun _ _ => True) net acts final) (homed : net.Homed extractor) :
    proceeds acts + final.remaining extractor + 5 * net.submitted.length ≤
      net.remaining extractor + 5 * final.submitted.length := by
  induction run with
  | nil net => simp [proceeds]
  | @cons net next final act rest allowed taken tail ih =>
    have later := ih (homed_step homed taken)
    cases act with
    | deliver r m =>
      cases taken
      have first : DeliverCall.remaining extractor net.coordinator ⟨r, m, .called⟩ ≤ 5 := by
        rw [DeliverCall.remaining]
        dsimp only
        split <;> omega
      simp only [remaining, map_append, sum_append, map_singleton, sum_singleton,
        length_append, length_singleton] at later ⊢
      simp only [proceeds, countP_cons_of_neg, Bool.false_eq_true, not_false_eq_true] at later ⊢
      omega
    | proceed i =>
      obtain ⟨c, found, rfl⟩ := map_eq_some_iff.mp taken
      have fewer := remaining_proceed homed found
      have eq : (net.proceed extractor i c).submitted = net.submitted := by
        unfold proceed
        split
        · rfl
        · split <;> rfl
        · rfl
      rw [eq] at later
      simp only [proceeds, countP_cons_of_pos] at later ⊢
      omega

theorem length_le_remaining (ext : MessageExtractor Msg) (net : Sharding Msg) :
    net.calls.length ≤ net.remaining ext := by
  have each : ∀ steps ∈ net.calls.map (·.remaining ext net.coordinator), 1 ≤ steps := by
    intro steps mem
    obtain ⟨c, _, rfl⟩ := mem_map.mp mem
    unfold DeliverCall.remaining
    split
    · split <;> omega
    · split <;> omega
    · exact le_rfl
  have bound := length_le_sum_of_one_le _ each
  rwa [length_map] at bound

/-- Regions that deliver to each other in any interleaving: every message is handled once or is in
progress, by the region whose request for its shard came first; no two regions hold a shard;
each call in progress can go on, and five steps for each message bring all of them to their end. -/
theorem single_home {actions : List (ShardingAction Msg)} {net : Sharding Msg}
    (run : Run (step extractor) (fun _ _ => True) start actions net) :
    (net.handled.map Prod.snd ++ net.calls.map (·.msg)).Perm net.submitted ∧
    (∀ entry ∈ net.handled, net.firstRequest (extractor.shardId entry.2) = some entry.1) ∧
    (∀ region other, ∀ shardId ∈ (net.regions region).shards,
      shardId ∈ (net.regions other).shards → region = other) ∧
    (∀ index < net.calls.length, (net.step extractor (.proceed index)).isSome) ∧
    proceeds actions + net.calls.length ≤ 5 * net.submitted.length := by
  have start_homed : (start : Sharding Msg).Homed extractor :=
    ⟨fun _ absent => (by cases absent), fun _ absent => (by cases absent), fun _ _ absent => (by cases absent),
      fun _ => rfl, .refl _⟩
  have homed := run.invariant _ (fun _ _ _ held _ taken => homed_step held taken) start_homed
  have steps := proceeds_run run start_homed
  have calls := length_le_remaining extractor net
  refine ⟨homed.all, ?_, ?_, ?_, ?_⟩
  · intro entry mem
    rw [← homed.first]
    exact homed.handled entry mem
  · intro region other shardId here there
    exact Option.some.inj ((homed.shards region shardId here).symm.trans (homed.shards other shardId there))
  · intro index bound
    simp [step, bound]
  · have idle : (start : Sharding Msg).remaining extractor = 0 := rfl
    omega

def pairs : MessageExtractor (String × String) := ⟨Prod.snd, Prod.fst⟩

/-- Two regions race for a shard; the second one forwards what it was given. -/
theorem single_home_race :
    ∃ net, Run (step pairs) (fun _ _ => True) start
        [.deliver "a" ("s", "e"), .deliver "b" ("s", "f"), .proceed 1, .proceed 0, .proceed 0, .proceed 0, .proceed 0,
          .proceed 0, .proceed 0, .proceed 0] net ∧
      net.handled = [("b", "s", "e"), ("b", "s", "f")] ∧ net.calls = [] ∧
      net.firstRequest "s" = some "b" ∧ (net.handled.map Prod.snd ++ net.calls.map (·.msg)).Perm net.submitted := by
  exact Run.executed rfl fun run => ⟨rfl, rfl, rfl, (single_home run).1⟩

end Sharding

end Atomr.ClusterSharding
