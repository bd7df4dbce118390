import Atomr.Cluster.Daemon
import Atomr.Library.StampedWrites

/-! Daemons with equal versions: when they hold equal views.

A change of a member is counted in the version of the daemon that made it, and
an exchange of envelopes joins the versions. The members are overwritten, so an
envelope can take a newer entry back, and a removed member can come back. The
run theorem asks every delivered envelope not to do so.
-/

namespace Atomr.Cluster

open Atomr.Core Library List Option Keyed

variable {ι : Type}

structure Net (ι : Type) where
  nodes : ι → Daemon
  sent : List (Address × GossipPdu)
  /-- Addresses some daemon has dropped so far; no daemon reads this record. -/
  removed : List Address

inductive NetAction (ι : Type) where
  | command (node : ι) (cmd : DaemonCmd)
  | deliver (index : Nat) (node : ι)

namespace Net

def start (addresses : ι → Address) (sbr : ι → Option SbrRuntime) : Net ι :=
  ⟨fun i => .spawn (addresses i) (sbr i), [], []⟩

def dropped (before after : MembershipState) : List Address :=
  (before.members.map Member.address).filter fun address => (after.view address).isNone

variable [DecidableEq ι]

def handleAt (net : Net ι) (node : ι) (cmd : DaemonCmd) : Net ι :=
  let handled := (net.nodes node).handle cmd
  { nodes := Function.update net.nodes node handled.1
    sent := net.sent ++ handled.2.sent
    removed := net.removed ++ dropped (net.nodes node).state handled.1.state }

/-- A message reaches daemons that print its target address as their own. Gossip
is applied by delivery only. -/
def step (net : Net ι) : NetAction ι → Option (Net ι)
  | .command _ (.applyGossip _) => none
  | .command node cmd => some (net.handleAt node cmd)
  | .deliver index node =>
    match net.sent[index]? with
    | none => none
    | some (target, pdu) =>
      if target.display = (net.nodes node).name then some (net.handleAt node (.applyGossip pdu)) else none

end Net

/-- What an envelope may hold, by how the receiver's version compares with its own:
an older receiver learns of no removal, a newer one of no other entry, and two that
diverged agree on common members and miss only members never removed. -/
def Acceptable (held state : MembershipState) (removed : List Address) : VectorRelation → Prop
  | .same => True
  | .before => ∀ m ∈ held.members, state.view m.address ≠ none
  | .after => ∀ m ∈ state.members, held.view m.address = state.view m.address
  | .concurrent => ∀ m ∈ held.members ++ state.members,
      held.view m.address = state.view m.address ∨
        (held.view m.address = none ∨ state.view m.address = none) ∧ m.address ∉ removed

instance (held state : MembershipState) (removed : List Address) (relation : VectorRelation) :
    Decidable (Acceptable held state removed relation) := by
  cases relation <;> unfold Acceptable <;> infer_instance

def GossipPdu.carried : GossipPdu → Option (VectorClock × MembershipState)
  | .envelope _ version state => some (version, state)
  | _ => none

def Mergeable (net : Net ι) : NetAction ι → Prop
  | .command _ _ => True
  | .deliver index node => ∀ message ∈ net.sent[index]?, ∀ carried ∈ message.2.carried,
      Acceptable (net.nodes node).state carried.2 net.removed ((net.nodes node).version.compare carried.1)

instance (net : Net ι) (action : NetAction ι) : Decidable (Mergeable net action) := by
  cases action <;> unfold Mergeable <;> infer_instance

/-- Versions are 64-bit counters, and no daemon's own counter is about to wrap. -/
def Net.Counting (net : Net ι) : Prop := ∀ i, (net.nodes i).version.get (net.nodes i).name + 1 < 2 ^ 64

instance [Fintype ι] (net : Net ι) : Decidable net.Counting := by
  unfold Net.Counting; infer_instance

theorem mergeState_distinct {ours : MembershipState} (nodup : ours.Distinct) (other : MembershipState) :
    (mergeState ours other).Distinct := by
  rw [mergeState_eq]
  exact distinct_foldl_put nodup other.members

theorem mergeState_view (ours : MembershipState) {other : MembershipState} (nodup : other.Distinct)
    (addr : Address) : (mergeState ours other).view addr = (other.view addr).or (ours.view addr) := by
  unfold MembershipState.view MembershipState.find
  rw [mergeState_eq, find_foldl_put ours.members nodup]
  cases Keyed.find Member.address other.members addr <;> rfl

variable {state : MembershipState}

theorem mem_of_view {addr : Address} (h : state.view addr ≠ none) :
    ∃ m ∈ state.members, m.address = addr := by
  have found : Keyed.find Member.address state.members addr ≠ none := by
    intro ha
    simp [MembershipState.view, MembershipState.find, ha] at h
  simpa [find_eq_none] using found

abbrev History := List (StampedWrite String Address (MemberStatus × List String))

open StampedWrite

variable {version : VectorClock} {cmd : DaemonCmd} {node : ι} {next : Daemon} {act : NetAction ι}

/-- What an acceptable envelope leaves is what the joined version explains. -/
theorem Acceptable.view_eq {h : Daemon} {removed : List Address}
    (acc : Acceptable h.state state removed (h.version.compare version)) {hist : History}
    (ours : ∀ a, h.state.view a = latest hist h.version.get a)
    (theirs : ∀ a, state.view a = latest hist version.get a)
    (deletions : ∀ ev ∈ hist, ∀ a, ev.writes a = some none → a ∈ removed) (a : Address) :
    (state.view a).or (h.state.view a) = latest hist (h.version.get ⊔ version.get) a := by
  have compared := VectorClock.compare_eq h.version version
  have lower : h.version ≤ version → h.version.get ⊔ version.get = version.get := fun below => sup_eq_right.mpr below
  have upper : version ≤ h.version → h.version.get ⊔ version.get = h.version.get := fun above => sup_eq_left.mpr above
  cases relation : h.version.compare version <;> rw [relation] at acc
  case same =>
    obtain ⟨below, above⟩ := compared.1.mp relation
    have same : h.version.get = version.get := le_antisymm below above
    rw [ours, theirs, same, sup_idem, Option.or_self]
  case before =>
    rw [lower (compared.2.1.mp relation).1, ← theirs]
    cases theirView : state.view a with
    | some e => rfl
    | none =>
      -- An entry of ours that the envelope lacks would be a removal we have not seen.
      by_contra kept
      obtain ⟨m, mem, rfl⟩ := mem_of_view (fun ha => kept (by rw [ha]; rfl))
      exact acc m mem theirView
  case after =>
    rw [upper (compared.2.2.1.mp relation).2, ← ours]
    cases theirView : state.view a with
    | none => rfl
    | some e =>
      obtain ⟨m, mem, rfl⟩ := mem_of_view (by rw [theirView]; exact some_ne_none e)
      rw [acc m mem, theirView]
      rfl
  case concurrent =>
    by_cases agree : h.state.view a = state.view a
    · have vs : latest hist h.version.get a = latest hist version.get a := by
        rw [← ours, agree, theirs]
      rw [latest_sup_of_eq vs, ← ours, agree, Option.or_self]
    have holder : ∃ m ∈ h.state.members ++ state.members, m.address = a := by
      by_cases ha : h.state.view a = none
      · have hp : state.view a ≠ none := fun other => agree (ha.trans other.symm)
        obtain ⟨m, mem, same⟩ := mem_of_view hp
        exact ⟨m, mem_append_right _ mem, same⟩
      · obtain ⟨m, mem, same⟩ := mem_of_view ha
        exact ⟨m, mem_append_left _ mem, same⟩
    obtain ⟨m, mem, rfl⟩ := holder
    obtain ⟨missing, kept⟩ := (acc m mem).resolve_left agree
    have undeleted : ∀ ev ∈ hist, ev.writes m.address ≠ some none :=
      fun ev rec del => kept (deletions ev rec m.address del)
    rcases missing with ha | ha
    · rw [latest_sup_of_unwritten (unwritten_of_latest_eq_none undeleted (ours m.address ▸ ha)), ← theirs,
        ha, or_none]
    · rw [sup_comm, latest_sup_of_unwritten (unwritten_of_latest_eq_none undeleted (theirs m.address ▸ ha)),
        ← ours, ha, none_or]

/-- A version with the members held under it, at a daemon or in an envelope. -/
def Net.Holds (net : Net ι) (version : VectorClock) (state : MembershipState) : Prop :=
  (∃ i, (net.nodes i).version = version ∧ (net.nodes i).state = state) ∨
    ∃ message ∈ net.sent, ∃ sender, message.2 = .envelope sender version state

structure Explained (addresses : ι → Address) (net : Net ι) (history : History) : Prop where
  selfAddr : ∀ i, (net.nodes i).selfAddr = addresses i
  reports : ∀ i, (net.nodes i).state.reachability = .new
  distinct : ∀ version state, net.Holds version state → state.Distinct
  bounded : ∀ version state, net.Holds version state →
    ∀ i, version.get (addresses i).display ≤ (net.nodes i).version.get (addresses i).display
  explained : ∀ version state, net.Holds version state → ∀ a, state.view a = latest history version.get a
  indices : ∀ event ∈ history, ∃ i, event.node = (addresses i).display ∧
    event.index ≤ (net.nodes i).version.get (addresses i).display
  deletions : ∀ event ∈ history, ∀ a, event.writes a = some none → a ∈ net.removed

theorem start_explained (addrs : ι → Address) (sbr : ι → Option SbrRuntime) :
    Explained addrs (.start addrs sbr) [] := by
  have initial : ∀ ver st, (Net.start addrs sbr).Holds ver st → ver = .new ∧ st = .new := by
    rintro ver st (⟨i, rfl, rfl⟩ | ⟨m, mem, _⟩)
    · exact ⟨rfl, rfl⟩
    · cases mem
  refine ⟨fun _ => rfl, fun _ => rfl, ?_, ?_, ?_, by simp, by simp⟩
  all_goals
    intro ver st h
    obtain ⟨rfl, rfl⟩ := initial ver st h
  · exact nodup_nil
  · exact fun _ => Nat.zero_le _
  · exact fun _ => rfl

variable [DecidableEq ι] {addresses : ι → Address} {net : Net ι} {hist : History}

theorem Net.Holds.of_handleAt
    (hh : (net.nodes node).Handled cmd ((net.nodes node).handle cmd).1 ((net.nodes node).handle cmd).2.sent)
    (h : (net.handleAt node cmd).Holds version state) :
    net.Holds version state ∨
      version = ((net.nodes node).handle cmd).1.version ∧ state = ((net.nodes node).handle cmd).1.state := by
  rcases h with ⟨i, rfl, rfl⟩ | ⟨m, mem, snd, eq⟩
  · by_cases here : i = node
    · subst here
      exact .inr (by simp [Net.handleAt])
    · exact .inl (.inl ⟨i, by simp [Net.handleAt, here]⟩)
  · rcases mem_append.mp mem with old | new
    · exact .inl (.inr ⟨m, old, snd, eq⟩)
    · exact .inr (hh.envelopes m new snd version state eq)

theorem Net.nodes_handleAt (n i : ι) (cmd : DaemonCmd) :
    (net.handleAt n cmd).nodes i = if i = n then ((net.nodes n).handle cmd).1 else net.nodes i := by
  simp only [Net.handleAt, Function.update_apply]

/-- What has to be shown of the pair one daemon holds after a command. -/
theorem Explained.advance (explained : Explained addresses net hist)
    (taken : ((net.nodes node).handle cmd).1 = next) {history' : History}
    (grows : (net.nodes node).version.get (addresses node).display ≤ next.version.get (addresses node).display)
    (distinct : next.state.Distinct) (bounded : ∀ i, i ≠ node →
      next.version.get (addresses i).display ≤ (net.nodes i).version.get (addresses i).display)
    (view : ∀ a, next.state.view a = latest history' next.version.get a)
    (others : ∀ ver st, net.Holds ver st →
      ∀ a, latest history' ver.get a = latest hist ver.get a)
    (indices : ∀ ev ∈ history', ev ∈ hist ∨
      ev.node = (addresses node).display ∧ ev.index ≤ next.version.get (addresses node).display)
    (deletions : ∀ ev ∈ history', ev ∈ hist ∨
      ∀ a, ev.writes a = some none → a ∈ Net.dropped (net.nodes node).state next.state) :
    Explained addresses (net.handleAt node cmd) history' := by
  have hh := Daemon.handle_handled (explained.reports node) cmd
  have ns := fun i => net.nodes_handleAt node i cmd
  rw [taken] at ns hh
  have es : ∀ i, (net.nodes i).version.get (addresses i).display ≤
      ((net.handleAt node cmd).nodes i).version.get (addresses i).display := by
    intro i
    rw [ns]
    split
    next here => exact here ▸ grows
    · exact le_rfl
  have holds : ∀ ver st, (net.handleAt node cmd).Holds ver st →
      net.Holds ver st ∨ ver = next.version ∧ st = next.state := by
    intro ver st h
    have cases := h.of_handleAt (Daemon.handle_handled (explained.reports node) cmd)
    rwa [taken] at cases
  constructor
  case selfAddr =>
    intro i
    rw [ns]
    split
    next here => rw [hh.selfAddr, explained.selfAddr, here]
    · exact explained.selfAddr i
  case reports =>
    intro i
    rw [ns]
    split
    · exact hh.reports
    · exact explained.reports i
  case distinct =>
    intro ver st h
    rcases holds ver st h with old | ⟨rfl, rfl⟩
    · exact explained.distinct ver st old
    · exact distinct
  case bounded =>
    intro ver st h i
    rcases holds ver st h with old | ⟨rfl, rfl⟩
    · exact (explained.bounded ver st old i).trans (es i)
    · by_cases here : i = node
      · rw [ns, if_pos here]
      · exact (bounded i here).trans (es i)
  case explained =>
    intro ver st h a
    rcases holds ver st h with old | ⟨rfl, rfl⟩
    · rw [explained.explained ver st old a, others ver st old]
    · exact view a
  case indices =>
    intro ev mem
    rcases indices ev mem with old | ⟨own, small⟩
    · obtain ⟨i, own, small⟩ := explained.indices ev old
      exact ⟨i, own, small.trans (es i)⟩
    · exact ⟨node, own, by rwa [ns, if_pos rfl]⟩
  case deletions =>
    intro ev mem a del
    rcases deletions ev mem with old | new
    · exact mem_append_left _ (explained.deletions ev old a del)
    · refine mem_append_right _ ?_
      rw [taken]
      exact new a del

/-- The event a daemon adds when it counts a change: the entries that differ. -/
def changeEvent (node : String) (before next : Daemon) : StampedWrite String Address (MemberStatus × List String) where
  node := node
  index := before.version.get node + 1
  writes a := if next.state.view a = before.state.view a then none else some (next.state.view a)

theorem mem_dropped_of_changeEvent {nm : String} {pre : Daemon} {a : Address}
    (del : (changeEvent nm pre next).writes a = some none) : a ∈ Net.dropped pre.state next.state := by
  by_cases eq : next.state.view a = pre.state.view a
  · simp [changeEvent, eq] at del
  · simp only [changeEvent, eq, if_false, Option.some.injEq] at del
    obtain ⟨m, mem, rfl⟩ := mem_of_view (fun ha => eq (del.trans ha.symm))
    simp only [Net.dropped, mem_filter, del, isNone_none, and_true]
    exact mem_map_of_mem mem

section Outcomes
variable (expl : Explained addresses net hist) {n : ι} {cmd : DaemonCmd} {next : Daemon}
  (taken : ((net.nodes n).handle cmd).1 = next)
include expl taken

theorem Explained.kept (ver : next.version = (net.nodes n).version)
    (st : next.state = (net.nodes n).state) : Explained addresses (net.handleAt n cmd) hist := by
  have own : net.Holds next.version next.state := .inl ⟨n, ver.symm, st.symm⟩
  exact expl.advance taken (ver ▸ le_rfl) (expl.distinct _ _ own)
    (fun i _ => expl.bounded _ _ own i) (expl.explained _ _ own) (fun _ _ _ _ => rfl)
    (fun _ mem => .inl mem) (fun _ mem => .inl mem)

theorem Explained.changed (inj : Function.Injective fun i => (addresses i).display)
    (ver : next.version = (net.nodes n).version.tick (net.nodes n).name)
    (nodup : next.state.Distinct) :
    ∃ history', Explained addresses (net.handleAt n cmd) history' := by
  have own : net.Holds (net.nodes n).version (net.nodes n).state := .inl ⟨n, rfl, rfl⟩
  rw [Daemon.name, expl.selfAddr] at ver
  have counted : next.version.get (addresses n).display = (net.nodes n).version.get (addresses n).display + 1 := by
    rw [ver, VectorClock.get_tick, if_pos rfl]
  have others : ∀ i, i ≠ n →
      next.version.get (addresses i).display = (net.nodes n).version.get (addresses i).display := by
    intro i ne
    rw [ver, VectorClock.get_tick, if_neg (fun eq => ne (inj eq))]
  let ev := changeEvent (addresses n).display (net.nodes n) next
  have seen : ev.SeenBy next.version.get := counted.ge
  -- Apart from the new event, the ticked version sees what the old one saw.
  have earlier : ∀ a, latest hist next.version.get a = (net.nodes n).state.view a := by
    intro a
    rw [expl.explained _ _ own]
    apply latest_congr
    intro old mem
    obtain ⟨i, nm, small⟩ := expl.indices old mem
    unfold SeenBy
    rw [nm]
    by_cases here : i = n
    · subst here
      omega
    · rw [others i here]
  refine ⟨ev :: hist, expl.advance taken (by omega) nodup ?_ ?_ ?_ ?_ ?_⟩
  · intro i ne
    rw [others i ne]
    exact expl.bounded _ _ own i
  · intro a
    rw [latest_cons_seen seen, earlier]
    show _ = (if next.state.view a = (net.nodes n).state.view a then none else some (next.state.view a)).getD _
    split
    next eq => exact eq
    · rfl
  -- No version held so far can have seen the new event: it is above the daemon's own count.
  · intro ver st h a
    have bound := expl.bounded ver st h n
    apply latest_cons_unseen
    show ¬ (net.nodes n).version.get (addresses n).display + 1 ≤ ver.get (addresses n).display
    omega
  · intro other mem
    rcases mem_cons.mp mem with rfl | mem
    · exact .inr ⟨rfl, counted ▸ le_rfl⟩
    · exact .inl mem
  · intro other mem
    rcases mem_cons.mp mem with rfl | mem
    · exact .inr fun a del => mem_dropped_of_changeEvent del
    · exact .inl mem

theorem Explained.merged {ver : VectorClock} {st : MembershipState} (env : net.Holds ver st)
    (acc : Acceptable (net.nodes n).state st net.removed ((net.nodes n).version.compare ver))
    (joined : next.version = (net.nodes n).version.merge ver)
    (overwritten : next.state = mergeState (net.nodes n).state st) :
    Explained addresses (net.handleAt n cmd) hist := by
  have own : net.Holds (net.nodes n).version (net.nodes n).state := .inl ⟨n, rfl, rfl⟩
  have vs : next.version.get = (net.nodes n).version.get ⊔ ver.get := by
    funext nm
    rw [joined, VectorClock.get_merge, Pi.sup_apply]
  refine expl.advance taken ?_ ?_ ?_ ?_ (fun _ _ _ _ => rfl) (fun _ mem => .inl mem)
    (fun _ mem => .inl mem)
  · rw [vs]
    exact le_sup_left
  · rw [overwritten]
    exact mergeState_distinct (expl.distinct _ _ own) st
  · intro i ne
    rw [vs]
    exact sup_le (expl.bounded _ _ own i) (expl.bounded _ _ env i)
  -- Overwriting alone would not do: that the result is explained is what the guard is for.
  · intro a
    rw [overwritten, mergeState_view _ (expl.distinct _ _ env), vs]
    exact acc.view_eq (expl.explained _ _ own) (expl.explained _ _ env)
      expl.deletions a

end Outcomes

/-- Every step is one daemon handling a command; an envelope it handles was sent
and is acceptable. -/
theorem Net.step_handles {next : Net ι} (mergeable : Mergeable net act) (taken : net.step act = some next) :
    ∃ n cmd, next = net.handleAt n cmd ∧ ∀ snd ver st,
      cmd = .applyGossip (.envelope snd ver st) → net.Holds ver st ∧
        Acceptable (net.nodes n).state st net.removed ((net.nodes n).version.compare ver) := by
  cases act with
  | command n cmd =>
    refine ⟨n, cmd, ?_⟩
    cases cmd <;> simp_all [Net.step]
  | deliver i n =>
    cases found : net.sent[i]? with
    | none => simp [Net.step, found] at taken
    | some m =>
      obtain ⟨tgt, pdu⟩ := m
      simp only [Net.step, found] at taken
      split at taken
      · refine ⟨n, .applyGossip pdu, (Option.some.inj taken).symm, ?_⟩
        rintro snd ver st ⟨⟩
        exact ⟨.inr ⟨_, mem_of_getElem? found, snd, rfl⟩, mergeable _ found _ rfl⟩
      · cases taken

theorem Explained.step (inj : Function.Injective fun i => (addresses i).display)
    (expl : Explained addresses net hist) {next : Net ι} (mergeable : Mergeable net act)
    (taken : net.step act = some next) : ∃ history', Explained addresses next history' := by
  obtain ⟨n, cmd, rfl, env⟩ := Net.step_handles mergeable taken
  have own := expl.distinct _ _ (.inl ⟨n, rfl, rfl⟩)
  rcases (Daemon.handle_handled (expl.reports n) cmd).outcome with
    ⟨ver, st⟩ | ⟨ver, nodup⟩ | ⟨snd, their, theirState, eq, ver, st⟩
  · exact ⟨hist, expl.kept rfl ver st⟩
  · exact expl.changed rfl inj ver (nodup own)
  · obtain ⟨h, acc⟩ := env snd their theirState eq
    exact ⟨hist, expl.merged rfl h acc ver st⟩

/-- Daemons that print different addresses, merge acceptable envelopes only and have counted fewer than
`2 ^ 64` changes: where two versions are the same, so are the views. -/
theorem same_version_same_view {sbr : ι → Option SbrRuntime}
    (injective : Function.Injective fun i => (addresses i).display) {actions : List (NetAction ι)}
    (run : Run Net.step (fun net action => Mergeable net action ∧ net.Counting) (Net.start addresses sbr) actions net)
    (i j : ι)
    (same : (net.nodes i).version.compare (net.nodes j).version = .same) (a : Address) :
    (net.nodes i).state.view a = (net.nodes j).state.view a := by
  obtain ⟨hist, explained⟩ := run.invariant (fun net => ∃ hist, Explained addresses net hist)
    (fun net act next ⟨hist, explained⟩ allowed taken => explained.step injective allowed.1 taken)
    ⟨[], start_explained addresses sbr⟩
  obtain ⟨below, above⟩ := (VectorClock.compare_eq _ _).1.mp same
  have versions : (net.nodes i).version.get = (net.nodes j).version.get := le_antisymm below above
  rw [explained.explained _ _ (.inl ⟨i, rfl, rfl⟩), explained.explained _ _ (.inl ⟨j, rfl, rfl⟩), versions]

def pair (node : Bool) : Address := .localTo (if node then "A" else "B")

/-- Each joins the other, and they exchange envelopes of diverged versions. -/
theorem same_version_same_view_two_daemons :
    ∃ net : Net Bool,
      Run Net.step (fun net action => Mergeable net action ∧ net.Counting) (Net.start pair fun _ => none)
        [.command true (.join (.new (pair false) ["core"])), .command true (.tick 0),
          .command false (.join (.new (pair true) ["edge"])), .command false (.tick 0),
          .deliver 0 false, .deliver 1 true, .deliver 2 true, .deliver 3 false] net ∧
      (net.nodes false).state.view (pair false) = some (.up, ["core"]) ∧
      (net.nodes true).state.view (pair false) = (net.nodes false).state.view (pair false) := by
  have inj : Function.Injective fun node => (pair node).display := by
    rintro (_ | _) (_ | _) eq <;> first | rfl | exact absurd eq (by decide)
  exact Run.executed rfl fun run =>
    ⟨by decide +kernel, same_version_same_view inj run true false (by decide +kernel) _⟩

/-- A downs B while B leaves; each then merges the other's envelope over its own
entry. The versions are the same, the statuses are not. -/
theorem same_version_different_views :
    ∃ net : Net Bool,
      Run Net.step (fun _ _ => True) (Net.start pair fun _ => none)
        [.command true (.join (.new (pair true) [])), .command true (.join (.new (pair false) [])),
          .command true (.tick 0), .deliver 0 false, .deliver 1 true, .deliver 2 false,
          .command true (.down (pair false)), .command false (.leave (pair false)),
          .command false (.tick 1), .deliver 3 true, .deliver 0 false, .deliver 5 true, .deliver 4 false] net ∧
      (net.nodes true).version.compare (net.nodes false).version = .same ∧
      (net.nodes true).state.view (pair false) = some (.exiting, []) ∧
      (net.nodes false).state.view (pair false) = some (.down, []) := by
  refine ⟨_, Run.of_foldlM rfl, ?_, ?_, ?_⟩ <;> decide +kernel

end Atomr.Cluster
