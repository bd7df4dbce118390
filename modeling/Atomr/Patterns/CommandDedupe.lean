import Atomr.Patterns.GatewayAtomicity
import Mathlib.Data.Finset.Card

/-! Retries of a command that succeeded.

The ring of an aggregate holds the events of its last commands. A command leaves the ring
after as many others as the window is wide have been entered. Only a command that wrote
events is entered, and one that is answered from the ring is not entered again.
-/

namespace Atomr.Patterns

open Library Persistence List

variable {A Id Command Event State Err J S : Type} {root : AggregateRoot A Id Command Event State Err}

section Ring
variable {ring : List (String × List Event)} {key name : String} {events : List Event} {cap : Nat}

theorem any_key_iff : (ring.any fun e => decide (e.1 = key)) = true ↔ key ∈ ring.map Prod.fst := by
  simp

theorem pushDedupe_of_mem (entered : key ∈ ring.map Prod.fst) : pushDedupe ring key events cap = ring := by
  simp [pushDedupe, any_key_iff.mpr entered]

theorem pushDedupe_of_not_mem (pos : 0 < cap) (fresh : key ∉ ring.map Prod.fst) :
    pushDedupe ring key events cap = (if ring.length ≥ cap then ring.tail else ring) ++ [(key, events)] := by
  rw [pushDedupe, if_neg (Nat.ne_of_gt pos), if_neg (mt any_key_iff.mp fresh)]

/-- The ring holds the events under the key, and after them only entries of other keys, each
once and each among the given ones. -/
def Kept (ring : List (String × List Event)) (key : String) (events : List Event) (others : Finset String) : Prop :=
  ∃ before after, ring = before ++ (key, events) :: after ∧ key ∉ before.map Prod.fst ∧
    (after.map Prod.fst).Nodup ∧ ∀ name ∈ after.map Prod.fst, name ∈ others.erase key

theorem Kept.mono {some more : Finset String} (kept : Kept ring key events some) (subset : some ⊆ more) :
    Kept ring key events more := by
  obtain ⟨pre, post, cut, first, nodup, within⟩ := kept
  exact ⟨pre, post, cut, first, nodup, fun nm mem => Finset.erase_subset_erase key subset (within nm mem)⟩

variable {others : Finset String}

theorem Kept.find (kept : Kept ring key events others) :
    (ring.find? fun e => e.1 = key).map Prod.snd = some events := by
  obtain ⟨pre, post, rfl, first, -⟩ := kept
  have ha : pre.find? (fun e => decide (e.1 = key)) = none := by
    rw [List.find?_eq_none]
    exact fun e mem eq => first (any_key_iff.mp (any_eq_true.mpr ⟨e, mem, eq⟩))
  simp [ha]

theorem kept_pushDedupe (events : List Event) (pos : 0 < cap) (fresh : key ∉ ring.map Prod.fst) :
    Kept (pushDedupe ring key events cap) key events ∅ := by
  rw [pushDedupe_of_not_mem pos fresh]
  refine ⟨_, [], rfl, fun mem => fresh ?_, by simp, by simp⟩
  split at mem
  · exact mem_of_mem_tail (map_tail ▸ mem)
  · exact mem

/-- An entry stays while fewer others than the window is wide are entered. -/
theorem Kept.push (kept : Kept ring key events others) (pushed : List Event)
    (few : ((insert name others).erase key).card < cap) :
    Kept (pushDedupe ring name pushed cap) key events (insert name others) := by
  obtain ⟨pre, post, rfl, first, nodup, within⟩ := kept.mono (Finset.subset_insert name others)
  by_cases entered : name ∈ (pre ++ (key, events) :: post).map Prod.fst
  · rw [pushDedupe_of_mem entered]
    exact ⟨pre, post, rfl, first, nodup, within⟩
  obtain ⟨other, new⟩ : name ≠ key ∧ name ∉ post.map Prod.fst := by
    rw [map_append, map_cons, mem_append, mem_cons, not_or, not_or] at entered
    exact entered.2
  obtain ⟨longer, grown⟩ : ∃ longer, longer = post ++ [(name, pushed)] := ⟨_, rfl⟩
  have ns : longer.map Prod.fst = post.map Prod.fst ++ [name] := by rw [grown, map_append]; rfl
  have distinct' : (longer.map Prod.fst).Nodup := by
    rw [ns, ← concat_eq_append]
    exact nodup.concat new
  have within' : ∀ any ∈ longer.map Prod.fst, any ∈ (insert name others).erase key := by
    rw [ns]
    refine forall_mem_append.mpr ⟨within, forall_mem_singleton.mpr ?_⟩
    exact Finset.mem_erase.mpr ⟨other, Finset.mem_insert_self name others⟩
  -- The entries after this one have different keys among the others, so there are few of them.
  have room : post.length + 1 < cap := by
    have count : (longer.map Prod.fst).toFinset.card ≤ ((insert name others).erase key).card :=
      Finset.card_le_card fun any mem => within' any (mem_toFinset.mp mem)
    rw [toFinset_card_of_nodup distinct', ns, length_append, length_map, length_singleton] at count
    omega
  rw [pushDedupe_of_not_mem (by omega) entered]
  by_cases full : (pre ++ (key, events) :: post).length ≥ cap
  · rw [if_pos full]
    cases pre with
    | nil =>
      simp only [nil_append, length_cons] at full
      omega
    | cons e pre =>
      have later : key ∉ pre.map Prod.fst := fun mem => first (mem_cons_of_mem e.1 mem)
      exact ⟨pre, longer, by simp [grown], later, distinct', within'⟩
  · rw [if_neg full]
    exact ⟨pre, longer, by simp [grown], first, distinct', within'⟩

end Ring

namespace CommandGateway

theorem runInterceptors_of_admitting {gw : CommandGateway A Id Command Event State Err J S}
    (admitting : ∀ hook ∈ gw.interceptors, ∀ cmd, hook cmd = .ok ())
    (cmd : Command) : gw.runInterceptors cmd = .ok () := by
  unfold runInterceptors
  generalize gw.interceptors = hooks at admitting
  induction hooks with
  | nil => rfl
  | cons hook hooks ih =>
    obtain ⟨first, rest⟩ := forall_mem_cons.mp admitting
    change (do hook cmd; hooks.forM fun hook => hook cmd) = .ok ()
    rw [first cmd]
    exact ih rest

section Rings
variable [Journal J] [SnapshotStore S] (root) (gw : CommandGateway A Id Command Event State Err J S)

theorem dedupe_recoverEntity (j : J) (s : Option S) (permit : Bool) (ent : EntityState A Event State) :
    (root.recoverEntity j s permit ent).1.dedupe = ent.dedupe := by
  unfold AggregateRoot.recoverEntity
  split
  · rfl
  · simp only
    split
    · rfl
    · split <;> rfl

theorem dedupe_ensureRecovered (permit : Bool) (ent : EntityState A Event State) :
    (gw.ensureRecovered root permit ent).1.dedupe = ent.dedupe := by
  unfold ensureRecovered
  split
  · rfl
  · exact dedupe_recoverEntity root _ _ _ _

variable {c : Call Command} {ent : EntityState A Event State} {events : List Event} {k : String}

theorem persistEvents_enters {ans : List Event} (keyed : gw.dedupeKey root c.cmd = some k)
    (done : (gw.persistEvents root ent c events).2.2 = .ok ans) :
    (gw.persistEvents root ent c events).2.1.dedupe =
      pushDedupe ent.dedupe k ans gw.dedupeWindow := by
  cases numbered : number ((root.eventsourced ent.aggregate).header gw.writerUuid) root.encodeEvent ent.seq
    events with
  | mk seq out =>
    cases out with
    | error m => simp [persistEvents, numbered] at done
    | ok reprs =>
      cases written : Journal.writeMessages gw.journal (tagged root.tags reprs events) with
      | mk journal res =>
        cases res with
        | error error => simp [persistEvents, numbered, written] at done
        | ok stored =>
          cases checked : root.checkInvariants (events.foldl root.applyEvent ent.state) with
          | error error => simp [persistEvents, numbered, written, checked] at done
          | ok fine =>
            simp only [persistEvents, numbered, written, checked] at done ⊢
            cases done
            have eq : dedupeKey root { gw with journal } c.cmd = some k := keyed
            simp only [complete, eq]

theorem execute_enters (keyed : gw.dedupeKey root c.cmd = some k)
    (ne : root.commandToEvents ent.aggregate ent.state c.cmd ≠ .ok [])
    (done : (gw.execute root ent c).2.2 = .ok events) :
    (gw.execute root ent c).2.1.dedupe = pushDedupe ent.dedupe k events gw.dedupeWindow := by
  unfold execute at done ⊢
  split at done
  · cases done
  next unversioned =>
    cases der : root.commandToEvents ent.aggregate ent.state c.cmd with
    | error error => simp [der] at done
    | ok derivedEvents =>
      cases derivedEvents with
      | nil => exact absurd der ne
      | cons ev rest =>
        simp only [der] at done
        exact gw.persistEvents_enters root keyed done

end Rings

section Processing
variable [Journal J] [SnapshotStore S] {gateway after : CommandGateway A Id Command Event State Err J S}
  {e out : EntityState A Event State} {call : Call Command} {res : Except (PatternError Err) (List Event)}

structure SameSettings (gateway after : CommandGateway A Id Command Event State Err J S) : Prop where
  factory : after.factory = gateway.factory
  interceptors : after.interceptors = gateway.interceptors
  dedupeWindow : after.dedupeWindow = gateway.dedupeWindow

variable (executed : Executed root gateway e call after out res)
include executed

theorem Executed.settings : SameSettings gateway after ∧ after.entities = gateway.entities := by
  cases executed with
  | accepted _ _ done =>
    subst done
    exact ⟨⟨rfl, rfl, rfl⟩, rfl⟩
  | _ => exact ⟨⟨rfl, rfl, rfl⟩, rfl⟩

theorem Executed.ring :
    out.dedupe = e.dedupe ∨ ∃ k events, root.commandId call.cmd = some k ∧ res = .ok events ∧
      out.dedupe = pushDedupe e.dedupe k events gateway.dedupeWindow := by
  cases executed with
  | accepted _ _ done =>
    subst done
    simp only [complete]
    split
    next k keyed =>
      have named : root.commandId call.cmd = some k := by
        unfold dedupeKey at keyed
        split at keyed
        · exact keyed
        · cases keyed
      exact .inr ⟨k, _, named, rfl, rfl⟩
    · exact .inl rfl
  | _ => exact .inl rfl
omit executed

variable [DecidableEq Id] [Inhabited State]

theorem Processed.settings (proc : Processed root gateway call after res) : SameSettings gateway after := by
  cases proc with
  | executed _ executed => exact ⟨executed.settings.1.factory, executed.settings.1.interceptors, executed.settings.1.dedupeWindow⟩
  | _ => exact ⟨rfl, rfl, rfl⟩

/-- Only the ring of the command's aggregate can change, by an entry for a command that succeeded. -/
theorem Processed.ring (proc : Processed root gateway call after res) (id : Id) :
    (after.held id).dedupe = (gateway.held id).dedupe ∨
      id = root.aggregateId call.cmd ∧ ∃ k events, root.commandId call.cmd = some k ∧ res = .ok events ∧
        (after.held id).dedupe = pushDedupe (gateway.held id).dedupe k events gateway.dedupeWindow := by
  cases proc with
  | intercepted => exact .inl rfl
  | repeated =>
    rw [held_put]
    split
    next eq => exact .inl (by rw [eq])
    · exact .inl rfl
  | unrecovered rec =>
    rw [held_put]
    split
    next eq =>
      have kept := gateway.dedupe_ensureRecovered root call.permit (gateway.held (root.aggregateId call.cmd))
      rw [rec] at kept
      exact .inl (by rw [eq, kept])
    · exact .inl rfl
  | executed rec executed =>
    have kept := gateway.dedupe_ensureRecovered root call.permit (gateway.held (root.aggregateId call.cmd))
    rw [rec] at kept
    rw [held_put]
    split
    next eq =>
      rw [eq, ← kept]
      rcases executed.ring with unch | ⟨k, events, named, done, entered⟩
      · exact .inl unch
      · exact .inr ⟨rfl, k, events, named, done, entered⟩
    · obtain ⟨cfg, entities⟩ := executed.settings
      exact .inl (by rw [held, held, cfg.factory, entities])

variable {events : List Event}

theorem process_enters {k : String} (keyed : gateway.dedupeKey root call.cmd = some k)
    (fresh : k ∉ (gateway.held (root.aggregateId call.cmd)).dedupe.map Prod.fst)
    (ne : root.commandToEvents (gateway.ready root call).aggregate (gateway.ready root call).state call.cmd ≠ .ok [])
    (done : (gateway.process root call).2 = .ok events) :
    ((gateway.process root call).1.held (root.aggregateId call.cmd)).dedupe =
      pushDedupe (gateway.held (root.aggregateId call.cmd)).dedupe k events gateway.dedupeWindow := by
  have uncached : gateway.cached root (gateway.held (root.aggregateId call.cmd)) call.cmd = none := by
    simp only [cached, keyed, Option.map_eq_none_iff, List.find?_eq_none]
    exact fun e mem eq => fresh (any_key_iff.mp (any_eq_true.mpr ⟨e, mem, eq⟩))
  have kept := gateway.dedupe_ensureRecovered root call.permit (gateway.held (root.aggregateId call.cmd))
  unfold process at done ⊢
  split at done
  · cases done
  next adm =>
    simp only [uncached] at done ⊢
    rw [held_put, ← kept]
    cases rec : gateway.ensureRecovered root call.permit (gateway.held (root.aggregateId call.cmd)) with
    | mk ent out =>
      cases out with
      | error error => simp [processEntity, rec] at done
      | ok rcvd =>
        simp only [processEntity, rec] at done ⊢
        simp only [ready, rec] at ne
        exact gateway.execute_enters root keyed ne done

theorem process_of_cached (r : AggregateRoot A Id Command Event State Err)
    (admitting : ∀ hook ∈ gateway.interceptors, ∀ cmd, hook cmd = .ok ())
    (found : gateway.cached r (gateway.held (r.aggregateId call.cmd)) call.cmd = some events) :
    gateway.process r call =
      (gateway.put (r.aggregateId call.cmd) (gateway.held (r.aggregateId call.cmd)), .ok events) := by
  simp only [process, runInterceptors_of_admitting admitting, found]

end Processing

end CommandGateway

/-- A gateway in service, with the ids of the commands that succeeded on one aggregate. -/
structure Service (A Id Command Event State Err J S : Type) where
  gateway : CommandGateway A Id Command Event State Err J S
  succeeded : Finset String

section Retries
variable [Journal J] [SnapshotStore S] [DecidableEq Id] [Inhabited State]

namespace Service

def success (root : AggregateRoot A Id Command Event State Err) (id : Id) (call : Call Command) :
    Except (PatternError Err) (List Event) → Finset String
  | .ok _ => if root.aggregateId call.cmd = id then (root.commandId call.cmd).toList.toFinset else ∅
  | .error _ => ∅

def step (root : AggregateRoot A Id Command Event State Err) (id : Id)
    (service : Service A Id Command Event State Err J S) (call : Call Command) :
    Option (Service A Id Command Event State Err J S) :=
  let answered := service.gateway.process root call
  some ⟨answered.1, service.succeeded ∪ success root id call answered.2⟩

/-- The events are kept while fewer other commands than the window is wide have succeeded. -/
structure Remembers (id : Id) (key : String) (events : List Event)
    (first : CommandGateway A Id Command Event State Err J S) (service : Service A Id Command Event State Err J S) :
    Prop where
  settings : CommandGateway.SameSettings first service.gateway
  kept : (service.succeeded.erase key).card < first.dedupeWindow →
    Kept (service.gateway.held id).dedupe key events service.succeeded

theorem Remembers.step {id : Id} {k : String} {events : List Event}
    {first : CommandGateway A Id Command Event State Err J S} {svc next : Service A Id Command Event State Err J S}
    {c : Call Command} (rem : Remembers id k events first svc)
    (taken : svc.step root id c = some next) : Remembers id k events first next := by
  have proc := svc.gateway.process_processed root c
  rw [← Option.some.inj taken]
  have cfg := proc.settings
  refine ⟨⟨cfg.factory.trans rem.settings.factory, cfg.interceptors.trans rem.settings.interceptors,
    cfg.dedupeWindow.trans rem.settings.dedupeWindow⟩, fun few => ?_⟩
  have fewer := Nat.lt_of_le_of_lt
    (Finset.card_le_card (Finset.erase_subset_erase k (Finset.subset_union_left))) few
  have kept := rem.kept fewer
  rcases proc.ring id with eq | ⟨on, nm, pushed, named, done, entered⟩
  · simp only [eq]
    exact kept.mono Finset.subset_union_left
  · have counted : svc.succeeded ∪ success root id c (svc.gateway.process root c).2 =
        insert nm svc.succeeded := by
      simp [done, success, ← on, named]
    simp only [counted] at few ⊢
    rw [entered, rem.settings.dedupeWindow]
    exact kept.push pushed few

end Service

def AggregateRoot.withHandler (root : AggregateRoot A Id Command Event State Err)
    (handler : A → State → Command → Except Err (List Event)) : AggregateRoot A Id Command Event State Err :=
  { root with commandToEvents := handler }

/-- A command that was not cached and had events is remembered: until as many other commands as the
window is wide have succeeded on its aggregate, a retry is answered with the same events, whatever
the handler would say, and writes nothing. -/
theorem retry_answered_from_ring (gateway : CommandGateway A Id Command Event State Err J S)
    (first retry : Call Command) {key : String} {events : List Event} {calls : List (Call Command)}
    {service : Service A Id Command Event State Err J S}
    (admitting : ∀ hook ∈ gateway.interceptors, ∀ cmd, hook cmd = .ok ()) (window : 0 < gateway.dedupeWindow)
    (keyed : root.commandId first.cmd = some key)
    (fresh : key ∉ (gateway.held (root.aggregateId first.cmd)).dedupe.map Prod.fst)
    (nonempty : root.commandToEvents (gateway.ready root first).aggregate (gateway.ready root first).state first.cmd ≠
      .ok [])
    (done : (gateway.process root first).2 = .ok events)
    (run : Run (Service.step root (root.aggregateId first.cmd)) (fun _ _ => True)
      ⟨(gateway.process root first).1, ∅⟩ calls service)
    (few : (service.succeeded.erase key).card < gateway.dedupeWindow)
    (sameAggregate : root.aggregateId retry.cmd = root.aggregateId first.cmd)
    (sameKey : root.commandId retry.cmd = some key) :
    (service.gateway.process root retry).2 = .ok events ∧
      (service.gateway.process root retry).1.journal = service.gateway.journal ∧
      ∀ handler, service.gateway.process (root.withHandler handler) retry = service.gateway.process root retry := by
  have dedupeKey : gateway.dedupeKey root first.cmd = some key := by simp [CommandGateway.dedupeKey, window, keyed]
  have start : Service.Remembers (root.aggregateId first.cmd) key events gateway ⟨(gateway.process root first).1, ∅⟩ := by
    refine ⟨(gateway.process_processed root first).settings, fun _ => ?_⟩
    rw [CommandGateway.process_enters dedupeKey fresh nonempty done]
    exact kept_pushDedupe events window fresh
  have remembers := run.invariant _ (fun _ _ _ holds _ => holds.step) start
  have found : service.gateway.cached root (service.gateway.held (root.aggregateId retry.cmd)) retry.cmd = some events := by
    have active : service.gateway.dedupeKey root retry.cmd = some key := by
      simp [CommandGateway.dedupeKey, remembers.settings.dedupeWindow, window, sameKey]
    simp only [CommandGateway.cached, active, sameAggregate]
    exact (remembers.kept few).find
  have still : ∀ hook ∈ service.gateway.interceptors, ∀ cmd, hook cmd = .ok () := by
    rwa [remembers.settings.interceptors]
  have answer := CommandGateway.process_of_cached root still found
  refine ⟨by rw [answer], by rw [answer]; rfl, fun handler => ?_⟩
  rw [answer]
  exact CommandGateway.process_of_cached (root.withHandler handler) still found

end Retries

/-- Accounts whose commands have an id, the first byte. A command with nothing else doubles the balance. -/
def keyedAccount : AggregateRoot Bool Bool (Bool × List UInt8) UInt8 UInt8 String :=
  { account with
    commandToEvents := fun _ balance cmd => match cmd.2 with
      | [_] => .ok (if balance = 0 then [] else [balance])
      | [_, amount] => .ok [amount]
      | _ => .error "malformed"
    commandId := fun cmd => cmd.2.head?.map fun key => key.toNat.repr }

def keyedAccounts :
    CommandGateway Bool Bool (Bool × List UInt8) UInt8 UInt8 String InMemoryJournal InMemorySnapshotStore :=
  { accounts with dedupeWindow := 2 }

def booking (key amount : UInt8) : Call (Bool × List UInt8) := ⟨(true, [key, amount]), true, 0⟩

def doubling (key : UInt8) : Call (Bool × List UInt8) := ⟨(true, [key]), true, 0⟩

theorem retry_answered_from_ring_booking :
    ∃ service, Run (Service.step keyedAccount true) (fun _ _ => True)
        ⟨(keyedAccounts.process keyedAccount (booking 1 5)).1, ∅⟩ [booking 2 3, doubling 2] service ∧
      (service.gateway.process keyedAccount (booking 1 7)).2 = .ok [5] := by
  exact Run.executed rfl fun run =>
    (retry_answered_from_ring keyedAccounts (booking 1 5) (booking 1 7) (by simp [keyedAccounts, accounts]) (by decide)
      rfl (by decide +kernel) (by decide +kernel) rfl run (by decide +kernel) rfl rfl).1

def answers (calls : List (Call (Bool × List UInt8))) : List (Except (PatternError String) (List UInt8)) × Nat :=
  let served := calls.foldl (fun served call =>
    let answered := served.1.process keyedAccount call
    (answered.1, served.2 ++ [answered.2])) (keyedAccounts, [])
  (served.2, served.1.journal.highest "a")

/-- With a window of two, a retry is handled anew if the command had no events the first time, or if
its last answer came from the ring and one other command succeeded since. -/
theorem retry_handled_again :
    answers [doubling 1, booking 2 3] = ([.ok [], .ok [3]], 1) ∧
      answers [doubling 1, booking 2 3, doubling 1] = ([.ok [], .ok [3], .ok [3]], 2) ∧
      answers [booking 1 1, booking 2 1, booking 1 1, booking 3 1] = ([.ok [1], .ok [1], .ok [1], .ok [1]], 3) ∧
      answers [booking 1 1, booking 2 1, booking 1 1, booking 3 1, booking 1 2] =
        ([.ok [1], .ok [1], .ok [1], .ok [1], .ok [2]], 4) := by
  decide +kernel

end Atomr.Patterns
