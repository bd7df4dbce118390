import Atomr.DistributedData.Basic
import Atomr.Library.Runs

/-! The cluster kill switch: an epoch register and one latch flag for each epoch.

Each node keeps both in its own replicator. The register is last-writer-wins and
is stamped from a counter of the node that also numbers its engage tokens, so
timestamps of different nodes are not comparable in any useful way.
-/

namespace Atomr.ClusterTools

open Library DistributedData AList

inductive HaltReason where
  | manual (note : String)
  | quorumLost
  | riskBreach (description : String)
  deriving DecidableEq, Repr

/-- The two types the switch stores in the type-erased replicator. -/
inductive Entry where
  | register (register : LwwRegister Nat)
  | flag (flag : Flag)
  deriving DecidableEq

namespace Replicator

abbrev Store := Table String Entry

/-- A value of the held type is merged in; one of another type replaces what is held. -/
def update (store : Store) (key : String) (value : Entry) : Store :=
  match store.lookup key, value with
  | some (.register held), .register value => store.insert key (.register (merge held value))
  | some (.flag held), .flag value => store.insert key (.flag (merge held value))
  | _, value => store.insert key value

def getRegister (store : Store) (key : String) : Option (LwwRegister Nat) :=
  match store.lookup key with
  | some (.register register) => some register
  | _ => none

def getFlag (store : Store) (key : String) : Option Flag :=
  match store.lookup key with
  | some (.flag flag) => some flag
  | _ => none

/-- What a reader of the flag at `key` sees; an absent flag is off. -/
def flagOn (store : Store) (key : String) : Bool := ((getFlag store key).map Flag.enabled).getD false

/-- No register is stored where a flag belongs. -/
def HoldsFlag (store : Store) (key : String) : Prop :=
  ∀ entry, store.lookup key = some entry → ∃ flag, entry = .flag flag

variable {k : String}

theorem lookup_update_ne (s : Store) {other : String} (v : Entry) (ne : other ≠ k) :
    (update s k v).lookup other = s.lookup other := by
  unfold update
  split <;> exact lookup_insert_ne ne

variable {s : Store}

theorem update_register {h : LwwRegister Nat} (found : s.lookup k = some (.register h))
    (v : LwwRegister Nat) :
    (update s k (.register v)).lookup k = some (.register (merge h v)) := by
  simp only [update, found, lookup_insert]

theorem update_flag (typed : HoldsFlag s k) (v : Flag) :
    ∃ flag, (update s k (.flag v)).lookup k = some (.flag flag) ∧
      flag.enabled = (flagOn s k || v.enabled) := by
  cases found : s.lookup k with
  | none =>
    refine ⟨v, ?_, ?_⟩
    · simp only [update, found, lookup_insert]
    · simp [flagOn, getFlag, found]
  | some e =>
    obtain ⟨h, rfl⟩ := typed e found
    refine ⟨merge h v, ?_, ?_⟩
    · simp only [update, found, lookup_insert]
    · simp [flagOn, getFlag, found, Flag.merge_enabled]

end Replicator

open Replicator

structure KillSwitch where
  store : Store
  baseKey : String
  node : String
  seq : Nat
  lastReason : Option HaltReason

structure ResetAuthorization where
  approverA : String
  approverB : String
  deriving DecidableEq

inductive ResetError where
  | missingApprover
  | duplicateApprover
  deriving DecidableEq

/-- The characters `str::trim` removes. -/
def isWhitespace (c : Char) : Bool :=
  (0x09 ≤ c.val && c.val ≤ 0x0d) || c.val = 0x20 || c.val = 0x85 || c.val = 0xa0 || c.val = 0x1680 ||
  (0x2000 ≤ c.val && c.val ≤ 0x200a) || c.val = 0x2028 || c.val = 0x2029 || c.val = 0x202f ||
  c.val = 0x205f || c.val = 0x3000

def trimsToEmpty (s : String) : Bool := s.toList.all isWhitespace

namespace KillSwitch

variable (switch : KillSwitch)

def epochKey : String := switch.baseKey ++ "::epoch"

def flagKey (epoch : Nat) : String := switch.baseKey ++ ("::flag::" ++ Nat.repr epoch)

def epochRegister : Option (LwwRegister Nat) := getRegister switch.store switch.epochKey

def epoch : Nat := (switch.epochRegister.map LwwRegister.value).getD 0

def nextTs : Nat × KillSwitch := (switch.seq + 1, { switch with seq := switch.seq + 1 })

/-- Seed the epoch register at 0 when the replicator holds none. -/
def build (store : Store) (baseKey node : String) : KillSwitch :=
  let this : KillSwitch := { store, baseKey, node, seq := 0, lastReason := none }
  match this.epochRegister with
  | some _ => this
  -- Also where the key holds a value of another type, which the seed then replaces.
  | none =>
    let (ts, this) := this.nextTs
    { this with store := update this.store this.epochKey (.register ⟨0, ts, node⟩) }

def engageEpoch (epoch : Nat) (reason : HaltReason) : KillSwitch :=
  let flag := ((getFlag switch.store (switch.flagKey epoch)).getD Flag.new).switchOn
  { switch with
    store := update switch.store (switch.flagKey epoch) (.flag flag)
    lastReason := some reason }

def engage (reason : HaltReason) : Nat × KillSwitch := (switch.engageEpoch switch.epoch reason).nextTs

def isEngaged : Bool := flagOn switch.store (switch.flagKey switch.epoch)

def candidate : LwwRegister Nat := ⟨switch.epoch + 1, switch.nextTs.1, switch.node⟩

def authorized (authz : ResetAuthorization) : Except ResetError Unit :=
  if trimsToEmpty authz.approverA || trimsToEmpty authz.approverB then .error .missingApprover
  else if authz.approverA = authz.approverB then .error .duplicateApprover
  else .ok ()

def reset (switch : KillSwitch) (authz : ResetAuthorization) : Except ResetError Nat × KillSwitch :=
  match authorized authz with
  -- A refused reset draws no timestamp.
  | .error e => (.error e, switch)
  | .ok () =>
    (.ok switch.candidate.value,
      { switch.nextTs.2 with
        store := update switch.store switch.epochKey (.register switch.candidate)
        lastReason := none })

/-- Merge one entry of another replicator, when it holds one under the key. -/
def mergeEntry (source : Store) (target : Store) (key : String) : Store :=
  match source.lookup key with
  | none => target
  | some entry => update target key entry

/-- Merge the entries stored under `keys` of another node into this one, in order. -/
def mergeFrom (target source : KillSwitch) (keys : List String) : KillSwitch :=
  { target with store := keys.foldl (mergeEntry source.store) target.store }

end KillSwitch

section Cluster
variable {ι : Type}

abbrev Cluster (ι : Type) := ι → KillSwitch

def start (baseKey : String) (names : ι → String) : Cluster ι := fun i => KillSwitch.build ∅ baseKey (names i)

inductive Action (ι : Type) where
  | engage (node : ι) (reason : HaltReason)
  | reset (node : ι) (authz : ResetAuthorization)
  | merge (source target : ι) (keys : List String)

def Action.isReset : Action ι → Bool
  | .reset _ _ => true
  | _ => false

variable [DecidableEq ι]

def step (cluster : Cluster ι) : Action ι → Option (Cluster ι)
  | .engage i reason => some (Function.update cluster i ((cluster i).engage reason).2)
  | .reset i authz => some (Function.update cluster i ((cluster i).reset authz).2)
  | .merge source target keys =>
    some (Function.update cluster target ((cluster target).mergeFrom (cluster source) keys))

end Cluster

end Atomr.ClusterTools
