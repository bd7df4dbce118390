import Atomr.Library.DeltaGossip

/-! The deltas that one replica gives out, and the updates they carry.

A ledger follows the replica: it lists the updates made on it, the deltas taken from it with the updates
since the one before, and the updates that wait. The replica does not read it.
-/

namespace Atomr.Library

open List

structure DeltaEntry (N Op D : Type) where
  delta : D
  updates : List (N × Op)

structure DeltaLedger (N Op S D : Type) where
  state : S
  updates : List (N × Op)
  taken : List (DeltaEntry N Op D)
  waiting : List (N × Op)

inductive LedgerAction (N Op S D : Type) where
  | update (node : N) (op : Op)
  | merge (other : S)
  | mergeDelta (delta : D)
  | take

variable {N Op S D κ : Type}

namespace DeltaLedger

def start (first : S) : DeltaLedger N Op S D := ⟨first, [], [], []⟩

def step (ops : DeltaOps N Op S D) (ledger : DeltaLedger N Op S D) :
    LedgerAction N Op S D → Option (DeltaLedger N Op S D)
  | .update node op => some { ledger with
      state := ops.apply node op ledger.state
      updates := ledger.updates ++ [(node, op)]
      waiting := ledger.waiting ++ [(node, op)] }
  | .merge other => some { ledger with state := ops.merge ledger.state other }
  | .mergeDelta delta => some { ledger with state := ops.mergeDelta ledger.state delta }
  | .take =>
    match ops.takeDelta ledger.state with
    | (none, state) => some { ledger with state }
    | (some delta, state) => some { ledger with
        state
        taken := ledger.taken ++ [⟨delta, ledger.waiting⟩]
        waiting := [] }

def carriedBy (entries : List (DeltaEntry N Op D)) : List (N × Op) := entries.flatMap DeltaEntry.updates

end DeltaLedger

section Account
variable [DecidableEq N] (amount : Op → Nat) (node : N) (updates : List (N × Op))

def account : Nat := ((updates.filter fun u => u.1 = node).map fun u => amount u.2).sum

def nodeHistory : List (Update N Op) := (updates.filter fun u => u.1 = node).map fun u => ⟨node, u.2, ∅⟩

theorem account_append (more : List (N × Op)) :
    account amount node (updates ++ more) = account amount node updates + account amount node more := by
  simp [account]

theorem account_singleton (other : N) (op : Op) :
    account amount node [(other, op)] = if other = node then amount op else 0 := by
  by_cases here : other = node <;> simp [account, here]

theorem total_nodeHistory : total amount (nodeHistory node updates) = account amount node updates := by
  simp [total, nodeHistory, account, Function.comp_def]

theorem nodeHistory_snoc (other : N) (op : Op) :
    nodeHistory node (updates ++ [(other, op)]) =
      if other = node then nodeHistory node updates ++ [⟨node, op, ∅⟩] else nodeHistory node updates := by
  by_cases here : other = node <;> simp [nodeHistory, here]

theorem account_carriedBy (es : List (DeltaEntry N Op D)) :
    account amount node (DeltaLedger.carriedBy es) = (es.map fun e => account amount node e.updates).sum := by
  induction es with
  | nil => rfl
  | cons first rest ih =>
    rw [DeltaLedger.carriedBy, flatMap_cons, account_append, map_cons, sum_cons, ← ih]
    rfl

theorem account_carriedBy_le {es others : List (DeltaEntry N Op D)} (subperm : es.Subperm others) :
    account amount node (DeltaLedger.carriedBy es) ≤ account amount node (DeltaLedger.carriedBy others) := by
  obtain ⟨mid, perm, sublist⟩ := subperm
  rw [account_carriedBy, account_carriedBy, ← (perm.map _).sum_eq]
  exact (sublist.map _).sum_le_sum fun n _ => Nat.zero_le n

end Account

section Accounted
variable [DecidableEq N] {ops : DeltaOps N Op S D} {first : S} {entry pending : S → κ → N → Nat}
  {carried : D → κ → N → Nat} {amount : κ → Op → Nat} {clamp : Nat → Nat} {Fits : List (Update N Op) → Prop}

/-- Every update is carried by one delta or waits. For the nodes whose updates fit, a delta holds what the
updates it carries add up to, and so does the pending one. -/
structure Accounted (pending : S → κ → N → Nat) (carried : D → κ → N → Nat) (amount : κ → Op → Nat)
    (clamp : Nat → Nat) (Fits : List (Update N Op) → Prop) (ledger : DeltaLedger N Op S D) : Prop where
  once : DeltaLedger.carriedBy ledger.taken ++ ledger.waiting = ledger.updates
  waiting : ∀ c node, Fits (nodeHistory node ledger.updates) →
    pending ledger.state c node = clamp (account (amount c) node ledger.waiting)
  taken : ∀ e ∈ ledger.taken, ∀ c node, Fits (nodeHistory node ledger.updates) →
    carried e.delta c node = clamp (account (amount c) node e.updates)

variable {ledger next : DeltaLedger N Op S D}

theorem Accounted.account_updates (acct : Accounted pending carried amount clamp Fits ledger) (c : κ) (n : N) :
    account (amount c) n (DeltaLedger.carriedBy ledger.taken) + account (amount c) n ledger.waiting =
      account (amount c) n ledger.updates := by
  rw [← account_append, acct.once]

variable {state : S} {acts : List (LedgerAction N Op S D)}

theorem Accounted.move (acct : Accounted pending carried amount clamp Fits ledger)
    (eq : pending state = pending ledger.state) :
    Accounted pending carried amount clamp Fits { ledger with state } where
  once := acct.once
  waiting c n fits := (congrFun (congrFun eq c) n).trans (acct.waiting c n fits)
  taken := acct.taken

variable (accum : DeltaAccumulates id ops first entry pending carried amount clamp Fits)
include accum

theorem DeltaAccumulates.accounted_update (acct : Accounted pending carried amount clamp Fits ledger)
    (n : N) (op : Op) :
    Accounted pending carried amount clamp Fits { ledger with
      state := ops.apply n op ledger.state
      updates := ledger.updates ++ [(n, op)]
      waiting := ledger.waiting ++ [(n, op)] } where
  once := by
    rw [← append_assoc, acct.once]
  waiting c other fits := by
    rw [nodeHistory_snoc] at fits
    rw [account_append, account_singleton]
    by_cases here : n = other
    · subst here
      rw [if_pos rfl] at fits ⊢
      have within : account (amount c) n ledger.waiting + amount c op ≤
          total (amount c) (nodeHistory n ledger.updates ++ [⟨n, op, ∅⟩]) := by
        have parts := acct.account_updates c n
        have whole := total_nodeHistory (amount c) n ledger.updates
        simp only [total, map_append, sum_append, map_singleton, sum_singleton] at whole ⊢
        omega
      have h := acct.waiting c n (accum.states.shorter _ _ fits)
      exact accum.own _ ⟨n, op, ∅⟩ ledger.state c _ fits within h
    · rw [if_neg here] at fits ⊢
      rw [accum.others n op ledger.state c other (Ne.symm here)]
      exact acct.waiting c other fits
  taken e mem c other fits := by
    refine acct.taken e mem c other ?_
    rw [nodeHistory_snoc] at fits
    split at fits
    · exact accum.states.shorter _ _ fits
    · exact fits

theorem DeltaAccumulates.accounted_step {act : LedgerAction N Op S D}
    (acct : Accounted pending carried amount clamp Fits ledger) (taken : ledger.step ops act = some next) :
    Accounted pending carried amount clamp Fits next := by
  cases act with
  | update n op =>
    cases taken
    exact accum.accounted_update acct n op
  | merge other =>
    cases taken
    exact acct.move (accum.merge _ _)
  | mergeDelta d =>
    cases taken
    exact acct.move (accum.mergeDelta _ _)
  | take =>
    rw [DeltaLedger.step] at taken
    split at taken
    next st res =>
      cases taken
      have eq := accum.none ledger.state (by rw [res])
      rw [res] at eq
      exact acct.move (congrArg pending eq)
    next d st res =>
      cases taken
      obtain ⟨carries, _, zero⟩ := accum.taken ledger.state d (by rw [res])
      rw [res] at zero
      refine ⟨?_, fun c n _ => ?_, fun e mem c n fits => ?_⟩
      · rw [← acct.once]
        simp [DeltaLedger.carriedBy]
      · rw [zero]
        exact accum.states.nothing.symm
      · rcases mem_append.mp mem with old | new
        · exact acct.taken e old c n fits
        · rw [mem_singleton.mp new, carries]
          exact acct.waiting c n fits

theorem DeltaAccumulates.accounted (run : Run (DeltaLedger.step ops) (fun _ _ => True) (.start first) acts ledger) :
    Accounted pending carried amount clamp Fits ledger := by
  refine run.invariant (Accounted pending carried amount clamp Fits) ?_ ?_
  · intro ledger act next acct _ taken
    exact accum.accounted_step acct taken
  · refine ⟨rfl, fun c n _ => ?_, fun e mem => by cases mem⟩
    exact (accum.empty c n).trans accum.states.nothing.symm

theorem DeltaAccumulates.entry_foldl {hist : List (Update N Op)} (fits : Fits hist) (c : κ) (n : N)
    (es : List (DeltaEntry N Op D))
    (carries : ∀ e ∈ es, carried e.delta c n = clamp (account (amount c) n e.updates)) {sum : Nat}
    (h : entry state c n = clamp sum)
    (within : sum + account (amount c) n (DeltaLedger.carriedBy es) ≤ total (amount c) hist) :
    entry (es.foldl (fun state e => ops.mergeDelta state e.delta) state) c n =
      clamp (sum + account (amount c) n (DeltaLedger.carriedBy es)) := by
  induction es generalizing state sum with
  | nil => exact h
  | cons e rest ih =>
    obtain ⟨here, later⟩ := forall_mem_cons.mp carries
    have split : account (amount c) n (DeltaLedger.carriedBy (e :: rest)) =
        account (amount c) n e.updates + account (amount c) n (DeltaLedger.carriedBy rest) :=
      account_append (amount c) n e.updates (DeltaLedger.carriedBy rest)
    rw [split, ← Nat.add_assoc] at within ⊢
    have added := accum.add hist state e.delta c n sum _ fits (by omega) h here
    exact ih later added within

/-- Deltas and the pending one add up to all updates, and a fresh replica that is given some of the deltas
holds what these carry. -/
theorem DeltaAccumulates.accounting (run : Run (DeltaLedger.step ops) (fun _ _ => True) (.start first) acts ledger)
    {c : κ} {nd : N} (fits : Fits (nodeHistory nd ledger.updates))
    (exact : ∀ n ≤ account (amount c) nd ledger.updates, clamp n = n) :
    (∀ e ∈ ledger.taken, carried e.delta c nd = account (amount c) nd e.updates) ∧
    (ledger.taken.map fun e => carried e.delta c nd).sum + pending ledger.state c nd =
      account (amount c) nd ledger.updates ∧
    ∀ applied, applied.Subperm ledger.taken →
      entry (applied.foldl (fun st e => ops.mergeDelta st e.delta) first) c nd =
        account (amount c) nd (DeltaLedger.carriedBy applied) := by
  have acct := accum.accounted run
  have parts := acct.account_updates c nd
  have each : ∀ e ∈ ledger.taken, carried e.delta c nd = account (amount c) nd e.updates := by
    intro e mem
    have part : account (amount c) nd (DeltaLedger.carriedBy [e]) ≤ _ :=
      account_carriedBy_le (amount c) nd (singleton_subperm_iff.mpr mem)
    rw [DeltaLedger.carriedBy, flatMap_singleton] at part
    rw [acct.taken e mem c nd fits, exact _ (by omega)]
  refine ⟨each, ?_, fun applied subperm => ?_⟩
  · rw [map_congr_left each, ← account_carriedBy, acct.waiting c nd fits, exact _ (by omega), parts]
  · have part := account_carriedBy_le (amount c) nd subperm
    have blank : entry first c nd = clamp 0 := (accum.states.start c nd).trans accum.states.nothing.symm
    have whole := total_nodeHistory (amount c) nd ledger.updates
    have h := accum.entry_foldl fits c nd applied
      (fun e mem => acct.taken e (subperm.subset mem) c nd fits) blank (by omega)
    rw [h, Nat.zero_add, exact _ (by omega)]

end Accounted

end Atomr.Library
