import Atomr.ClusterTools.KillSwitch
import Mathlib.Data.Fintype.Basic

/-! When the latch stays latched.

A node un-latches by adopting a register of another epoch. Adoption follows the
(timestamp, node) order of the registers, and the epochs need not follow it. The
run theorem asks each reset to keep the two orders in agreement and each merge
into a latched node to bring a flag along with a newer epoch.
-/

namespace Atomr.ClusterTools

open Library DistributedData Replicator Function Option

namespace KillSwitch

@[simp] theorem flagKey_inj (switch : KillSwitch) {first second : Nat} :
    switch.flagKey first = switch.flagKey second ↔ first = second := by
  refine ⟨fun eq => ?_, congrArg _⟩
  have suffixes := (String.append_right_inj switch.baseKey).mp eq
  -- Reading the digits of the suffix gives the epoch back.
  have ds := congrArg (fun s : String => Nat.ofDigitChars 10 s.toList 0)
    ((String.append_right_inj "::flag::").mp suffixes)
  simpa only [Nat.toList_repr, Nat.ofDigitChars_ten_toDigits] using ds

theorem epochKey_ne_flagKey (switch : KillSwitch) (ep : Nat) : switch.epochKey ≠ switch.flagKey ep := by
  intro eq
  have suffixes := (String.append_right_inj switch.baseKey).mp eq
  -- The suffixes differ in their third character, whatever the base key is.
  have letters := congrArg (fun s : String => s.toList[2]?) suffixes
  simp at letters

variable {first second : KillSwitch} {register : LwwRegister Nat} {authz : ResetAuthorization}

theorem flagKey_congr (eq : first.baseKey = second.baseKey) (ep : Nat) :
    first.flagKey ep = second.flagKey ep := by
  simp only [flagKey, eq]

theorem epochKey_congr (eq : first.baseKey = second.baseKey) : first.epochKey = second.epochKey := by
  simp only [epochKey, eq]

/-- The epoch register is there, and flag keys hold flags. -/
structure WellTyped (switch : KillSwitch) : Prop where
  register : ∃ register, switch.store.lookup switch.epochKey = some (.register register)
  flags : ∀ epoch, HoldsFlag switch.store (switch.flagKey epoch)

variable {switch : KillSwitch}

theorem epochRegister_eq_some :
    switch.epochRegister = some register ↔
      switch.store.lookup switch.epochKey = some (.register register) := by
  unfold epochRegister getRegister
  split
  next found => simp [found]
  next other => simpa using fun found => other register found

theorem epoch_of_register (h : switch.epochRegister = some register) : switch.epoch = register.value := by
  simp only [epoch, h, map_some, getD_some]

theorem WellTyped.epochRegister (typed : switch.WellTyped) : ∃ reg, switch.epochRegister = some reg := by
  obtain ⟨reg, stored⟩ := typed.register
  exact ⟨reg, epochRegister_eq_some.mpr stored⟩

theorem build_store (baseKey n : String) :
    (build ∅ baseKey n).store =
      AList.insert (build ∅ baseKey n).epochKey (.register ⟨0, 1, n⟩) (∅ : Store) := rfl

theorem build_wellTyped (baseKey n : String) : (build ∅ baseKey n).WellTyped := by
  constructor
  · exact ⟨⟨0, 1, n⟩, AList.lookup_insert ∅⟩
  · intro ep e found
    have ne := (epochKey_ne_flagKey (build ∅ baseKey n) ep).symm
    rw [build_store, AList.lookup_insert_ne ne] at found
    cases found

theorem build_epochRegister (baseKey n : String) : (build ∅ baseKey n).epochRegister = some ⟨0, 1, n⟩ :=
  epochRegister_eq_some.mpr (AList.lookup_insert ∅)

def latched (switch : KillSwitch) (epoch : Nat) : Bool := flagOn switch.store (switch.flagKey epoch)

/-- Every operation merges at most one register into the epoch register and
turns some flags on; it never turns one off. -/
structure Joins (before after : KillSwitch) (register : Option (LwwRegister Nat)) (flags : Nat → Bool) :
    Prop where
  typed : after.WellTyped
  base : after.baseKey = before.baseKey
  epochRegister : after.epochRegister = Option.merge merge before.epochRegister register
  latched : ∀ epoch, after.latched epoch = (before.latched epoch || flags epoch)

section Writes
variable {pre post : KillSwitch}

theorem Joins.of_unread_write (typed : pre.WellTyped) (base : post.baseKey = pre.baseKey)
    (reg : post.store.lookup pre.epochKey = pre.store.lookup pre.epochKey)
    (flags : ∀ ep, post.store.lookup (pre.flagKey ep) = pre.store.lookup (pre.flagKey ep)) :
    Joins pre post none fun _ => false := by
  refine ⟨⟨?_, ?_⟩, base, ?_, ?_⟩
  · rw [epochKey_congr base, reg]
    exact typed.register
  · intro ep e
    rw [flagKey_congr base, flags]
    exact typed.flags ep e
  · unfold KillSwitch.epochRegister getRegister
    rw [epochKey_congr base, reg, merge_none_right]
  · intro ep
    unfold KillSwitch.latched flagOn getFlag
    rw [flagKey_congr base, flags, Bool.or_false]

theorem Joins.of_flag_write (typed : pre.WellTyped) (base : post.baseKey = pre.baseKey)
    {written : Nat} {flag : Flag}
    (s : post.store = update pre.store (pre.flagKey written) (.flag flag)) :
    Joins pre post none fun ep => decide (ep = written) && flag.enabled := by
  obtain ⟨v, found, enabled⟩ := update_flag (typed.flags written) flag
  -- Only the written key changes: the register and the other flags are read as before.
  have others : ∀ k, k ≠ pre.flagKey written → post.store.lookup k = pre.store.lookup k := by
    intro k ne
    rw [s, lookup_update_ne _ _ ne]
  have reg : post.store.lookup post.epochKey = pre.store.lookup pre.epochKey := by
    rw [epochKey_congr base]
    exact others _ (epochKey_ne_flagKey pre written)
  rw [← s] at found
  refine ⟨⟨?_, ?_⟩, base, ?_, ?_⟩
  · rw [reg]
    exact typed.register
  · intro ep e
    rw [flagKey_congr base]
    by_cases eq : ep = written
    · rw [eq, found]
      exact fun h => ⟨v, (Option.some.inj h).symm⟩
    · rw [others _ (mt (flagKey_inj pre).mp eq)]
      exact typed.flags ep e
  · simp only [KillSwitch.epochRegister, getRegister, reg, merge_none_right]
  · intro ep
    simp only [KillSwitch.latched, flagKey_congr base]
    by_cases eq : ep = written
    · have t : flagOn post.store (pre.flagKey written) = v.enabled := by
        simp [flagOn, getFlag, found]
      simp [eq, t, enabled]
    · have kept := others _ (mt (flagKey_inj pre).mp eq)
      simp [eq, flagOn, getFlag, kept]

theorem Joins.of_register_write (typed : pre.WellTyped) (base : post.baseKey = pre.baseKey)
    {reg : LwwRegister Nat} (s : post.store = update pre.store pre.epochKey (.register reg)) :
    Joins pre post (some reg) fun _ => false := by
  obtain ⟨h, found⟩ := typed.register
  have merged : post.store.lookup post.epochKey = some (.register (merge h reg)) := by
    rw [s, epochKey_congr base, update_register found]
  have flags : ∀ ep, post.store.lookup (post.flagKey ep) = pre.store.lookup (pre.flagKey ep) := by
    intro ep
    rw [s, flagKey_congr base, lookup_update_ne _ _ (epochKey_ne_flagKey pre ep).symm]
  refine ⟨⟨⟨_, merged⟩, ?_⟩, base, ?_, ?_⟩
  · intro ep e
    rw [flags]
    exact typed.flags ep e
  · rw [epochRegister_eq_some.mpr merged, epochRegister_eq_some.mpr found, merge_some_some]
  · simp [KillSwitch.latched, flagOn, getFlag, flags]

end Writes

theorem engage_joins (typed : switch.WellTyped) (reason : HaltReason) :
    Joins switch (switch.engage reason).2 none fun ep => decide (ep = switch.epoch) := by
  have joins : Joins switch (switch.engage reason).2 none fun ep => decide (ep = switch.epoch) && true := by
    apply Joins.of_flag_write typed <;> rfl
  simpa only [Bool.and_true] using joins

theorem reset_joins (typed : switch.WellTyped) (valid : authorized authz = .ok ()) :
    Joins switch (switch.reset authz).2 (some switch.candidate) fun _ => false := by
  have res : (switch.reset authz).2 =
      { switch.nextTs.2 with
        store := update switch.store switch.epochKey (.register switch.candidate)
        lastReason := none } := by
    simp only [reset, valid]
  rw [res]
  apply Joins.of_register_write typed <;> rfl

theorem reset_rejected {err : ResetError} (invalid : authorized authz = .error err) :
    (switch.reset authz).2 = switch := by
  simp only [reset, invalid]

theorem merge_again (h : Option (LwwRegister Nat)) (reg : Option (LwwRegister Nat)) :
    Option.merge merge (Option.merge merge h reg) reg = Option.merge merge h reg := by
  cases h <;> cases reg <;> simp only [merge_none_left, merge_none_right,
    merge_some_some, LwwRegister.merge_eq, ite_self]
  split <;> simp_all

section Merge
variable {src tgt : KillSwitch}

theorem mergeFlag_joins (sourceTyped : src.WellTyped) (typed : tgt.WellTyped)
    (base : src.baseKey = tgt.baseKey) (written : Nat) :
    Joins tgt (tgt.mergeFrom src [tgt.flagKey written]) none
      fun ep => decide (ep = written) && src.latched written := by
  have h := sourceTyped.flags written
  unfold latched flagOn getFlag
  rw [flagKey_congr base] at h ⊢
  cases found : src.store.lookup (tgt.flagKey written) with
  | none =>
    simp only [map_none, getD_none, Bool.and_false]
    apply Joins.of_unread_write typed <;> simp [mergeFrom, mergeEntry, found]
  | some e =>
    obtain ⟨flag, rfl⟩ := h e found
    refine Joins.of_flag_write typed (by rfl) ?_
    simp [mergeFrom, mergeEntry, found]

theorem mergeOne_joins (sourceTyped : src.WellTyped) (typed : tgt.WellTyped)
    (base : src.baseKey = tgt.baseKey) (k : String) :
    Joins tgt (tgt.mergeFrom src [k]) (if tgt.epochKey = k then src.epochRegister else none)
      fun ep => decide (tgt.flagKey ep = k) && src.latched ep := by
  by_cases isEpoch : tgt.epochKey = k
  · subst isEpoch
    obtain ⟨reg, found⟩ := sourceTyped.register
    simp only [(epochKey_ne_flagKey tgt _).symm, epochRegister_eq_some.mpr found]
    refine Joins.of_register_write typed (by rfl) ?_
    simp [mergeFrom, mergeEntry, found, ← epochKey_congr base]
  rw [if_neg isEpoch]
  by_cases isFlag : ∃ ep, tgt.flagKey ep = k
  · obtain ⟨written, rfl⟩ := isFlag
    have joins := mergeFlag_joins sourceTyped typed base written
    have flags : (fun ep => decide (ep = written) && src.latched written) =
        fun ep => decide (ep = written) && src.latched ep := by
      funext ep
      by_cases eq : ep = written <;> simp [eq]
    simpa only [flagKey_inj, flags] using joins
  -- No key of the switch: whatever is stored there is not read.
  have others : ∀ other, other ≠ k → (tgt.mergeFrom src [k]).store.lookup other = tgt.store.lookup other := by
    intro other ne
    simp only [mergeFrom, mergeEntry, List.foldl_cons]
    split
    · rfl
    · exact lookup_update_ne _ _ ne
  have unflagged : ∀ ep, tgt.flagKey ep ≠ k := fun ep eq => isFlag ⟨ep, eq⟩
  simp only [unflagged]
  exact .of_unread_write typed rfl (others _ isEpoch) fun ep => others _ (unflagged ep)

-- Merging the same register twice adds nothing, so a key may be listed twice.
theorem mergeFrom_joins (sourceTyped : src.WellTyped) (typed : tgt.WellTyped)
    (base : src.baseKey = tgt.baseKey) (keys : List String) :
    Joins tgt (tgt.mergeFrom src keys) (if tgt.epochKey ∈ keys then src.epochRegister else none)
      fun ep => decide (tgt.flagKey ep ∈ keys) && src.latched ep := by
  induction keys generalizing tgt with
  | nil =>
    exact .of_unread_write typed rfl rfl fun _ => rfl
  | cons k rest ih =>
    have first := mergeOne_joins sourceTyped typed base k
    have later := ih first.typed (base.trans first.base.symm)
    refine ⟨later.typed, first.base, ?_, fun ep => ?_⟩
    · refine later.epochRegister.trans ?_
      rw [first.epochRegister, epochKey_congr first.base]
      by_cases there : tgt.epochKey ∈ rest
      · rw [if_pos there, if_pos (List.mem_cons_of_mem k there)]
        by_cases here : tgt.epochKey = k
        · rw [if_pos here, merge_again]
        · rw [if_neg here, merge_none_right]
      · simp only [List.mem_cons, there, or_false, if_false, merge_none_right]
    · refine (later.latched ep).trans ?_
      rw [first.latched, flagKey_congr first.base]
      simp only [List.mem_cons, Bool.decide_or, Bool.and_or_distrib_right, Bool.or_assoc]

end Merge

theorem Joins.adopts {pre post : KillSwitch} {reg : Option (LwwRegister Nat)} {flags : Nat → Bool}
    (joins : Joins pre post reg flags) {h : LwwRegister Nat}
    (found : pre.epochRegister = some h) :
    post.epochRegister = some h ∨
      ∃ written ∈ reg, written.Later h ∧ post.epochRegister = some written := by
  have read := joins.epochRegister
  rw [found] at read
  cases reg with
  | none => exact .inl (read.trans (merge_none_right ..))
  | some written =>
    rw [merge_some_some, LwwRegister.merge_eq] at read
    split at read
    next later => exact .inr ⟨written, rfl, later, read⟩
    · exact .inl read

end KillSwitch

/-- The later of two registers has no smaller epoch. -/
def Agrees (first second : LwwRegister Nat) : Prop :=
  (first.Later second → second.value ≤ first.value) ∧ (second.Later first → first.value ≤ second.value)
deriving Decidable

theorem Agrees.symm {first second : LwwRegister Nat} (agrees : Agrees first second) : Agrees second first :=
  ⟨agrees.2, agrees.1⟩

theorem Agrees.refl (reg : LwwRegister Nat) : Agrees reg reg := ⟨fun _ => le_rfl, fun _ => le_rfl⟩

section Cluster
variable {ι : Type}

structure Coherent (cluster : Cluster ι) : Prop where
  typed : ∀ i, (cluster i).WellTyped
  base : ∀ i j, (cluster i).baseKey = (cluster j).baseKey
  agree : ∀ i j, ∀ first ∈ (cluster i).epochRegister, ∀ second ∈ (cluster j).epochRegister, Agrees first second

/-- A reset writes a register that agrees with all those held. A merge that makes
a latched node adopt a register finds the flag of its epoch on, at the node or
among the merged entries. -/
def Orderly (cluster : Cluster ι) : Action ι → Prop
  | .engage _ _ => True
  | .reset i authz => KillSwitch.authorized authz = .ok () →
      ∀ j, ∀ held ∈ (cluster j).epochRegister, Agrees (cluster i).candidate held
  | .merge source target keys => (cluster target).isEngaged → (cluster target).epochKey ∈ keys →
      ∀ written ∈ (cluster source).epochRegister, ∀ held ∈ (cluster target).epochRegister, written.Later held →
        (cluster target).latched written.value ∨
          (cluster target).flagKey written.value ∈ keys ∧ (cluster source).latched written.value

instance [Fintype ι] (cluster : Cluster ι) (action : Action ι) : Decidable (Orderly cluster action) := by
  cases action <;> unfold Orderly <;> infer_instance

theorem start_coherent (baseKey : String) (ns : ι → String) : Coherent (start baseKey ns) where
  typed i := KillSwitch.build_wellTyped baseKey (ns i)
  base _ _ := rfl
  agree i j first h second other := by
    rw [start, KillSwitch.build_epochRegister] at h other
    cases h
    cases other
    exact ⟨fun _ => le_rfl, fun _ => le_rfl⟩

variable {cluster next : Cluster ι}

theorem Coherent.merge_epoch_le (coh : Coherent cluster) (src tgt : ι) (keys : List String) :
    (cluster tgt).epoch ≤ ((cluster tgt).mergeFrom (cluster src) keys).epoch := by
  obtain ⟨h, found⟩ := (coh.typed tgt).epochRegister
  have joins := KillSwitch.mergeFrom_joins (coh.typed src) (coh.typed tgt)
    (coh.base src tgt) keys
  rcases joins.adopts found with kept | ⟨written, joined, later, adopted⟩
  · rw [KillSwitch.epoch_of_register kept, KillSwitch.epoch_of_register found]
  · rw [KillSwitch.epoch_of_register adopted, KillSwitch.epoch_of_register found]
    split at joined
    · exact (coh.agree src tgt written joined h found).1 later
    · cases joined

variable [DecidableEq ι]

/-- What an orderly step does: one node joins a register that agrees with all
those held, and stays latched unless the step is a reset. -/
structure Progress (cluster next : Cluster ι) (action : Action ι) (node : ι)
    (register : Option (LwwRegister Nat)) (flags : Nat → Bool) : Prop where
  joins : (cluster node).Joins (next node) register flags
  others : ∀ i, i ≠ node → next i = cluster i
  agrees : ∀ written ∈ register, ∀ j, ∀ held ∈ (cluster j).epochRegister, Agrees written held
  flagged : action.isReset = false → (cluster node).isEngaged → ∀ written ∈ register,
    ∀ held ∈ (cluster node).epochRegister, written.Later held →
      (cluster node).latched written.value ∨ flags written.value

variable {action : Action ι}

theorem step_progress (coh : Coherent cluster) (ord : Orderly cluster action)
    (taken : step cluster action = some next) :
    ∃ n reg flags, Progress cluster next action n reg flags := by
  have others : ∀ (n i : ι) (post : KillSwitch), i ≠ n → Function.update cluster n post i = cluster i :=
    fun n i post ne => update_of_ne ne post cluster
  cases action with
  | engage i reason =>
    cases taken
    have joins := KillSwitch.engage_joins (coh.typed i) reason
    exact ⟨i, none, _, by rwa [update_self], fun j => others i j _, by simp, by simp⟩
  | reset i authz =>
    cases taken
    cases valid : KillSwitch.authorized authz with
    -- A refused reset leaves the node as it was.
    | error e =>
      refine ⟨i, none, fun _ => false, ?_, fun j => others i j _, by simp, by simp⟩
      rw [update_self, KillSwitch.reset_rejected valid]
      exact .of_unread_write (coh.typed i) rfl rfl fun _ => rfl
    | ok granted =>
      refine ⟨i, some (cluster i).candidate, fun _ => false, ?_, fun j => others i j _, ?_, by simp [Action.isReset]⟩
      · rw [update_self]
        exact KillSwitch.reset_joins (coh.typed i) valid
      · rintro written ⟨⟩ j h found
        exact ord valid j h found
  | merge src tgt keys =>
    cases taken
    have joins := KillSwitch.mergeFrom_joins (coh.typed src) (coh.typed tgt)
      (coh.base src tgt) keys
    -- A merged register was held by the source, so it agrees with all others already.
    refine ⟨tgt, _, _, by rwa [update_self], fun j => others tgt j _, ?_, ?_⟩
    · intro written joined j h found
      split at joined
      · exact coh.agree src j written joined h found
      · cases joined
    · intro _ engaged written joined h found later
      split at joined
      next listed => simpa using ord engaged listed written joined h found later
      · cases joined

theorem Coherent.step (coh : Coherent cluster) (ord : Orderly cluster action)
    (taken : step cluster action = some next) : Coherent next := by
  obtain ⟨n, reg, flags, prog⟩ := step_progress coh ord taken
  have bases : ∀ i, (next i).baseKey = (cluster i).baseKey := by
    intro i
    by_cases here : i = n
    · exact here ▸ prog.joins.base
    · rw [prog.others i here]
  -- After the step every register was held before it or is the joined one.
  have registers : ∀ i, ∀ written ∈ (next i).epochRegister,
      (∃ j, written ∈ (cluster j).epochRegister) ∨ written ∈ reg := by
    intro i written found
    by_cases here : i = n
    · subst here
      obtain ⟨h, pre⟩ := (coh.typed i).epochRegister
      rcases prog.joins.adopts pre with kept | ⟨joined, mem, _, read⟩
      · exact .inl ⟨i, by rwa [pre, ← kept]⟩
      · cases read.symm.trans found
        exact .inr mem
    · exact .inl ⟨i, by rwa [prog.others i here] at found⟩
  refine ⟨fun i => ?_, fun i j => ?_, fun i j first h second other => ?_⟩
  · by_cases here : i = n
    · exact here ▸ prog.joins.typed
    · exact prog.others i here ▸ coh.typed i
  · rw [bases, bases, coh.base i j]
  · rcases registers i first h with ⟨k, pre⟩ | joined <;>
      rcases registers j second other with ⟨site, before'⟩ | joined'
    · exact coh.agree k site first pre second before'
    · exact (prog.agrees second joined' k first pre).symm
    · exact prog.agrees first joined site second before'
    · cases mem_unique joined joined'
      exact .refl first

theorem Progress.engaged {n : ι} {reg : Option (LwwRegister Nat)} {flags : Nat → Bool}
    (coh : Coherent cluster) (prog : Progress cluster next action n reg flags)
    (noReset : action.isReset = false) {i : ι} (engaged : (cluster i).isEngaged) : (next i).isEngaged := by
  by_cases here : i = n
  · subst here
    obtain ⟨h, found⟩ := (coh.typed i).epochRegister
    have latched : ∀ ep, (next i).latched ep ↔ (cluster i).latched ep ∨ flags ep := by
      intro ep
      rw [prog.joins.latched, Bool.or_eq_true]
    rcases prog.joins.adopts found with kept | ⟨written, joined, later, adopted⟩
    · have eq : (next i).epoch = (cluster i).epoch := by
        rw [KillSwitch.epoch_of_register kept, KillSwitch.epoch_of_register found]
      exact (latched _).mpr (.inl (eq ▸ engaged))
    · refine (latched _).mpr ?_
      rw [KillSwitch.epoch_of_register adopted]
      exact prog.flagged noReset engaged written joined h found later
  · exact prog.others i here ▸ engaged

theorem orderly_latch_holds {baseKey : String} {names : ι → String} {before after : List (Action ι)}
    {middle final : Cluster ι} (reached : Run step Orderly (start baseKey names) before middle)
    (run : Run step Orderly middle after final) (noReset : ∀ action ∈ after, action.isReset = false) :
    (∀ i, (middle i).isEngaged → (final i).isEngaged) ∧
      ∀ source target keys, (final target).epoch ≤ ((final target).mergeFrom (final source) keys).epoch := by
  have preserve : ∀ (st : Cluster ι) action next, Coherent st → Orderly st action →
      step st action = some next → Coherent next := fun _ _ _ coherent => coherent.step
  have coherent := reached.invariant Coherent preserve (start_coherent baseKey names)
  constructor
  · refine run.relation (fun st last => ∀ i, (st i).isEngaged → (last i).isEngaged)
      noReset preserve (fun _ _ => id) ?_ coherent
    intro st action next last held orderly kept taken tail i engaged
    obtain ⟨node, reg, flags, progress⟩ := step_progress held orderly taken
    exact tail i (progress.engaged held kept engaged)
  · exact (run.invariant Coherent preserve coherent).merge_epoch_le

end Cluster

def names (node : Bool) : String := if node then "A" else "B"

/-- B takes over the newer epoch of A with its flag, and stays latched. -/
theorem orderly_latch_holds_two_nodes :
    ∃ middle final : Cluster Bool,
      Run step Orderly (start "ks" names)
        [.engage true .quorumLost, .reset true ⟨"amy", "bob"⟩, .engage true .quorumLost,
          .merge true false ["ks::flag::0", "ks::flag::1", "ks::epoch"]] middle ∧
      Run step Orderly middle [.merge false true ["ks::epoch"], .merge true false ["ks::epoch"]] final ∧
      (middle false).isEngaged ∧ (middle false).epoch = 1 ∧ (final false).isEngaged := by
  have reached : Run step Orderly (start "ks" names)
      [.engage true .quorumLost, .reset true ⟨"amy", "bob"⟩, .engage true .quorumLost,
        .merge true false ["ks::flag::0", "ks::flag::1", "ks::epoch"]] _ := Run.of_foldlM rfl
  have stays {final} (run : Run step Orderly _ [.merge false true ["ks::epoch"], .merge true false ["ks::epoch"]] final) :=
    (orderly_latch_holds reached run (by decide)).1 false (by decide)
  exact ⟨_, _, reached, Run.of_foldlM rfl, by decide, by decide, stays (Run.of_foldlM rfl)⟩

/-- Without the guard, A at epoch 2 adopts the register of B, stamped later by B's
own counter, goes back to epoch 1 and reports itself released. -/
theorem merge_releases_latch :
    ∃ middle final : Cluster Bool,
      Run step (fun _ _ => True) (start "ks" names)
        [.reset true ⟨"amy", "bob"⟩, .reset true ⟨"amy", "bob"⟩, .engage true .quorumLost,
          .engage false .quorumLost, .engage false .quorumLost, .reset false ⟨"amy", "bob"⟩] middle ∧
      Run step (fun _ _ => True) middle [.merge false true ["ks::epoch", "ks::flag::0"]] final ∧
      (middle true).isEngaged = true ∧ (final true).isEngaged = false ∧
      (middle true).epoch = 2 ∧ (final true).epoch = 1 := by
  refine ⟨_, _, Run.of_foldlM rfl, Run.of_foldlM rfl, ?_, ?_, ?_, ?_⟩ <;> decide

end Atomr.ClusterTools
