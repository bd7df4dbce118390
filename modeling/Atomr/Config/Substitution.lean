import Atomr.Config.Cursor
import Atomr.Library.Outcome

/-! What the resolution of substitutions leaves behind.

Every string with a prefix is replaced by the value that the tree had at its path before
anything was replaced. So a value that is reached through a substitution is as it was
written, with the substitutions in it.
-/

namespace Atomr.Config

open Library Text List Option

variable {F : Type}

/-- A string that the parser writes for a substitution. -/
def Placeholder (s : String) : Prop := ∃ path, s = subPrefix ++ path ∨ s = subOptPrefix ++ path

inductive Occurs (s : String) : ConfigValue F → Prop where
  | here : Occurs s (.string s)
  | item {items : List (ConfigValue F)} {item : ConfigValue F} : item ∈ items → Occurs s item → Occurs s (.array items)
  | entry {entries : Entries F} {entry : String × ConfigValue F} : entry ∈ entries → Occurs s entry.2 →
      Occurs s (.object entries)

def Clean (value : ConfigValue F) : Prop := ∀ s, Occurs s value → ¬ Placeholder s

/-- A required substitution has the value of its path in the same tree, and no placeholder is left. -/
structure Substituted (written resolved : ConfigValue F) : Prop where
  values : ∀ place path, written.find place = some (.string (subPrefix ++ path)) →
    ∃ value, resolved.find place = some value ∧ lookupPath resolved path = some value
  clean : Clean resolved

/-- The substitutions of a document are of values without substitutions, and the environment has no
variable that looks like one. -/
structure Direct (env : String → Option String) (written : ConfigValue F) : Prop where
  required : ∀ path, Occurs (subPrefix ++ path) written → ∀ value, lookupPath written path = some value → Clean value
  optional : ∀ name, Occurs (subOptPrefix ++ name) written → ∀ text, env name = some text → ¬ Placeholder text

mutual

def stringsOf : ConfigValue F → List String
  | .string s => [s]
  | .array items => stringsOfItems items
  | .object entries => stringsOfEntries entries
  | .null => []
  | .bool _ => []
  | .int _ => []
  | .float _ => []

def stringsOfItems : List (ConfigValue F) → List String
  | [] => []
  | item :: rest => stringsOf item ++ stringsOfItems rest

def stringsOfEntries : Entries F → List String
  | [] => []
  | (_, v) :: rest => stringsOf v ++ stringsOfEntries rest

end

mutual

theorem mem_stringsOf {s : String} : (value : ConfigValue F) → (s ∈ stringsOf value ↔ Occurs s value)
  | .string t => by
    rw [stringsOf, mem_singleton]
    constructor
    · rintro rfl
      exact .here
    · rintro ⟨⟩
      rfl
  | .array items => by
    rw [stringsOf, mem_stringsOfItems items]
    constructor
    · rintro ⟨item, member, occurs⟩
      exact .item member occurs
    · rintro (_ | ⟨member, occurs⟩)
      exact ⟨_, member, occurs⟩
  | .object entries => by
    rw [stringsOf, mem_stringsOfEntries entries]
    constructor
    · rintro ⟨entry, member, occurs⟩
      exact .entry member occurs
    · rintro (_ | _ | ⟨member, occurs⟩)
      exact ⟨_, member, occurs⟩
  | .null => ⟨fun member => absurd member not_mem_nil, fun occurs => by cases occurs⟩
  | .bool _ => ⟨fun member => absurd member not_mem_nil, fun occurs => by cases occurs⟩
  | .int _ => ⟨fun member => absurd member not_mem_nil, fun occurs => by cases occurs⟩
  | .float _ => ⟨fun member => absurd member not_mem_nil, fun occurs => by cases occurs⟩

theorem mem_stringsOfItems {s : String} : (items : List (ConfigValue F)) →
    (s ∈ stringsOfItems items ↔ ∃ item ∈ items, Occurs s item)
  | [] => by simp [stringsOfItems]
  | item :: rest => by
    rw [stringsOfItems, mem_append, mem_stringsOf item, mem_stringsOfItems rest, exists_mem_cons_iff]

theorem mem_stringsOfEntries {s : String} : (entries : Entries F) →
    (s ∈ stringsOfEntries entries ↔ ∃ entry ∈ entries, Occurs s entry.2)
  | [] => by simp [stringsOfEntries]
  | (k, v) :: rest => by
    rw [stringsOfEntries, mem_append, mem_stringsOf v, mem_stringsOfEntries rest, exists_mem_cons_iff]

end

instance (s : String) : Decidable (Placeholder s) :=
  decidable_of_iff ((stripPrefix subPrefix s).isSome ∨ (stripPrefix subOptPrefix s).isSome) <| by
    simp only [Option.isSome_iff_exists, stripPrefix_eq_some, Placeholder, exists_or]

instance (value : ConfigValue F) : Decidable (Clean value) :=
  decidable_of_iff (∀ s ∈ stringsOf value, ¬ Placeholder s) <| by
    simp only [mem_stringsOf, Clean]

instance (env : String → Option String) (written : ConfigValue F) : Decidable (Direct env written) :=
  decidable_of_iff
    ((∀ s ∈ stringsOf written, ∀ path ∈ stripPrefix subPrefix s, ∀ value ∈ lookupPath written path, Clean value) ∧
      ∀ s ∈ stringsOf written, ∀ name ∈ stripPrefix subOptPrefix s, ∀ text ∈ env name, ¬ Placeholder text) <| by
    simp only [mem_stringsOf, Option.mem_def, stripPrefix_eq_some]
    constructor
    · rintro ⟨required, optional⟩
      exact ⟨fun path occurs => required _ occurs path rfl, fun name occurs => optional _ occurs name rfl⟩
    · rintro ⟨required, optional⟩
      refine ⟨fun s occurs path same => ?_, fun s occurs name same => ?_⟩
      · exact required path (same ▸ occurs)
      · exact optional name (same ▸ occurs)

section Strings

variable (env : String → Option String) (root : ConfigValue F)

theorem resolveString_required (p : String) :
    resolveString env root (subPrefix ++ p) =
      (lookupPath root p).elim (.error (.missingSubstitution p)) .ok := by
  rw [resolveString, stripPrefix_eq_some.mpr rfl]

theorem resolveString_optional (nm : String) :
    resolveString env root (subOptPrefix ++ nm) = .ok ((env nm).elim .null .string) := by
  have other : stripPrefix subPrefix (subOptPrefix ++ nm) = none := by
    rw [eq_none_iff_forall_ne_some]
    intro rest found
    have eq := congrArg String.toList (stripPrefix_eq_some.mp found)
    simp [subPrefix, subOptPrefix] at eq
  rw [resolveString, other, stripPrefix_eq_some.mpr rfl]

theorem resolveString_plain {s : String} (plain : ¬ Placeholder s) : resolveString env root s = .ok (.string s) := by
  have required : stripPrefix subPrefix s = none :=
    eq_none_iff_forall_ne_some.mpr fun rest found => plain ⟨rest, .inl (stripPrefix_eq_some.mp found)⟩
  have optional : stripPrefix subOptPrefix s = none :=
    eq_none_iff_forall_ne_some.mpr fun rest found => plain ⟨rest, .inr (stripPrefix_eq_some.mp found)⟩
  rw [resolveString, required, optional]

inductive Replaced : String → ConfigValue F → Prop where
  | required {path : String} {value : ConfigValue F} : lookupPath root path = some value →
      Replaced (subPrefix ++ path) value
  | fromEnv {name text : String} : env name = some text → Replaced (subOptPrefix ++ name) (.string text)
  | unset {name : String} : env name = none → Replaced (subOptPrefix ++ name) .null
  | plain {s : String} : ¬ Placeholder s → Replaced s (.string s)

theorem resolveString_replaced {s : String} {v : ConfigValue F} (done : resolveString env root s = .ok v) :
    Replaced env root s v := by
  by_cases ph : Placeholder s
  · obtain ⟨p, rfl | rfl⟩ := ph
    · rw [resolveString_required] at done
      cases found : lookupPath root p with
      | none =>
        rw [found] at done
        cases done
      | some tgt =>
        rw [found] at done
        cases done
        exact .required found
    · rw [resolveString_optional] at done
      cases found : env p with
      | none =>
        rw [found] at done
        cases done
        exact .unset found
      | some tx =>
        rw [found] at done
        cases done
        exact .fromEnv found
  · rw [resolveString_plain env root ph] at done
    cases done
    exact .plain ph

end Strings

theorem getElem?_of_forall₂ {α β : Type} {R : α → β → Prop} {xs : List α} {others : List β}
    (related : List.Forall₂ R xs others) {i : Nat} {x : α} (found : xs[i]? = some x) :
    ∃ other, others[i]? = some other ∧ R x other := by
  induction related generalizing i with
  | nil => cases found
  | @cons first other rest others p _ ih =>
    cases i with
    | zero =>
      cases found
      exact ⟨other, rfl, p⟩
    | succ i => exact ih found

theorem mem_of_forall₂ {α β : Type} {R : α → β → Prop} {xs : List α} {others : List β}
    (related : List.Forall₂ R xs others) {x : α} (mem : x ∈ xs) : ∃ other ∈ others, R x other := by
  obtain ⟨i, found⟩ := mem_iff_getElem?.mp mem
  obtain ⟨other, foundOther, p⟩ := getElem?_of_forall₂ related found
  exact ⟨other, mem_iff_getElem?.mpr ⟨i, foundOther⟩, p⟩

section Trees

variable {env : String → Option String} {root : ConfigValue F}

theorem resolveItems_ok {xs res : List (ConfigValue F)} (done : resolveItems env root xs = .ok res) :
    List.Forall₂ (fun pre post => resolveIn env root pre = .ok post) xs res := by
  induction xs generalizing res with
  | nil =>
    cases done
    exact .nil
  | cons x rest ih =>
    obtain ⟨v, first, done⟩ := Outcome.bind_eq_ok.mp done
    obtain ⟨vals, later, done⟩ := Outcome.bind_eq_ok.mp done
    cases done
    exact .cons first (ih later)

theorem resolveEntries_ok {es res : Entries F} (done : resolveEntries env root es = .ok res) :
    List.Forall₂ (fun pre post => post.1 = pre.1 ∧ resolveIn env root pre.2 = .ok post.2) es res := by
  induction es generalizing res with
  | nil =>
    cases done
    exact .nil
  | cons e rest ih =>
    obtain ⟨v, first, done⟩ := Outcome.bind_eq_ok.mp done
    obtain ⟨vals, later, done⟩ := Outcome.bind_eq_ok.mp done
    cases done
    exact .cons ⟨rfl, first⟩ (ih later)

inductive Becomes (env : String → Option String) (root : ConfigValue F) : ConfigValue F → ConfigValue F → Prop where
  | null : Becomes env root .null .null
  | bool (value : Bool) : Becomes env root (.bool value) (.bool value)
  | int (value : Int) : Becomes env root (.int value) (.int value)
  | float (value : F) : Becomes env root (.float value) (.float value)
  | string {s : String} {resolved : ConfigValue F} : resolveString env root s = .ok resolved →
      Becomes env root (.string s) resolved
  | array {items resolved : List (ConfigValue F)} :
      List.Forall₂ (fun before after => resolveIn env root before = .ok after) items resolved →
      Becomes env root (.array items) (.array resolved)
  | object {entries resolved : Entries F} :
      List.Forall₂ (fun before after => after.1 = before.1 ∧ resolveIn env root before.2 = .ok after.2) entries resolved →
      Becomes env root (.object entries) (.object resolved)

theorem resolveIn_becomes {v res : ConfigValue F} (done : resolveIn env root v = .ok res) :
    Becomes env root v res := by
  cases v with
  | string s => exact .string done
  | array xs =>
    obtain ⟨post, hi, rfl⟩ := Outcome.map_eq_ok.mp done
    exact .array (resolveItems_ok hi)
  | object es =>
    obtain ⟨post, hi, rfl⟩ := Outcome.map_eq_ok.mp done
    exact .object (resolveEntries_ok hi)
  | null =>
    cases done
    exact .null
  | bool v =>
    cases done
    exact .bool v
  | int v =>
    cases done
    exact .int v
  | float v =>
    cases done
    exact .float v

/-- What is inside a value is resolved where it is. A string has nothing inside. -/
theorem resolveIn_child {v res inner : ConfigValue F} (done : resolveIn env root v = .ok res)
    {place : Place} (found : v.child place = some inner) :
    ∃ post, res.child place = some post ∧ resolveIn env root inner = .ok post := by
  rcases ConfigValue.child_eq_some found with ⟨xs, i, rfl, rfl, h⟩ | ⟨es, k, rfl, rfl, h⟩
  · cases resolveIn_becomes done with
    | array related => exact getElem?_of_forall₂ related h
  · cases resolveIn_becomes done with
    | object related =>
      exact KeyList.get_of_forall₂ (R := fun pre post => resolveIn env root pre = .ok post) related h

theorem resolveIn_find {v res inner : ConfigValue F} (done : resolveIn env root v = .ok res)
    {places : List Place} (found : v.find places = some inner) :
    ∃ post, res.find places = some post ∧ resolveIn env root inner = .ok post := by
  induction places generalizing v res with
  | nil =>
    cases found
    exact ⟨res, rfl, done⟩
  | cons place rest ih =>
    obtain ⟨next, step, found⟩ := bind_eq_some_iff.mp found
    obtain ⟨post, stepAfter, doneNext⟩ := resolveIn_child done step
    obtain ⟨last, foundLast, doneLast⟩ := ih doneNext found
    exact ⟨last, bind_eq_some_iff.mpr ⟨post, stepAfter, foundLast⟩, doneLast⟩

/-- A string of the written tree is replaced, with all that its replacement contains. -/
theorem Occurs.resolved {s : String} {v : ConfigValue F} (occurs : Occurs s v) {res : ConfigValue F}
    (done : resolveIn env root v = .ok res) :
    ∃ leaf, resolveString env root s = .ok leaf ∧ ∀ t, Occurs t leaf → Occurs t res := by
  induction occurs generalizing res with
  | here => exact ⟨res, done, fun _ hi => hi⟩
  | item mem _ ih =>
    cases resolveIn_becomes done with
    | array related =>
      obtain ⟨next, memberAfter, doneNext⟩ := mem_of_forall₂ related mem
      obtain ⟨leaf, rep, hi⟩ := ih doneNext
      exact ⟨leaf, rep, fun t occurs => .item memberAfter (hi t occurs)⟩
  | entry mem _ ih =>
    cases resolveIn_becomes done with
    | object related =>
      obtain ⟨next, memberAfter, _, doneNext⟩ := mem_of_forall₂ related mem
      obtain ⟨leaf, rep, hi⟩ := ih doneNext
      exact ⟨leaf, rep, fun t occurs => .entry memberAfter (hi t occurs)⟩

/-- A string of the resolved tree comes from the replacement of a string of the written one. -/
theorem Occurs.written {t : String} {res : ConfigValue F} (occurs : Occurs t res) {v : ConfigValue F}
    (done : resolveIn env root v = .ok res) :
    ∃ s leaf, Occurs s v ∧ resolveString env root s = .ok leaf ∧ Occurs t leaf := by
  induction occurs generalizing v with
  | here =>
    cases resolveIn_becomes done with
    | string rep => exact ⟨_, _, .here, rep, .here⟩
  | item mem occurs ih =>
    cases resolveIn_becomes done with
    | string rep => exact ⟨_, _, .here, rep, .item mem occurs⟩
    | array related =>
      obtain ⟨next, memberBefore, doneNext⟩ := mem_of_forall₂ related.flip mem
      obtain ⟨s, leaf, hi, rep, occurs⟩ := ih doneNext
      exact ⟨s, leaf, .item memberBefore hi, rep, occurs⟩
  | entry mem occurs ih =>
    cases resolveIn_becomes done with
    | string rep => exact ⟨_, _, .here, rep, .entry mem occurs⟩
    | object related =>
      obtain ⟨next, memberBefore, _, doneNext⟩ := mem_of_forall₂ related.flip mem
      obtain ⟨s, leaf, hi, rep, occurs⟩ := ih doneNext
      exact ⟨s, leaf, .entry memberBefore hi, rep, occurs⟩

mutual

/-- A value without placeholders is left as it is. -/
theorem resolveIn_clean : (value : ConfigValue F) → Clean value → resolveIn env root value = .ok value
  | .string s, clean => resolveString_plain env root (clean s .here)
  | .array items, clean => by
    rw [resolveIn, resolveItems_clean items fun item member s occurs => clean s (.item member occurs)]
    rfl
  | .object entries, clean => by
    rw [resolveIn, resolveEntries_clean entries fun entry member s occurs => clean s (.entry member occurs)]
    rfl
  | .null, _ => rfl
  | .bool _, _ => rfl
  | .int _, _ => rfl
  | .float _, _ => rfl

theorem resolveItems_clean : (items : List (ConfigValue F)) → (∀ item ∈ items, Clean item) →
    resolveItems env root items = .ok items
  | [], _ => rfl
  | item :: rest, clean => by
    rw [resolveItems, resolveIn_clean item (clean item mem_cons_self),
      resolveItems_clean rest fun later member => clean later (mem_cons_of_mem _ member)]
    rfl

theorem resolveEntries_clean : (entries : Entries F) → (∀ entry ∈ entries, Clean entry.2) →
    resolveEntries env root entries = .ok entries
  | [], _ => rfl
  | (k, v) :: rest, clean => by
    rw [resolveEntries, resolveIn_clean v (clean (k, v) mem_cons_self),
      resolveEntries_clean rest fun later member => clean later (mem_cons_of_mem _ member)]
    rfl

end

end Trees

theorem lookupPath_eq_find (r : ConfigValue F) (p : String) :
    lookupPath r p = r.find ((segments p).map .key) := by
  unfold lookupPath
  induction segments p generalizing r with
  | nil => rfl
  | cons seg rest ih =>
    exact congrArg _ (funext ih)

theorem Occurs.of_find {s : String} {v inner : ConfigValue F} {places : List Place}
    (found : v.find places = some inner) (occurs : Occurs s inner) : Occurs s v := by
  induction places generalizing v with
  | nil =>
    cases found
    exact occurs
  | cons place rest ih =>
    obtain ⟨next, step, found⟩ := bind_eq_some_iff.mp found
    have hi := ih found
    rcases ConfigValue.child_eq_some step with ⟨xs, i, rfl, rfl, h⟩ | ⟨es, k, rfl, rfl, h⟩
    · exact .item (mem_of_getElem? h) hi
    · exact .entry (KeyList.mem_of_get h) hi

section Documents

variable {env : String → Option String} {written res : ConfigValue F}
  (done : resolveSubstitutions env written = .ok res)

include done

theorem required_replaced {p : String} (occurs : Occurs (subPrefix ++ p) written) :
    ∃ v, lookupPath written p = some v ∧ ∀ s, Occurs s v → Occurs s res := by
  obtain ⟨leaf, rep, hi⟩ := occurs.resolved done
  rw [resolveString_required] at rep
  cases v : lookupPath written p with
  | none =>
    rw [v] at rep
    cases rep
  | some found =>
    rw [v] at rep
    cases rep
    exact ⟨leaf, rfl, hi⟩

theorem Substituted.direct (subst' : Substituted written res) : Direct env written where
  required p occurs v found := by
    obtain ⟨eq, foundSame, hi⟩ := required_replaced done occurs
    rw [found] at foundSame
    cases foundSame
    exact fun s occurs => subst'.clean s (hi s occurs)
  optional nm occurs tx found := by
    obtain ⟨leaf, rep, hi⟩ := occurs.resolved done
    rw [resolveString_optional, found] at rep
    cases rep
    exact subst'.clean tx (hi tx .here)

theorem Direct.clean (direct : Direct env written) : Clean res := by
  intro t occurs
  obtain ⟨s, leaf, hi, rep, occurs⟩ := occurs.written done
  cases resolveString_replaced env written rep with
  | required found => exact direct.required _ hi leaf found t occurs
  | fromEnv found =>
    cases occurs
    exact direct.optional _ hi t found
  | unset found => cases occurs
  | plain ph =>
    cases occurs
    exact ph

/-- Where no placeholder is left, a value reached through a substitution is one of the resolved tree. -/
theorem Clean.substituted (clean : Clean res) : Substituted written res where
  values place p found := by
    obtain ⟨post, foundAfter, rep⟩ := resolveIn_find done found
    obtain ⟨v, tgt, hi⟩ := required_replaced done (Occurs.of_find found .here)
    have eq : post = v := by
      rw [resolveIn, resolveString_required, tgt] at rep
      exact (Except.ok.inj rep).symm
    rw [lookupPath_eq_find] at tgt
    obtain ⟨last, foundLast, doneLast⟩ := resolveIn_find done tgt
    rw [resolveIn_clean v fun s occurs => clean s (hi s occurs)] at doneLast
    refine ⟨v, eq ▸ foundAfter, ?_⟩
    rw [lookupPath_eq_find, foundLast, Except.ok.inj doneLast]
  clean := clean

end Documents

/-- The substitutions of an accepted document hold in the returned tree, and leave nothing behind,
exactly when none of them is of a value that has substitutions itself. -/
theorem substitutions_hold_iff (host : Host F) {text : String} {written resolved : ConfigValue F}
    (read : document host text = .ok written) (accepted : parse host text = .ok resolved) :
    Substituted written resolved ↔ Direct host.env written := by
  have done : resolveSubstitutions host.env written = .ok resolved := by
    rw [parse_eq_resolved] at accepted
    obtain ⟨root, readRoot, ended⟩ := Outcome.bind_eq_ok.mp accepted
    cases read.symm.trans readRoot
    cases res : resolveSubstitutions host.env written with
    | error error =>
      rw [res] at ended
      cases ended
    | ok val =>
      rw [res] at ended
      cases ended
      rfl
  exact ⟨fun substituted => substituted.direct done, fun direct => (direct.clean done).substituted done⟩

def bareHost : Host Empty := ⟨⟨fun _ => none, fun _ => none⟩, fun path => .error (.io path "not found")⟩

def urlDocument : String := "host = local\nurl = $\x7bhost\x7d"

def urlWritten : ConfigValue Empty := .object [("host", .string "local"), ("url", .string "__atomr_sub::host")]

theorem substitutions_hold_url :
    ∃ resolved, document bareHost urlDocument = .ok urlWritten ∧ parse bareHost urlDocument = .ok resolved ∧
      Substituted urlWritten resolved := by
  have read : document bareHost urlDocument = .ok urlWritten := by decide +kernel
  have accepted : parse bareHost urlDocument = .ok (.object [("host", .string "local"), ("url", .string "local")]) := by
    decide +kernel
  exact ⟨_, read, accepted, (substitutions_hold_iff bareHost read accepted).mpr (by decide +kernel)⟩

def chainDocument : String := "a = $\x7bb\x7d\nb = $\x7bc\x7d\nc = 1"

def chainWritten : ConfigValue Empty :=
  .object [("a", .string "__atomr_sub::b"), ("b", .string "__atomr_sub::c"), ("c", .int 1)]

def chainResolved : ConfigValue Empty := .object [("a", .string "__atomr_sub::c"), ("b", .int 1), ("c", .int 1)]

/-- The first substitution of the chain is answered with the placeholder of the second. -/
theorem chained_substitution_left :
    document bareHost chainDocument = .ok chainWritten ∧ parse bareHost chainDocument = .ok chainResolved ∧
      chainResolved.find [.key "a"] = some (.string "__atomr_sub::c") ∧ lookupPath chainResolved "b" = some (.int 1) ∧
      ¬ Substituted chainWritten chainResolved := by
  refine ⟨by decide +kernel, by decide +kernel, by decide +kernel, by decide +kernel, fun substituted => ?_⟩
  have unclean : ¬ Clean chainResolved := by decide +kernel
  exact unclean substituted.clean

end Atomr.Config
