import Atomr.Config.Cursor

/-! The cursor goes on to the end of the text.

The cursor stays inside the text, and its steps are paid for by the bytes it takes: sixteen for each, and a few
looks of a call that ends without taking anything. Rules for results and errors carry this through the code.
-/

namespace Atomr.Config

open Library Text List

variable {F α β : Type}

namespace Cursor

/-- So many bytes further at least, inside the text, in the steps that the bytes pay for and some extra. -/
abbrev Within (src : List UInt8) (least : Nat) (rate extra : Int) (c c' : Cursor) : Prop :=
  c.pos + least ≤ c'.pos ∧ c'.pos ≤ src.length ∧ (c'.steps : Int) ≤ c.steps + rate * (c'.pos - c.pos) + extra

/-- What is within the second bounds from a later cursor is within the first ones from here. -/
abbrev Covers (c c₁ : Cursor) (least n : Nat) (cost k : Int) : Prop :=
  c.pos + least ≤ c₁.pos + n ∧ (c₁.steps : Int) + k ≤ c.steps + 16 * (c₁.pos - c.pos) + cost

def Gives (step : Step α) (c : Cursor) (good : α → Cursor → Prop) : Prop :=
  ∃ value c', step c = (.ok value, c') ∧ good value c'

/-- A result at the cost, or an error of the program within the limit. There is no other fault. -/
inductive Yields (src : List UInt8) (c : Cursor) (least : Nat) (cost limit : Int) : Except Fault α × Cursor → Prop where
  | ok {value : α} {c' : Cursor} : Within src least 16 cost c c' → Yields src c least cost limit (.ok value, c')
  | failed {error : HoconError} {c' : Cursor} : Within src 0 16 limit c c' →
      Yields src c least cost limit (.error (.failed error), c')

/-- Every result is such, whatever the included files give. -/
def Settles (src : List UInt8) (c : Cursor) (least : Nat) (cost limit : Int)
    (tree : Asking String (ConfigValue F) (Except Fault α × Cursor)) : Prop :=
  tree.All (Yields src c least cost limit)

section Rules

variable {src : List UInt8} {step : Step α} {next : α → Step β} {more : α → Code F β} {c c₁ : Cursor}
  {good : α → Cursor → Prop} {least n : Nat} {cost lim k bound : Int}

theorem Gives.bind {good' : β → Cursor → Prop} (first : Gives step c good)
    (rest : ∀ v c', good v c' → Gives (next v) c' good') : Gives (step >>= next) c good' := by
  obtain ⟨v, c', run, here⟩ := first
  obtain ⟨w, c'', run', there⟩ := rest v c' here
  refine ⟨w, c'', ?_, there⟩
  dsimp only [Bind.bind]
  rw [run]
  exact run'

theorem Gives.imp {good' : α → Cursor → Prop} (gives : Gives step c good) (weaker : ∀ v c', good v c' → good' v c') :
    Gives step c good' := by
  obtain ⟨v, c', run, here⟩ := gives
  exact ⟨v, c', run, weaker v c' here⟩

theorem Gives.then (first : Gives step c₁ good) (rest : ∀ v c', good v c' → Yields src c least cost lim (next v c')) :
    Yields src c least cost lim ((step >>= next) c₁) := by
  obtain ⟨v, c', run, here⟩ := first
  dsimp only [Bind.bind]
  rw [run]
  exact rest v c' here

theorem Gives.code (first : Gives step c₁ good) (rest : ∀ v c', good v c' → Settles src c least cost lim (more v c')) :
    Settles src c least cost lim ((Cursor.code step >>= more) c₁) := by
  obtain ⟨v, c', run, here⟩ := first
  dsimp only [Bind.bind, Cursor.code]
  rw [run]
  exact rest v c' here

theorem Yields.imp {out : Except Fault α × Cursor} (yields : Yields src c₁ n k bound out)
    (res : Covers c c₁ least n cost k) (err : Covers c c₁ 0 0 lim bound) : Yields src c least cost lim out := by
  cases yields with
  | ok here => exact .ok (by omega)
  | failed here => exact .failed (by omega)

theorem Yields.bind (first : Yields src c₁ n k bound (step c₁)) (err : Covers c c₁ 0 0 lim bound)
    (rest : ∀ v c', Within src n 16 k c₁ c' → Yields src c least cost lim (next v c')) :
    Yields src c least cost lim ((step >>= next) c₁) := by
  dsimp only [Bind.bind]
  generalize step c₁ = out at first
  cases first with
  | ok here => exact rest _ _ here
  | failed here => exact .failed (by omega)

theorem Settles.imp {tree : Asking String (ConfigValue F) (Except Fault α × Cursor)}
    (settles : Settles src c₁ n k bound tree)
    (res : Covers c c₁ least n cost k) (err : Covers c c₁ 0 0 lim bound) : Settles src c least cost lim tree :=
  Asking.All.imp settles fun _ yields => yields.imp res err

theorem Settles.bind {first : Code F α} (settles : Settles src c₁ n k bound (first c₁)) (err : Covers c c₁ 0 0 lim bound)
    (rest : ∀ v c', Within src n 16 k c₁ c' → Settles src c least cost lim (more v c')) :
    Settles src c least cost lim ((first >>= more) c₁) := by
  refine Asking.All.bind settles fun outcome yields => ?_
  cases yields with
  | ok here => exact rest _ _ here
  | failed here => exact .failed (by omega)

end Rules

section Text

variable {src : List UInt8} {c : Cursor}

theorem here_bind {next : Nat → Step α} : (here >>= next) c = next c.pos c := rfl

theorem Gives.here {next : Nat → Step α} {good : α → Cursor → Prop} (gives : Gives (next c.pos) c good) :
    Gives (here >>= next) c good := gives

theorem lt_of_next {b : UInt8} {n : Nat} (next : src[n]? = some b) : n < src.length := (List.getElem?_eq_some_iff.mp next).1

theorem peek_gives : Gives (peek src) c fun next c' =>
    next = src[c.pos]? ∧ (∀ b, next = some b → c.pos < src.length) ∧ c'.pos = c.pos ∧ c'.steps = c.steps + 1 :=
  ⟨_, _, rfl, rfl, fun _ next => lt_of_next next, rfl, rfl⟩

theorem peekAt_gives (off : Nat) : Gives (peekAt src off) c fun _ c' => c'.pos = c.pos ∧ c'.steps = c.steps + 1 :=
  ⟨_, _, rfl, rfl, rfl⟩

theorem followedBy_gives (test : Bool) (b : UInt8) : Gives (followedBy src test b) c fun found c' =>
    c'.pos = c.pos ∧ c'.steps ≤ c.steps + 1 ∧ (found = true → c.pos + 1 < src.length) := by
  cases test with
  | false => exact ⟨_, _, rfl, rfl, Nat.le_succ _, nofun⟩
  | true => exact ⟨_, _, rfl, rfl, le_refl _, fun found => lt_of_next (of_decide_eq_true found)⟩

theorem atEnd_gives : Gives (atEnd src) c fun ended c' =>
    ended = decide (src.length ≤ c.pos) ∧ c'.pos = c.pos ∧ c'.steps = c.steps + 1 := ⟨_, _, rfl, rfl, rfl, rfl⟩

theorem index_gives (hi : c.pos < src.length) : Gives (index src) c fun _ c' =>
    c'.pos = c.pos ∧ c'.steps = c.steps + 1 := by
  refine ⟨src[c.pos], c.tick 1, ?_, rfl, rfl⟩
  rw [index, List.getElem?_eq_getElem hi]

theorem slice_gives {first last : Nat} (ord : first ≤ last) (hi : last ≤ src.length) :
    Gives (slice src first last) c fun bs c' =>
      bs = (src.drop first).take (last - first) ∧ c'.pos = c.pos ∧ c'.steps = c.steps + (last - first) := by
  exact ⟨_, _, if_pos ⟨ord, hi⟩, rfl, rfl, rfl⟩

theorem startsWith_gives (needle : List UInt8) : Gives (startsWith src needle) c fun found c' =>
    c'.pos = c.pos ∧ c'.steps ≤ c.steps + needle.length ∧ (found = true → c.pos + needle.length ≤ src.length) := by
  refine .here ?_
  split
  next fits => exact (slice_gives (Nat.le_add_right _ _) fits).bind fun _ c' cut => ⟨_, _, rfl, by omega⟩
  · exact ⟨_, _, rfl, rfl, Nat.le_add_right _ _, nofun⟩

theorem startsWithKeyword_gives (kw : String) : Gives (startsWithKeyword src kw) c fun found c' =>
    c'.pos = c.pos ∧ c'.steps ≤ c.steps + (utf8 kw).length + 1 ∧
      (found = true → c.pos + (utf8 kw).length ≤ src.length) := by
  refine (startsWith_gives _).bind fun found c' ⟨pos, steps, fits⟩ => ?_
  cases found with
  | false => exact ⟨_, _, rfl, pos, by omega, nofun⟩
  | true =>
    refine (peekAt_gives _).bind fun next c'' looked => ?_
    cases next <;> exact ⟨_, _, rfl, by omega, by omega, fun _ => fits rfl⟩

theorem pass_gives (b : UInt8) : Gives (pass b) c fun _ c' => c'.pos = c.pos + 1 ∧ c'.steps = c.steps := by
  refine ⟨_, _, rfl, ?_⟩
  split <;> exact ⟨rfl, rfl⟩

theorem advance_gives (n : Nat) (room : c.pos + n ≤ src.length) : Gives (advance src n) c fun _ c' =>
    c'.pos = c.pos + n ∧ c'.steps = c.steps + 2 * n := by
  induction n generalizing c with
  | zero => exact ⟨_, _, rfl, rfl, rfl⟩
  | succ n ih =>
    refine atEnd_gives.bind fun ended c₁ ⟨ended', looked⟩ => ?_
    rw [ended', if_neg (by simp; omega)]
    refine (index_gives (by omega)).bind fun b c₂ indexed => (pass_gives b).bind fun _ c₃ passed => ?_
    exact (ih (by omega)).imp fun _ _ adv => by omega

theorem left_lt_rounds (src : List UInt8) (c : Cursor) : src.length - c.pos < rounds src :=
  Nat.lt_succ_of_le (Nat.sub_le _ _)

theorem scan_gives {test : UInt8 → Step Bool} {sure : UInt8 → Prop}
    (tests : ∀ b c, Gives (test b) c fun go c' => c'.pos = c.pos ∧ c'.steps ≤ c.steps + 1 ∧ (sure b → go = true))
    (hi : c.pos ≤ src.length) {rounds : Nat} (enough : src.length - c.pos < rounds) :
    Gives (scan src test rounds) c fun _ c' =>
      Within src 0 4 2 c c' ∧ ∀ b, src[c.pos]? = some b → sure b → c.pos < c'.pos := by
  induction rounds generalizing c with
  | zero => omega
  | succ rounds ih =>
    refine peek_gives.bind fun next c₁ ⟨seen, inside, looked⟩ => ?_
    cases next with
    | none => exact ⟨_, _, rfl, by omega, fun _ eq => by cases seen.trans eq⟩
    | some b =>
      have room := inside b rfl
      refine (tests b c₁).bind fun go c₂ ⟨pos, steps, surely⟩ => ?_
      cases go with
      | false => exact ⟨_, _, rfl, by omega, fun b' eq sure => by cases seen.trans eq; cases surely sure⟩
      | true =>
        refine (advance_gives 1 (by omega)).bind fun _ c₃ adv => ?_
        exact (ih (by omega) (by omega)).imp fun _ c₄ ⟨within, _⟩ => ⟨by omega, fun _ _ _ => by omega⟩

theorem scan_pure_gives (test : UInt8 → Bool) (hi : c.pos ≤ src.length) :
    Gives (scan src (fun b => pure (test b)) (rounds src)) c fun _ c' =>
      Within src 0 4 2 c c' ∧ ∀ b, src[c.pos]? = some b → test b = true → c.pos < c'.pos := by
  have tests : ∀ b c, Gives (pure (test b) : Step Bool) c fun go c' =>
      c'.pos = c.pos ∧ c'.steps ≤ c.steps + 1 ∧ (test b = true → go = true) :=
    fun b c => ⟨_, _, rfl, rfl, Nat.le_succ _, id⟩
  exact scan_gives tests hi (left_lt_rounds src c)

variable (hi : c.pos ≤ src.length)
include hi

theorem skipWsInline_gives : Gives (skipWsInline src) c fun _ c' => Within src 0 4 2 c c' :=
  (scan_pure_gives _ hi).imp fun _ _ post => post.1

theorem skipBlock_gives {rounds : Nat} (enough : src.length - c.pos < rounds) :
    Gives (skipBlock src rounds) c fun closed c' =>
      Within src 0 5 3 c c' ∧ (closed = true → c'.pos + 1 < src.length) := by
  induction rounds generalizing c with
  | zero => omega
  | succ rounds ih =>
    refine peek_gives.bind fun _ c₁ ⟨_, _, looked⟩ => (followedBy_gives _ _).bind fun closes c₂ ⟨pos, steps, room⟩ => ?_
    cases closes with
    | true =>
      have room := room rfl
      exact ⟨_, _, rfl, by omega, fun _ => by omega⟩
    | false =>
      refine peek_gives.bind fun next c₃ ⟨seen, inside, looked'⟩ => ?_
      cases next with
      | none => exact ⟨_, _, rfl, by omega, nofun⟩
      | some b =>
        have room := inside b rfl
        refine (advance_gives 1 (by omega)).bind fun _ c₄ adv => ?_
        exact (ih (by omega) (by omega)).imp fun _ c₅ ⟨within, closed⟩ => ⟨by omega, closed⟩

theorem skipWsAndComments_gives {rounds : Nat} (enough : src.length - c.pos < rounds) :
    Gives (skipWsAndComments src rounds) c fun _ c' => Within src 0 16 3 c c' := by
  induction rounds generalizing c with
  | zero => omega
  | succ rounds ih =>
    refine peek_gives.bind fun next c₁ ⟨seen, inside, looked⟩ => ?_
    cases next with
    | none => exact ⟨_, _, rfl, by omega⟩
    | some b =>
      have room := inside b rfl
      -- The rest of the loop, from where some bytes have been skipped.
      have again {c' : Cursor} (within : Within src 1 16 0 c c') :
          Gives (skipWsAndComments src rounds) c' fun _ c'' => Within src 0 16 3 c c'' :=
        (ih within.2.1 (by omega)).imp fun _ _ _ => by omega
      have line {c' : Cursor} (pos : c'.pos = c.pos) (steps : c'.steps ≤ c.steps + 2) (other : b ≠ byte '\n') :
          Gives (do skipLine src; skipWsAndComments src rounds) c' fun _ c'' => Within src 0 16 3 c c'' := by
        refine (scan_pure_gives _ (by omega)).bind fun _ c₂ ⟨within, moved⟩ => again ?_
        have := moved b (pos ▸ seen.symm) (by simpa using other)
        omega
      dsimp only
      split
      · exact (advance_gives 1 (by omega)).bind fun _ c₂ adv => again (by omega)
      next notBlank =>
        have other : b ≠ byte '\n' := fun eq => notBlank (.inr (.inr (.inl eq)))
        split
        · exact line looked.1 (by omega) other
        · refine (followedBy_gives _ _).bind fun slashes c₂ looked₂ => ?_
          cases slashes with
          | true => exact line (by omega) (by omega) other
          | false =>
            refine (followedBy_gives _ _).bind fun opens c₃ ⟨pos, steps, two⟩ => ?_
            cases opens with
            | false => exact ⟨_, _, rfl, by omega⟩
            | true =>
              have two := two rfl
              refine (advance_gives 2 (by omega)).bind fun _ c₄ adv => ?_
              refine (skipBlock_gives (by omega) (left_lt_rounds src c₄)).bind fun closed c₅ ⟨within, room⟩ => ?_
              cases closed with
              | false => exact ⟨_, _, rfl, by omega⟩
              | true =>
                have room := room rfl
                exact (advance_gives 2 (by omega)).bind fun _ c₆ advanced' => again (by omega)

theorem skips : Gives (skipWsAndComments src (rounds src)) c fun _ c' => Within src 0 16 3 c c' :=
  skipWsAndComments_gives hi (left_lt_rounds src c)

theorem tripleLoop_gives {rounds : Nat} (enough : src.length - c.pos < rounds) :
    Gives (tripleLoop src rounds) c fun _ c' => Within src 0 4 3 c c' := by
  induction rounds generalizing c with
  | zero => omega
  | succ rounds ih =>
    refine .here ?_
    split
    next win =>
      refine (slice_gives (Nat.le_add_right _ _) (by omega)).bind fun bs c₁ ⟨_, cut⟩ => ?_
      split
      · exact ⟨_, _, rfl, by omega⟩
      · refine (index_gives (by omega)).bind fun b c₂ indexed => (pass_gives b).bind fun _ c₃ passed => ?_
        exact (ih (by omega) (by omega)).imp fun _ _ _ => by omega
    · exact ⟨_, _, rfl, by omega⟩
omit hi

theorem stringLoop_yields (out : String) (hi : c.pos ≤ src.length) {rounds : Nat}
    (enough : src.length - c.pos < rounds) : Yields src c 1 (-13) 1 (stringLoop src rounds out c) := by
  induction rounds generalizing c out with
  | zero => omega
  | succ rounds ih =>
    refine peek_gives.then fun next c₁ ⟨seen, inside, looked⟩ => ?_
    cases next with
    | none => exact .failed (by omega)
    | some b =>
      have room := inside b rfl
      have again (longer : String) {c' : Cursor} (within : Within src 1 16 0 c c') :
          Yields src c 1 (-13) 1 (stringLoop src rounds longer c') :=
        (ih longer within.2.1 (by omega)).imp (by omega) (by omega)
      dsimp only
      split
      · exact .failed (by omega)
      · split
        · exact (advance_gives 1 (by omega)).then fun _ c₂ adv => .ok (by omega)
        · split
          · refine (advance_gives 1 (by omega)).then fun _ c₂ adv => peek_gives.then fun escaped c₃ ⟨seen, inside, looked'⟩ => ?_
            cases escaped with
            | none => exact .failed (by omega)
            | some e =>
              have room := inside e rfl
              exact (advance_gives 1 (by omega)).then fun _ c₄ advanced' => again _ (by omega)
          · exact (advance_gives 1 (by omega)).then fun _ c₂ adv => again _ (by omega)

theorem tripleString_yields (hi : c.pos ≤ src.length) : Yields src c 3 (-30) 3 (tripleString src c) := by
  rw [tripleString, here_bind]
  refine (tripleLoop_gives hi (left_lt_rounds src c)).then fun _ c₁ within => ?_
  rw [here_bind]
  split
  · exact .failed (by omega)
  next room =>
    refine (slice_gives (by omega) (by omega)).then fun bs c₂ ⟨_, cut⟩ => ?_
    cases ofUtf8 bs with
    | none => exact .failed (by omega)
    | some s => exact (advance_gives 3 (by omega)).then fun _ c₃ adv => .ok (by omega)

theorem parseString_yields (hi : c.pos ≤ src.length) : Yields src c 1 (-16) 5 (parseString src c) := by
  refine (startsWith_gives _).then fun triple c₁ ⟨pos, steps, three⟩ => ?_
  rw [length_cons, length_cons, length_singleton] at steps three
  cases triple with
  | true =>
    have three := three rfl
    refine (advance_gives 3 (by omega)).then fun _ c₂ adv => ?_
    exact (tripleString_yields (by omega)).imp (by omega) (by omega)
  | false =>
    refine peek_gives.then fun next c₂ ⟨_, inside, looked⟩ => ?_
    split
    · exact peek_gives.then fun _ c₃ ⟨_, _, looked'⟩ => .failed (by omega)
    next quoted =>
      have room := inside _ (not_not.mp quoted)
      refine (advance_gives 1 (by omega)).then fun _ c₃ adv => ?_
      exact (stringLoop_yields "" (by omega) (left_lt_rounds src c₃)).imp (by omega) (by omega)

theorem parseKeyPart_yields (hi : c.pos ≤ src.length) : Yields src c 1 (-8) 6 (parseKeyPart src c) := by
  refine peek_gives.then fun next c₁ ⟨_, _, looked⟩ => ?_
  split
  · exact (parseString_yields (by omega)).imp (by omega) (by omega)
  · rw [here_bind]
    refine (scan_pure_gives _ (by omega)).then fun _ c₂ ⟨within, _⟩ => ?_
    rw [here_bind]
    split
    · exact peek_gives.then fun _ c₃ ⟨_, _, looked'⟩ => .failed (by omega)
    next moved =>
      refine (slice_gives (by omega) (by omega)).then fun bs c₃ ⟨_, cut⟩ => ?_
      cases ofUtf8 bs with
      | none => exact .failed (by omega)
      | some part => exact .ok (by omega)

theorem parseKey_yields (parts : List String) (hi : c.pos ≤ src.length) {rounds : Nat}
    (enough : src.length - c.pos < rounds) : Yields src c 1 (-5) 8 (parseKey src rounds parts c) := by
  induction rounds generalizing c parts with
  | zero => omega
  | succ rounds ih =>
    refine (skipWsInline_gives hi).then fun _ c₁ blanks => ?_
    refine (parseKeyPart_yields (by omega)).bind (by omega) fun part c₂ within => ?_
    refine peek_gives.then fun next c₃ ⟨_, inside, looked⟩ => ?_
    split
    next dot =>
      have room := inside _ dot
      refine (advance_gives 1 (by omega)).then fun _ c₄ adv => ?_
      exact (ih _ (by omega) (by omega)).imp (by omega) (by omega)
    · exact .ok (by omega)

theorem parsePlaceholder_yields (marker : String) (hi : c.pos ≤ src.length) :
    Yields src c 1 0 3 (parsePlaceholder (F := F) src marker c) := by
  rw [parsePlaceholder, here_bind]
  refine (scan_pure_gives _ hi).then fun _ c₁ ⟨within, _⟩ => peek_gives.then fun next c₂ ⟨_, inside, looked⟩ => ?_
  split
  · exact .failed (by omega)
  next closes =>
    have room := inside _ (not_not.mp closes)
    rw [here_bind]
    refine (slice_gives (by omega) (by omega)).then fun bs c₃ ⟨_, cut⟩ => ?_
    cases ofUtf8 bs with
    | none => exact .failed (by omega)
    | some k => exact (advance_gives 1 (by omega)).then fun _ c₄ adv => .ok (by omega)

theorem parseSubstitution_yields (two : c.pos + 1 < src.length) :
    Yields src c 1 (-16) 0 (parseSubstitution (F := F) src c) := by
  refine (advance_gives 1 (by omega)).then fun _ c₁ adv => (advance_gives 1 (by omega)).then fun _ c₂ advanced' => ?_
  refine peek_gives.then fun next c₃ ⟨_, inside, looked⟩ => ?_
  split
  next optional =>
    have room := inside _ optional
    refine (advance_gives 1 (by omega)).then fun _ c₄ advanced'' => ?_
    exact (parsePlaceholder_yields _ (by omega)).imp (by omega) (by omega)
  · exact (parsePlaceholder_yields _ (by omega)).imp (by omega) (by omega)

theorem inScalar_gives (b : UInt8) (c : Cursor) : Gives (inScalar src b) c fun go c' =>
    c'.pos = c.pos ∧ c'.steps ≤ c.steps + 1 ∧ (False → go = true) := by
  unfold inScalar
  split
  · exact ⟨_, _, rfl, rfl, Nat.le_succ _, nofun⟩
  · exact (followedBy_gives _ _).bind fun _ c' ⟨pos, steps, _⟩ => ⟨_, _, rfl, pos, steps, nofun⟩

variable (parseF64 : String → Option F)

theorem parseUnquotedScalar_yields (hi : c.pos ≤ src.length) :
    Yields src c 1 (-9) 2 (parseUnquotedScalar src parseF64 c) := by
  rw [parseUnquotedScalar, here_bind]
  refine (scan_gives inScalar_gives hi (left_lt_rounds src c)).then fun _ c₁ ⟨within, _⟩ => ?_
  rw [here_bind]
  refine (slice_gives (by omega) (by omega)).then fun bs c₂ ⟨sliced, cut⟩ => ?_
  cases tx : ofUtf8 bs with
  | none => exact .failed (by omega)
  | some s =>
    dsimp only
    split
    · exact .failed (by omega)
    next ne =>
      have moved : c.pos ≠ c₁.pos := by
        intro eq
        rw [sliced, eq, Nat.sub_self, take_zero] at tx
        cases tx
        exact ne (by decide +kernel)
      exact .ok (by omega)

theorem Yields.code {step : Step α} {least : Nat} {cost lim : Int} (yields : Yields src c least cost lim (step c)) :
    Settles src c least cost lim (Cursor.code (F := F) step c) := yields

theorem parseAssignment_settles {body : Code F (Entries F)} {val : Code F (ConfigValue F)} (hi : c.pos ≤ src.length)
    (bodySettles : ∀ c', c.pos < c'.pos → c'.pos ≤ src.length → Settles src c' 0 4 24 (body c'))
    (valueSettles : ∀ c', c.pos < c'.pos → c'.pos ≤ src.length → Settles src c' 1 (-4) 20 (val c')) :
    Settles src c 1 (-9) 11 (parseAssignment src body val c) := by
  refine peek_gives.code fun next c₁ ⟨seen, inside, looked⟩ => ?_
  cases next with
  | none => exact .failed (by omega)
  | some b =>
    have room := inside b rfl
    dsimp only
    split
    · refine (advance_gives 1 (by omega)).code fun _ c₂ adv => ?_
      exact (bodySettles c₂ (by omega) (by omega)).bind (by omega) fun _ c₃ within => .ok (by omega)
    · refine (followedBy_gives _ _).code fun appends c₂ ⟨pos, steps, two⟩ => ?_
      have marked {n : Nat} (some : 0 < n) (few : n ≤ 2) (fits : c₂.pos + n ≤ src.length) (append : Bool) :
          Settles src c 1 (-9) 11
            ((do code (advance src n); code (skipWsInline src); let v ← val; pure (v, append) : Code F _) c₂) := by
        refine (advance_gives n fits).code fun _ c₃ adv => (skipWsInline_gives (by omega)).code fun _ c₄ blanks => ?_
        exact (valueSettles c₄ (by omega) (by omega)).bind (by omega) fun _ c₅ within => .ok (by omega)
      cases appends with
      | true =>
        have two := two rfl
        exact marked Nat.two_pos (Nat.le_refl _) (by omega) true
      | false =>
        rw [if_neg Bool.false_ne_true]
        split
        · exact marked one_pos (Nat.le_succ _) (by omega) false
        · exact .failed (by omega)

/-- With so many calls each part of the code ends. A value takes a byte; a body or an array may be empty. -/
structure Keeps (src : List UInt8) (parseF64 : String → Option F) (calls : Nat) : Prop where
  body : ∀ terminator obj c, c.pos ≤ src.length → 2 * (src.length - c.pos) + 2 ≤ calls →
    Settles src c 0 4 24 (parseObjectBody src parseF64 calls terminator obj c)
  value : ∀ c, c.pos ≤ src.length → 2 * (src.length - c.pos) + 1 ≤ calls →
    Settles src c 1 (-4) 20 (parseValue src parseF64 calls c)
  array : ∀ items c, c.pos ≤ src.length → 2 * (src.length - c.pos) + 2 ≤ calls →
    Settles src c 0 0 24 (parseArray src parseF64 calls items c)

theorem include_length : (utf8 "include").length = 7 := by decide +kernel

section Calls

variable {parseF64 : String → Option F} {cs : Nat} (keeps : Keeps src parseF64 cs)

include keeps

-- Each round pays with what it takes for the looks of the next.
theorem Keeps.body_step (terminator : UInt8) (obj : Entries F) (c : Cursor) (hi : c.pos ≤ src.length)
    (enough : 2 * (src.length - c.pos) + 2 ≤ cs + 1) :
    Settles src c 0 4 24 (parseObjectBody src parseF64 (cs + 1) terminator obj c) := by
  refine (skips hi).code fun _ c₁ skipped => peek_gives.code fun next c₂ ⟨seen, inside, looked⟩ => ?_
  cases next with
  | none =>
    dsimp only
    split
    · exact .failed (by omega)
    · exact .ok (by omega)
  | some b =>
    have room := inside b rfl
    have again (more : Entries F) {c' : Cursor} (within : Within src 1 16 0 c c') :
        Settles src c 0 4 24 (parseObjectBody src parseF64 cs terminator more c') :=
      (keeps.body terminator more c' within.2.1 (by omega)).imp (by omega) (by omega)
    dsimp only
    split
    · exact (advance_gives 1 (by omega)).code fun _ c₃ adv => .ok (by omega)
    · split
      · exact (advance_gives 1 (by omega)).code fun _ c₃ adv => again _ (by omega)
      · refine (startsWithKeyword_gives _).code fun keyword c₃ ⟨pos, steps, fits⟩ => ?_
        rw [include_length] at steps fits
        cases keyword with
        | true =>
          have fits := fits rfl
          refine (advance_gives 7 (by omega)).code fun _ c₄ adv => (skipWsInline_gives (by omega)).code fun _ c₅ blanks => ?_
          refine (parseString_yields (by omega)).code.bind (by omega) fun path c₆ within => ?_
          intro answer
          cases answer with
          | object child => exact again _ (by omega)
          | _ => exact .failed (by omega)
        | false =>
          refine Gives.code (⟨_, _, rfl, rfl, rfl⟩ : Gives (keyRounds src) c₃ fun rounds c' =>
            rounds = src.length - c₃.pos + 1 ∧ c₃ = c') fun rounds c' ⟨many, eq⟩ => ?_
          subst many eq
          refine (parseKey_yields [] (by omega) (Nat.lt_succ_self _)).code.bind (by omega) fun k c₄ within => ?_
          refine (skipWsInline_gives (by omega)).code fun _ c₅ blanks => ?_
          refine (parseAssignment_settles (by omega) (fun c' _ _ => ?_) fun c' _ _ => ?_).bind (by omega) fun assigned c₆ within' => ?_
          · exact keeps.body _ [] c' (by omega) (by omega)
          · exact keeps.value c' (by omega) (by omega)
          · exact again _ (by omega)

theorem Keeps.array_step (xs : List (ConfigValue F)) (c : Cursor) (hi : c.pos ≤ src.length)
    (enough : 2 * (src.length - c.pos) + 2 ≤ cs + 1) :
    Settles src c 0 0 24 (parseArray src parseF64 (cs + 1) xs c) := by
  refine (skips hi).code fun _ c₁ skipped => peek_gives.code fun next c₂ ⟨seen, inside, looked⟩ => ?_
  cases next with
  | none => exact .failed (by omega)
  | some b =>
    have room := inside b rfl
    dsimp only
    split
    · exact (advance_gives 1 (by omega)).code fun _ c₃ adv => .ok (by omega)
    · split
      · refine (advance_gives 1 (by omega)).code fun _ c₃ adv => ?_
        exact (keeps.array xs c₃ (by omega) (by omega)).imp (by omega) (by omega)
      · refine (keeps.value c₂ (by omega) (by omega)).bind (by omega) fun v c₃ within => ?_
        exact (keeps.array _ c₃ (by omega) (by omega)).imp (by omega) (by omega)

theorem Keeps.value_step (c : Cursor) (hi : c.pos ≤ src.length)
    (enough : 2 * (src.length - c.pos) + 1 ≤ cs + 1) :
    Settles src c 1 (-4) 20 (parseValue src parseF64 (cs + 1) c) := by
  rw [parseValue]
  refine (skipWsInline_gives hi).code fun _ c₁ blanks => peek_gives.code fun next c₂ ⟨seen, inside, looked⟩ => ?_
  cases next with
  | none => exact .failed (by omega)
  | some b =>
    have room := inside b rfl
    dsimp only
    split
    · exact (parseString_yields (by omega)).code.bind (by omega) fun s c₃ within => .ok (by omega)
    · split
      · refine (advance_gives 1 (by omega)).code fun _ c₃ adv => ?_
        exact (keeps.array [] c₃ (by omega) (by omega)).imp (by omega) (by omega)
      · split
        · refine (advance_gives 1 (by omega)).code fun _ c₃ adv => ?_
          exact (keeps.body _ [] c₃ (by omega) (by omega)).bind (by omega) fun inner c₄ within => .ok (by omega)
        · refine (followedBy_gives _ _).code fun dollar c₃ ⟨pos, steps, two⟩ => ?_
          cases dollar with
          | true =>
            have two := two rfl
            exact (parseSubstitution_yields (by omega)).code.imp (by omega) (by omega)
          | false => exact (parseUnquotedScalar_yields parseF64 (by omega)).code.imp (by omega) (by omega)

end Calls

theorem keeps (cs : Nat) : Keeps src parseF64 cs := by
  induction cs with
  | zero => constructor <;> intros <;> omega
  | succ cs ih => exact ⟨ih.body_step, ih.value_step, ih.array_step⟩

theorem parseRootBody_settles (hi : c.pos ≤ src.length) :
    Settles src c 0 5 25 (parseRootBody src parseF64 c) := by
  have body (terminator : UInt8) (c' : Cursor) (hi : c'.pos ≤ src.length) :=
    (keeps parseF64 (2 * (src.length - c'.pos) + 2)).body terminator [] c' hi (le_refl _)
  refine peek_gives.code fun next c₁ ⟨_, inside, looked⟩ => ?_
  split
  next brace =>
    have room := inside _ brace
    refine (advance_gives 1 (by omega)).code fun _ c₂ adv => ?_
    refine (body _ c₂ (by omega)).bind (by omega) fun obj c₃ within => ?_
    exact (skips (by omega)).code fun _ c₄ skipped => .ok (by omega)
  · exact (body 0 _ (by omega)).imp (by omega) (by omega)

theorem parseRoot_settles (src : List UInt8) (parseF64 : String → Option F) :
    Settles src .start src.length 12 28 (parseRoot src parseF64 .start) := by
  have first : start.pos = 0 := rfl
  refine (skips (Nat.zero_le _)).code fun _ c₁ skipped => ?_
  refine (parseRootBody_settles parseF64 (by omega)).bind (by omega) fun obj c₂ within => ?_
  refine (skips (by omega)).code fun _ c₃ skipped' => atEnd_gives.code fun ended c₄ ⟨ended', looked⟩ => ?_
  subst ended'
  split
  next done =>
    have all := of_decide_eq_true done
    exact .ok (by omega)
  next more =>
    have room : c₃.pos < src.length := Nat.lt_of_not_le fun all => more (decide_eq_true all)
    exact (index_gives (by omega)).code fun b c₅ indexed => .failed (by omega)

end Text

end Cursor

theorem failed_of_mapError {result : Except HoconError α} {fault : Fault} (failed : result.mapError .failed = .error fault) :
    ∃ error, fault = .failed error := by
  cases result with
  | ok value => cases failed
  | error error =>
    cases failed
    exact ⟨error, rfl⟩

/-- The only faults of a text are errors of the program. -/
theorem parseText_fails (setting : Setting F) (text : String) :
    (parseText setting text).All fun result => ∀ fault, result = .error fault → ∃ error, fault = .failed error := by
  refine Asking.All.bind (Cursor.parseRoot_settles (utf8 text) setting.parseF64) fun outcome yields => ?_
  cases yields with
  | failed within =>
    rintro _ ⟨⟩
    exact ⟨_, rfl⟩
  | ok within => exact fun _ failed => failed_of_mapError failed

/-- A text in which no inclusion is executed is read once. -/
theorem parse_progress (setting : Setting F) (text : String)
    (noInclude : (Cursor.parseRoot (utf8 text) setting.parseF64 .start).firstQuestion = none) :
    ∃ (root : Except HoconError (ConfigValue F)) (c : Cursor),
      Cursor.parseRoot (utf8 text) setting.parseF64 .start = .done (root.mapError .failed, c) ∧
      parseText setting text = .done ((root >>= resolveSubstitutions setting.env).mapError .failed) ∧
      c.steps ≤ 16 * (utf8 text).length + 28 ∧ c.pos ≤ (utf8 text).length ∧
      (root.isOk → c.pos = (utf8 text).length) := by
  have settles := Cursor.parseRoot_settles (utf8 text) setting.parseF64
  have first : Cursor.start.pos = 0 ∧ Cursor.start.steps = 0 := ⟨rfl, rfl⟩
  cases tree : Cursor.parseRoot (utf8 text) setting.parseF64 .start with
  | ask question next =>
    rw [tree] at noInclude
    cases noInclude
  | done outcome =>
    rw [tree] at settles
    cases settles with
    | @failed err c within =>
      refine ⟨.error err, c, rfl, ?_, by omega, by omega, nofun⟩
      rw [parseText, tree]
      rfl
    | @ok root c within =>
      refine ⟨.ok root, c, rfl, ?_, by omega, by omega, fun _ => by omega⟩
      rw [parseText, tree]
      rfl

theorem parse_progress_nested :
    let setting : Setting Empty := ⟨fun _ => none, fun _ => none⟩
    let text := "a = [1, \x7b b : x \x7d] // c"
    ∃ (root : Except HoconError (ConfigValue Empty)) (c : Cursor),
      Cursor.parseRoot (utf8 text) setting.parseF64 .start = .done (root.mapError .failed, c) ∧
      parseText setting text = .done ((root >>= resolveSubstitutions setting.env).mapError .failed) ∧
      c.steps ≤ 16 * (utf8 text).length + 28 ∧ c.pos ≤ (utf8 text).length ∧
      (root.isOk → c.pos = (utf8 text).length) :=
  parse_progress _ _ (by decide +kernel)

/-- Whatever the included files give, a text is read once, and the parse ends with a tree or an error. -/
theorem included_progress (host : Host F) (text : String) :
    (∃ result : Except HoconError (ConfigValue F), parse host text = result.mapError .failed) ∧
      (Cursor.parseRoot (utf8 text) host.parseF64 .start).All fun outcome =>
        outcome.2.steps ≤ 16 * (utf8 text).length + 28 ∧ outcome.2.pos ≤ (utf8 text).length ∧
          (outcome.1.isOk → outcome.2.pos = (utf8 text).length) := by
  constructor
  · have fails : ∀ fault, parse host text = .error fault → ∃ error, fault = .failed error := by
      refine (parseText_fails host.toSetting text).answered fun _ _ failed => ?_
      rintro _ ⟨⟩
      exact failed_of_mapError failed
    cases ended : parse host text with
    | ok root => exact ⟨.ok root, rfl⟩
    | error fault =>
      obtain ⟨error, rfl⟩ := fails fault ended
      exact ⟨.error error, rfl⟩
  · have first : Cursor.start.pos = 0 ∧ Cursor.start.steps = 0 := ⟨rfl, rfl⟩
    refine Asking.All.imp (Cursor.parseRoot_settles (utf8 text) host.parseF64) fun outcome yields => ?_
    cases yields with
    | failed within =>
      dsimp only
      exact ⟨by omega, by omega, nofun⟩
    | ok within =>
      dsimp only
      exact ⟨by omega, by omega, fun _ => by omega⟩

end Atomr.Config
