import Atomr.Config.CursorProgress
import Atomr.Config.Substitution

/-! What a string literal of a document is read as.

A quoted literal is read byte by byte, and every byte becomes a character of its own. The second pass then
takes strings with a prefix for substitutions, also those that the document wrote as literals.
-/

namespace Atomr.Config

open Library Text Outcome List
open String (utf8EncodeChar)

variable {F : Type}

inductive Literal where
  | quoted (content : String)
  | tripled (content : String)

/-- A quote or a backslash gets a backslash. -/
def escaped (c : Char) : List Char := if c = '"' ∨ c = '\\' then ['\\', c] else [c]

def latin (s : String) : String := String.ofList ((utf8 s).map charOf)

namespace Literal

def content : Literal → String
  | quoted s => s
  | tripled s => s

def chars : Literal → List Char
  | quoted s => '"' :: s.toList.flatMap escaped ++ ['"']
  | tripled s => ['"', '"', '"'] ++ s.toList ++ ['"', '"', '"']

/-- A quoted literal is on one line; a tripled one does not end early. -/
def Fits : Literal → Prop
  | quoted s => '\n' ∉ s.toList
  | tripled s => ¬ ['"', '"', '"'] <:+: s.toList ∧ s.toList.getLast? ≠ some '"'

def read : Literal → String
  | quoted s => latin s
  | tripled s => s

def Readable : Literal → Prop
  | quoted s => ∀ c ∈ s.toList, c.toNat ≤ 0x7f
  | tripled _ => True

instance : DecidablePred Fits
  | quoted s => inferInstanceAs (Decidable ('\n' ∉ s.toList))
  | tripled s => inferInstanceAs (Decidable (¬ ['"', '"', '"'] <:+: s.toList ∧ s.toList.getLast? ≠ some '"'))

instance : DecidablePred Readable
  | quoted s => (List.decidableBAll (fun c : Char => c.toNat ≤ 0x7f) s.toList : Decidable (∀ c ∈ s.toList, c.toNat ≤ 0x7f))
  | tripled _ => inferInstanceAs (Decidable True)

theorem bytes_start (literal : Literal) : ∃ more, literal.chars.flatMap utf8EncodeChar = quote :: more := by
  cases literal <;> exact ⟨_, rfl⟩

end Literal

theorem utf8_eq_flatMap (s : String) : utf8 s = s.toList.flatMap utf8EncodeChar := by
  rw [← utf8_ofList, String.ofList_toList]

theorem utf8_ne_nil {s : String} (ne : s ≠ "") : utf8 s ≠ [] := by
  intro empty
  have dec := ofUtf8_utf8 s
  rw [empty] at dec
  exact ne (Option.some.inj (dec.symm.trans (ofUtf8_utf8 "")))

theorem encoded_eq_or_large (c : Char) :
    c.toNat ≤ 0x7f ∧ utf8EncodeChar c = [UInt8.ofNat c.toNat] ∨
      0x7f < c.toNat ∧ 1 < (utf8EncodeChar c).length ∧ ∀ b ∈ utf8EncodeChar c, 0x80 ≤ b.toNat := by
  have v : c.val.toNat = c.toNat := rfl
  unfold utf8EncodeChar
  simp only [v]
  split
  next small => exact .inl ⟨small, rfl⟩
  next large =>
    refine .inr ⟨by omega, ?_⟩
    split
    · simp; omega
    · split
      · simp; omega
      · simp; omega

theorem charOf_ascii {c : Char} (small : c.toNat ≤ 0x7f) : charOf (UInt8.ofNat c.toNat) = c := by
  have narrow : (UInt8.ofNat c.toNat).toNat = c.toNat := UInt8.toNat_ofNat_of_lt' (show c.toNat < 256 by omega)
  rw [charOf, narrow, Char.ofNat_toNat]

theorem not_mem_encoded {c d : Char} (small : d.toNat ≤ 0x7f) (ne : c ≠ d) :
    UInt8.ofNat d.toNat ∉ utf8EncodeChar c := by
  intro mem
  rcases encoded_eq_or_large c with ⟨ascii, single⟩ | ⟨-, -, large⟩
  · rw [single, mem_singleton] at mem
    have eq := congrArg charOf mem
    rw [charOf_ascii small, charOf_ascii ascii] at eq
    exact ne eq.symm
  · have bound := large _ mem
    rw [UInt8.toNat_ofNat_of_lt' (show d.toNat < 256 by omega)] at bound
    omega

theorem latin_eq_iff {s : String} : latin s = s ↔ ∀ c ∈ s.toList, c.toNat ≤ 0x7f := by
  constructor
  · intro eq
    have lengths : (s.toList.flatMap utf8EncodeChar).length = s.toList.length := by
      have chars := congrArg (fun t => t.toList.length) eq
      simp only [latin, String.toList_ofList, length_map] at chars
      rw [← utf8_eq_flatMap, chars]
    have general : ∀ chars : List Char, chars.length ≤ (chars.flatMap utf8EncodeChar).length ∧
        ((chars.flatMap utf8EncodeChar).length = chars.length → ∀ c ∈ chars, c.toNat ≤ 0x7f) := by
      intro chars
      induction chars with
      | nil => exact ⟨le_refl _, fun _ _ mem => absurd mem not_mem_nil⟩
      | cons c rest ih =>
        simp only [flatMap_cons, length_append, length_cons]
        rcases encoded_eq_or_large c with ⟨small, single⟩ | ⟨-, long, -⟩
        · rw [single, length_singleton]
          refine ⟨by omega, fun equal => forall_mem_cons.mpr ⟨small, ih.2 (by omega)⟩⟩
        · exact ⟨by omega, fun equal => absurd equal (by omega)⟩
    exact (general s.toList).2 lengths
  · intro ascii
    rw [latin, utf8_of_ascii ascii, map_map]
    have kept : s.toList.map (charOf ∘ fun c => UInt8.ofNat c.toNat) = s.toList.map id :=
      map_congr_left fun c mem => charOf_ascii (ascii c mem)
    rw [kept, map_id, String.ofList_toList]

theorem Literal.read_eq_content_iff (literal : Literal) : literal.read = literal.content ↔ literal.Readable := by
  cases literal with
  | quoted s => exact latin_eq_iff
  | tripled s => exact iff_of_true rfl trivial

namespace Cursor

variable {α β : Type} {src front post : List UInt8} {c : Cursor}

/-- A step reads a value and leaves the given bytes. -/
def Leaves (src : List UInt8) (step : Step α) (c : Cursor) (value : α) (after : List UInt8) : Prop :=
  Gives step c fun read c' => read = value ∧ src.drop c'.pos = after

/-- Code asks nothing, reads a value and leaves the given bytes. -/
def Reads (src : List UInt8) (code : Code F α) (c : Cursor) (value : α) (after : List UInt8) : Prop :=
  ∃ c', code c = .done (.ok value, c') ∧ src.drop c'.pos = after

section Rules

variable {step : Step α} {v : α} {mid : List UInt8} {w : β}

theorem Leaves.bind {next : α → Step β} (read : Leaves src step c v mid)
    (rest : ∀ c', src.drop c'.pos = mid → Leaves src (next v) c' w post) : Leaves src (step >>= next) c w post := by
  refine Gives.bind read fun _ c' here => ?_
  rw [here.1]
  exact rest c' here.2

theorem Leaves.code {next : α → Code F β} (read : Leaves src step c v mid)
    (rest : ∀ c', src.drop c'.pos = mid → Reads src (next v) c' w post) :
    Reads src (Cursor.code step >>= next) c w post := by
  obtain ⟨_, c', run, rfl, left⟩ := read
  dsimp only [Reads, Bind.bind, Cursor.code]
  rw [run]
  exact rest c' left

theorem Reads.bind {first : Code F α} {next : α → Code F β} (read : Reads src first c v mid)
    (rest : ∀ c', src.drop c'.pos = mid → Reads src (next v) c' w post) : Reads src (first >>= next) c w post := by
  obtain ⟨c', run, left⟩ := read
  dsimp only [Reads, Bind.bind]
  rw [run]
  exact rest c' left

end Rules

section Bytes

variable {bs : List UInt8} (left : src.drop c.pos = bs)
include left

theorem peek_leaves : Leaves src (peek src) c bs.head? bs := ⟨_, _, rfl, by rw [← left, List.head?_drop], left⟩

theorem length_left : bs.length = src.length - c.pos := by rw [← left, length_drop]

theorem length_lt_rounds : bs.length < rounds src := by
  rw [length_left left]
  exact left_lt_rounds src c

theorem startsWith_leaves {needle : List UInt8} (ne : needle ≠ []) :
    Leaves src (startsWith src needle) c (needle.isPrefixOf bs) bs := by
  have long := length_pos_of_ne_nil ne
  have length := length_left left
  refine Gives.here ?_
  split
  next room =>
    refine (slice_gives (Nat.le_add_right _ _) room).bind fun cut c' ⟨eq, pos, _⟩ => ⟨_, _, rfl, ?_, by rw [pos, left]⟩
    rw [eq, left, Nat.add_sub_cancel_left, Bool.eq_iff_iff, beq_iff_eq, List.isPrefixOf_iff_prefix,
      prefix_iff_eq_take]
    exact eq_comm
  next short =>
    refine ⟨_, _, rfl, (Bool.eq_false_iff.mpr fun starts => ?_).symm, left⟩
    have := (List.isPrefixOf_iff_prefix.mp starts).length_le
    omega

end Bytes

theorem advance_leaves (left : src.drop c.pos = front ++ post) : Leaves src (advance src front.length) c () post := by
  cases front with
  | nil => exact ⟨_, _, rfl, rfl, left⟩
  | cons b rest =>
    have length := length_left left
    rw [length_append, length_cons] at length
    refine (advance_gives _ (by rw [length_cons]; omega)).imp fun _ c' ⟨pos, _⟩ => ⟨rfl, ?_⟩
    rw [pos, ← drop_drop, left, drop_left]

theorem advance_byte {b : UInt8} (left : src.drop c.pos = b :: post) : Leaves src (advance src 1) c () post := by
  have byte : src.drop c.pos = [b] ++ post := left
  exact advance_leaves byte

theorem scan_leaves {test : UInt8 → Bool} (all : ∀ b ∈ front, test b) (stops : ∀ b, post.head? = some b → test b = false)
    (left : src.drop c.pos = front ++ post) {rounds : Nat} (enough : front.length < rounds) :
    Leaves src (scan src (fun b => pure (test b)) rounds) c () post := by
  induction front generalizing c rounds with
  | nil =>
    obtain _ | rounds := rounds
    · cases enough
    refine (peek_leaves left).bind fun c₁ left₁ => ?_
    cases post with
    | nil => exact ⟨_, _, rfl, rfl, left₁⟩
    | cons b rest =>
      refine ⟨(), c₁, ?_, rfl, left₁⟩
      dsimp only [nil_append, List.head?_cons, Bind.bind, pure]
      rw [stops b rfl]
      rfl
  | cons b rest ih =>
    obtain _ | rounds := rounds
    · cases enough
    obtain ⟨here, later⟩ := forall_mem_cons.mp all
    refine (peek_leaves left).bind fun c₁ left₁ => ?_
    have test : Leaves src (pure (test b)) c₁ true (b :: (rest ++ post)) := ⟨_, _, rfl, here, left₁⟩
    exact test.bind fun c₂ left₂ => (advance_byte left₂).bind fun c₃ left₃ =>
      ih later left₃ (Nat.lt_of_succ_lt_succ enough)

theorem slice_leaves {first : Nat} (start : src.drop first = front ++ post) (left : src.drop c.pos = post)
    (ne : post ≠ []) : Leaves src (slice src first c.pos) c front post := by
  have long := length_pos_of_ne_nil ne
  have whole := congrArg List.length start
  have length := length_left left
  rw [length_drop, length_append] at whole
  refine (slice_gives (by omega) (by omega)).imp fun cut c' ⟨eq, pos, _⟩ => ⟨?_, by rw [pos, left]⟩
  rw [eq, start, show c.pos - first = front.length by omega, take_left]

/-- From where these bytes are left the rest of a quoted string is read and others are left. -/
def Closes (src : List UInt8) (out : String) (bs : List UInt8) (s : String) (post : List UInt8) : Prop :=
  ∀ (c : Cursor) (rounds : Nat), src.drop c.pos = bs → bs.length < rounds → Leaves src (stringLoop src rounds out) c s post

variable {out s : String}

theorem Closes.plain {bs more : List UInt8} (plain : ∀ b ∈ bs, b ≠ byte '\n' ∧ b ≠ quote ∧ b ≠ backslash)
    (rest : Closes src (out ++ String.ofList (bs.map charOf)) more s post) : Closes src out (bs ++ more) s post := by
  induction bs generalizing out with
  | nil => simpa using rest
  | cons b later ih =>
    obtain ⟨⟨notNewline, notQuote, notBackslash⟩, plain⟩ := forall_mem_cons.mp plain
    have joined : out.push (charOf b) ++ String.ofList (later.map charOf) = out ++ String.ofList ((b :: later).map charOf) := by
      apply String.toList_injective
      simp
    intro c rounds left enough
    obtain _ | rounds := rounds
    · cases enough
    refine (peek_leaves left).bind fun c₁ left₁ => ?_
    dsimp only [cons_append, List.head?_cons]
    rw [if_neg notNewline, if_neg notQuote, if_neg notBackslash]
    exact (advance_byte left₁).bind fun c₂ left₂ =>
      ih plain (joined ▸ rest) c₂ rounds left₂ (Nat.lt_of_succ_lt_succ enough)

theorem Closes.escape {b : UInt8} {more : List UInt8} (rest : Closes src (out.push (unescape b)) more s post) :
    Closes src out (backslash :: b :: more) s post := by
  intro c rounds left enough
  obtain _ | rounds := rounds
  · cases enough
  refine (peek_leaves left).bind fun c₁ left₁ => ?_
  dsimp only [List.head?_cons]
  rw [if_neg (by decide), if_neg (by decide), if_pos rfl]
  refine (advance_byte left₁).bind fun c₂ left₂ => (peek_leaves left₂).bind fun c₃ left₃ => ?_
  exact (advance_byte left₃).bind fun c₄ left₄ =>
    rest c₄ rounds left₄ (Nat.lt_of_succ_lt (Nat.lt_of_succ_lt_succ enough))

theorem Closes.char {ch : Char} (oneLine : ch ≠ '\n') {more : List UInt8}
    (rest : Closes src (out ++ String.ofList ((utf8EncodeChar ch).map charOf)) more s post) :
    Closes src out ((escaped ch).flatMap utf8EncodeChar ++ more) s post := by
  unfold escaped
  split
  next special =>
    rcases special with rfl | rfl
    · exact Closes.escape rest
    · exact Closes.escape rest
  next ord =>
    obtain ⟨notQuote, notBackslash⟩ := not_or.mp ord
    rw [flatMap_singleton]
    refine Closes.plain (fun b mem => ⟨?_, ?_, ?_⟩) rest
    · rintro rfl
      exact not_mem_encoded (d := '\n') (by decide) oneLine mem
    · rintro rfl
      exact not_mem_encoded (d := '"') (by decide) notQuote mem
    · rintro rfl
      exact not_mem_encoded (d := '\\') (by decide) notBackslash mem

theorem closes_quoted {chars : List Char} (oneLine : '\n' ∉ chars) (out : String) (post : List UInt8) :
    Closes src out ((chars.flatMap escaped).flatMap utf8EncodeChar ++ quote :: post)
      (out ++ String.ofList ((chars.flatMap utf8EncodeChar).map charOf)) post := by
  induction chars generalizing out with
  | nil =>
    intro c rounds left enough
    obtain _ | rounds := rounds
    · cases enough
    refine (peek_leaves left).bind fun c₁ left₁ => ?_
    rw [flatMap_nil, flatMap_nil, nil_append, List.head?_cons]
    dsimp only
    rw [if_neg (by decide), if_pos rfl, map_nil, String.ofList_nil, String.append_empty]
    exact (advance_byte left₁).bind fun c₂ left₂ => ⟨_, _, rfl, rfl, left₂⟩
  | cons ch rest ih =>
    obtain ⟨here, later⟩ := not_or.mp (mt mem_cons.mpr oneLine)
    have tail := ih later (out ++ String.ofList ((utf8EncodeChar ch).map charOf))
    rw [flatMap_cons, flatMap_append, append_assoc]
    refine Closes.char (Ne.symm here) ?_
    simpa [String.append_assoc] using tail

/-- From where the first bytes are left the loop goes to where the others are. -/
def Seeks (src bs post : List UInt8) : Prop :=
  ∀ (c : Cursor) (rounds : Nat), src.drop c.pos = bs → bs.length < rounds → Leaves src (tripleLoop src rounds) c () post

theorem seeks_quotes (post : List UInt8) : Seeks src (quote :: quote :: quote :: post) (quote :: quote :: quote :: post) := by
  intro c rounds left enough
  obtain _ | rounds := rounds
  · cases enough
  have length := length_left left
  simp only [length_cons] at length
  refine Gives.here ?_
  rw [if_pos (by omega)]
  refine (slice_gives (Nat.le_add_right _ _) (by omega)).bind fun cut c' ⟨eq, pos, _⟩ => ?_
  rw [if_pos (by rw [eq, left, Nat.add_sub_cancel_left]; rfl)]
  exact ⟨_, _, rfl, rfl, by rw [pos, left]⟩

theorem Seeks.step {a b c : UInt8} {rest : List UInt8} (other : ¬ (a = quote ∧ b = quote ∧ c = quote))
    (seeks : Seeks src (b :: c :: rest) post) : Seeks src (a :: b :: c :: rest) post := by
  intro cursor rounds left enough
  obtain _ | rounds := rounds
  · cases enough
  have length := length_left left
  simp only [length_cons] at length
  refine Gives.here ?_
  rw [if_pos (by omega)]
  refine (slice_gives (Nat.le_add_right _ _) (by omega)).bind fun cut c₁ ⟨eq, pos, _⟩ => ?_
  rw [if_neg (by rw [eq, left, Nat.add_sub_cancel_left]; simpa using other)]
  refine (index_gives (by omega)).bind fun _ c₂ ⟨pos₂, _⟩ => (pass_gives _).bind fun _ c₃ ⟨pos₃, _⟩ => ?_
  refine seeks c₃ rounds ?_ (Nat.lt_of_succ_lt_succ enough)
  rw [pos₃, pos₂, pos, ← drop_drop, left, drop_one, tail_cons]

theorem Seeks.plain {bs more : List UInt8} (plain : quote ∉ bs) (long : 2 ≤ more.length) (seeks : Seeks src more post) :
    Seeks src (bs ++ more) post := by
  induction bs with
  | nil => exact seeks
  | cons a rest ih =>
    obtain ⟨here, later⟩ := not_or.mp (mt mem_cons.mpr plain)
    have seeks := ih later
    have long : 2 ≤ (rest ++ more).length := by
      rw [length_append]
      omega
    rw [cons_append]
    match rest ++ more, long, seeks with
    | b :: c :: tail, _, seeks => exact seeks.step fun all => here all.1.symm

theorem encoded_first {c : Char} (other : c ≠ '"') (more : List UInt8) :
    ∃ b tail, utf8EncodeChar c ++ more = b :: (tail ++ more) ∧ b ≠ quote := by
  have ha := not_mem_encoded (d := '"') (by decide) other
  cases shape : utf8EncodeChar c with
  | nil =>
    have pos := Char.utf8Size_pos c
    rw [← String.length_utf8EncodeChar, shape] at pos
    exact absurd pos (lt_irrefl 0)
  | cons b tail =>
    rw [shape] at ha
    exact ⟨b, tail, rfl, fun eq => ha (eq ▸ mem_cons_self)⟩

theorem seeks_quote {rest : List Char} (noTriple : ¬ ['"', '"', '"'] <:+: '"' :: rest)
    (ending : ('"' :: rest).getLast? ≠ some '"') {after : List UInt8} (ne : after ≠ [])
    (seeks : Seeks src (rest.flatMap utf8EncodeChar ++ after) post) :
    Seeks src (quote :: (rest.flatMap utf8EncodeChar ++ after)) post := by
  -- The window of three bytes is over the next two characters at most.
  cases rest with
  | nil => exact absurd rfl ending
  | cons d more =>
    rw [flatMap_cons, append_assoc] at seeks ⊢
    by_cases isQuote : d = '"'
    · subst isQuote
      cases more with
      | nil => exact absurd rfl ending
      | cons e more =>
        have third : e ≠ '"' := by
          rintro rfl
          exact noTriple ⟨[], more, rfl⟩
        rw [flatMap_cons, append_assoc] at seeks ⊢
        obtain ⟨b, tail, shape, other⟩ := encoded_first third (more.flatMap utf8EncodeChar ++ after)
        rw [shape] at seeks ⊢
        exact seeks.step fun all => other all.2.2
    · obtain ⟨b, tail, shape, other⟩ := encoded_first isQuote (more.flatMap utf8EncodeChar ++ after)
      rw [shape] at seeks ⊢
      obtain ⟨y, last, next⟩ := exists_cons_of_ne_nil (append_ne_nil_of_right_ne_nil tail
        (append_ne_nil_of_right_ne_nil (more.flatMap utf8EncodeChar) ne))
      rw [next] at seeks ⊢
      exact seeks.step fun all => other all.2.1

/-- Three quotes in a row come first after the content. -/
theorem seeks_content {chars : List Char} (noTriple : ¬ ['"', '"', '"'] <:+: chars)
    (ending : chars.getLast? ≠ some '"') (post : List UInt8) :
    Seeks src (chars.flatMap utf8EncodeChar ++ quote :: quote :: quote :: post) (quote :: quote :: quote :: post) := by
  induction chars with
  | nil => exact seeks_quotes post
  | cons c rest ih =>
    have laterTriple : ¬ ['"', '"', '"'] <:+: rest := fun hi => noTriple (hi.trans (suffix_cons c rest).isInfix)
    have laterEnding : rest.getLast? ≠ some '"' := by
      intro last
      cases rest with
      | nil => cases last
      | cons d more => exact ending (by rwa [List.getLast?_cons_cons])
    have seeks := ih laterTriple laterEnding
    have long : 2 ≤ (rest.flatMap utf8EncodeChar ++ quote :: quote :: quote :: post).length := by
      simp only [length_append, length_cons]
      omega
    rw [flatMap_cons, append_assoc]
    by_cases isQuote : c = '"'
    · subst isQuote
      exact seeks_quote noTriple ending (cons_ne_nil _ _) seeks
    · exact Seeks.plain (not_mem_encoded (d := '"') (by decide) isQuote) long seeks

theorem startsWith_quoted (chars : List Char) {post : List UInt8} (apart : post.head? ≠ some quote) :
    [quote, quote, quote].isPrefixOf
      ([quote] ++ ((chars.flatMap escaped).flatMap utf8EncodeChar ++ quote :: post)) = false := by
  cases chars with
  | nil =>
    cases post with
    | nil => rfl
    | cons c rest =>
      have ne : quote ≠ c := fun eq => apart (by rw [eq, List.head?_cons])
      simp [List.isPrefixOf, ne]
  | cons c rest =>
    have start : ∃ d more, escaped c = d :: more ∧ d ≠ '"' := by
      unfold escaped
      split
      · exact ⟨'\\', [c], rfl, by decide⟩
      next ord => exact ⟨c, [], rfl, fun eq => ord (.inl eq)⟩
    obtain ⟨d, more, shape, other⟩ := start
    simp only [flatMap_cons, shape, flatMap_append, append_assoc]
    obtain ⟨b, tail, enc, ne⟩ := encoded_first other (more.flatMap utf8EncodeChar ++
      ((rest.flatMap escaped).flatMap utf8EncodeChar ++ quote :: post))
    rw [enc]
    simp [List.isPrefixOf, Ne.symm ne]

theorem parseString_quoted {s : String} (oneLine : '\n' ∉ s.toList)
    (left : src.drop c.pos = (Literal.quoted s).chars.flatMap utf8EncodeChar ++ post) (apart : post.head? ≠ some quote) :
    Leaves src (parseString src) c (latin s) post := by
  have opening : src.drop c.pos = [quote] ++ ((s.toList.flatMap escaped).flatMap utf8EncodeChar ++ quote :: post) := by
    rw [left]
    simp [Literal.chars, show utf8EncodeChar '"' = [quote] from rfl]
  refine (startsWith_leaves opening (cons_ne_nil _ _)).bind fun c₁ left₁ => ?_
  rw [startsWith_quoted s.toList apart, if_neg Bool.false_ne_true]
  refine (peek_leaves left₁).bind fun c₂ left₂ => ?_
  dsimp only [cons_append, List.head?_cons]
  rw [if_neg (not_not.mpr rfl)]
  refine (advance_byte left₂).bind fun c₃ left₃ => ?_
  have body := closes_quoted oneLine "" post c₃ _ left₃ (length_lt_rounds left₃)
  rwa [String.empty_append, ← utf8_eq_flatMap] at body

theorem parseString_tripled {s : String} (fits : (Literal.tripled s).Fits)
    (left : src.drop c.pos = (Literal.tripled s).chars.flatMap utf8EncodeChar ++ post) :
    Leaves src (parseString src) c s post := by
  have opening : src.drop c.pos = [quote, quote, quote] ++ (utf8 s ++ quote :: quote :: quote :: post) := by
    rw [left, utf8_eq_flatMap]
    simp [Literal.chars, show utf8EncodeChar '"' = [quote] from rfl]
  refine (startsWith_leaves opening (cons_ne_nil _ _)).bind fun c₁ left₁ => ?_
  rw [if_pos (by simp)]
  refine (advance_leaves left₁).bind fun c₂ content => Gives.here ?_
  have seeks : Seeks src (utf8 s ++ quote :: quote :: quote :: post) (quote :: quote :: quote :: post) := by
    rw [utf8_eq_flatMap]
    exact seeks_content fits.1 fits.2 post
  refine Leaves.bind (seeks c₂ _ content (length_lt_rounds content)) fun c₃ closing => Gives.here ?_
  have length := length_left closing
  simp only [length_cons] at length
  rw [if_neg (by omega)]
  refine (slice_leaves content closing (cons_ne_nil _ _)).bind fun c₄ left₄ => ?_
  rw [ofUtf8_utf8]
  exact (advance_leaves (show _ = [quote, quote, quote] ++ post from left₄)).bind fun c₅ left₅ => ⟨_, _, rfl, rfl, left₅⟩

theorem parseString_literal {literal : Literal} (fits : literal.Fits)
    (left : src.drop c.pos = literal.chars.flatMap utf8EncodeChar ++ post) (apart : post.head? ≠ some quote) :
    Leaves src (parseString src) c literal.read post := by
  cases literal with
  | quoted s => exact parseString_quoted fits left apart
  | tripled s => exact parseString_tripled fits left

end Cursor

inductive KeyPart where
  | plain (name : String)
  | literal (written : Literal)

namespace KeyPart

def chars : KeyPart → List Char
  | plain name => name.toList
  | literal written => written.chars

def name : KeyPart → String
  | plain name => name
  | literal written => written.read

def Fits : KeyPart → Prop
  | plain name => name ≠ "" ∧ ∀ b ∈ utf8 name, isKeyByte b
  | literal written => written.Fits

end KeyPart

def startsPart (b : UInt8) : Bool := isKeyByte b || b = quote

theorem startsPart_ne {b c : UInt8} (starts : startsPart b) (other : startsPart c = false) : b ≠ c := by
  rintro rfl
  rw [starts] at other
  cases other

theorem KeyPart.starts {part : KeyPart} (fits : part.Fits) :
    ∃ b more, part.chars.flatMap utf8EncodeChar = b :: more ∧ startsPart b := by
  cases part with
  | plain nm =>
    obtain ⟨ne, keyBytes⟩ := fits
    rw [KeyPart.chars, ← utf8_eq_flatMap]
    obtain ⟨b, more, shape⟩ := exists_cons_of_ne_nil (utf8_ne_nil ne)
    rw [shape] at keyBytes
    exact ⟨b, more, shape, by rw [startsPart, keyBytes b mem_cons_self, Bool.true_or]⟩
  | literal written =>
    obtain ⟨more, shape⟩ := written.bytes_start
    exact ⟨quote, more, shape, rfl⟩

def keyChars : KeyPart → List KeyPart → List Char
  | part, [] => part.chars
  | part, next :: rest => part.chars ++ '.' :: keyChars next rest

structure Assignment where
  first : KeyPart
  rest : List KeyPart
  literal : Literal

namespace Assignment

def chars (a : Assignment) : List Char := keyChars a.first a.rest ++ [' ', '=', ' '] ++ a.literal.chars

def text (a : Assignment) : String := String.ofList a.chars

def names (a : Assignment) : List String := a.first.name :: a.rest.map KeyPart.name

/-- The parts and the literal are written as such, and the key is not taken for an inclusion. -/
structure Fits (a : Assignment) : Prop where
  first : a.first.Fits
  rest : ∀ part ∈ a.rest, part.Fits
  literal : a.literal.Fits
  noInclude : ∀ c : Cursor, c.pos = 0 → (Cursor.startsWithKeyword (utf8 a.text) "include" c).1 = .ok false

end Assignment

def chain : List String → ConfigValue F → ConfigValue F
  | [], value => value
  | name :: rest, value => .object [(name, chain rest value)]

theorem insertDotted_chain (ns : List String) (nm : String) {v : ConfigValue F} :
    .object (insertDotted [] (nm :: ns) v) = chain (nm :: ns) v := by
  induction ns generalizing nm with
  | nil =>
    cases v <;> rfl
  | cons next rest ih =>
    rw [chain, ← ih next]
    rfl

variable (host : Host F)

theorem bytes_assignment (a : Assignment) :
    utf8 a.text = (keyChars a.first a.rest).flatMap utf8EncodeChar ++
      byte ' ' :: byte '=' :: byte ' ' :: a.literal.chars.flatMap utf8EncodeChar := by
  rw [Assignment.text, utf8_ofList, Assignment.chars, flatMap_append, flatMap_append, append_assoc]
  rfl

theorem length_lt_keyChars (part : KeyPart) (rest : List KeyPart) :
    rest.length < ((keyChars part rest).flatMap utf8EncodeChar).length + 1 := by
  induction rest generalizing part with
  | nil => exact Nat.succ_pos _
  | cons next rest ih =>
    have tail := ih next
    have dot : (utf8EncodeChar '.').length = 1 := rfl
    rw [keyChars, flatMap_append, flatMap_cons, length_append, length_append, dot, length_cons]
    omega

theorem KeyPart.starts_keyChars {part : KeyPart} (fits : part.Fits) (rest : List KeyPart) :
    ∃ b more, (keyChars part rest).flatMap utf8EncodeChar = b :: more ∧ startsPart b := by
  obtain ⟨b, more, shape, starts⟩ := KeyPart.starts fits
  cases rest with
  | nil => exact ⟨b, more, shape, starts⟩
  | cons next rest =>
    rw [keyChars, flatMap_append, shape]
    exact ⟨b, _, rfl, starts⟩

namespace Cursor

variable {src post : List UInt8} {c : Cursor}

theorem parseKeyPart_leaves {part : KeyPart} (fits : part.Fits) {b : UInt8}
    (left : src.drop c.pos = part.chars.flatMap utf8EncodeChar ++ b :: post) (separator : isKeyByte b = false)
    (notQuote : b ≠ quote) : Leaves src (parseKeyPart src) c part.name (b :: post) := by
  cases part with
  | plain nm =>
    obtain ⟨ne, keyBytes⟩ := fits
    have bs : src.drop c.pos = utf8 nm ++ b :: post := by
      rw [left, utf8_eq_flatMap, KeyPart.chars]
    obtain ⟨first, rest, shape⟩ := exists_cons_of_ne_nil (utf8_ne_nil ne)
    refine (peek_leaves bs).bind fun c₁ left₁ => ?_
    have unquoted : (utf8 nm ++ b :: post).head? ≠ some quote := by
      rw [shape]
      intro eq
      have k := keyBytes first (by rw [shape]; exact mem_cons_self)
      rw [Option.some.inj eq] at k
      exact absurd k (by decide)
    rw [if_neg unquoted]
    refine Gives.here ?_
    have enough := length_lt_rounds left₁
    rw [length_append] at enough
    refine Leaves.bind (scan_leaves keyBytes ?_ left₁ (by omega)) fun c₂ left₂ => Gives.here ?_
    · rintro _ ⟨⟩
      exact separator
    · rw [if_neg fun eq => ?_]
      · refine (slice_leaves left₁ left₂ (cons_ne_nil _ _)).bind fun c₃ left₃ => ?_
        rw [ofUtf8_utf8]
        exact ⟨_, _, rfl, rfl, left₃⟩
      · rw [eq, left₂, shape] at left₁
        have lengths := congrArg List.length left₁
        simp only [length_append, length_cons] at lengths
        omega
  | literal written =>
    obtain ⟨more, start⟩ := written.bytes_start
    refine (peek_leaves left).bind fun c₁ left₁ => ?_
    rw [if_pos (by rw [KeyPart.chars, start]; rfl)]
    exact parseString_literal fits left₁ (by simpa using notQuote)

theorem skipWsInline_leaves {front : List UInt8} (blank : ∀ b ∈ front, b = byte ' ') {b : UInt8}
    (left : src.drop c.pos = front ++ b :: post) (other : ¬ (b = byte ' ' ∨ b = byte '\t')) :
    Leaves src (skipWsInline src) c () (b :: post) := by
  have enough := length_lt_rounds left
  rw [length_append] at enough
  refine scan_leaves (fun b mem => by rw [blank b mem]; rfl) ?_ left (by omega)
  rintro _ ⟨⟩
  simpa using other

theorem skipWsInline_at {b : UInt8} (left : src.drop c.pos = b :: post) (starts : startsPart b) :
    Leaves src (skipWsInline src) c () (b :: post) := by
  have here : src.drop c.pos = [] ++ b :: post := left
  refine skipWsInline_leaves (fun _ mem => absurd mem not_mem_nil) here ?_
  rintro (eq | eq)
  · exact startsPart_ne starts (by decide) eq
  · exact startsPart_ne starts (by decide) eq

theorem skipWsInline_blank {b : UInt8} (left : src.drop c.pos = byte ' ' :: b :: post)
    (other : ¬ (b = byte ' ' ∨ b = byte '\t')) : Leaves src (skipWsInline src) c () (b :: post) := by
  have blank : src.drop c.pos = [byte ' '] ++ b :: post := left
  exact skipWsInline_leaves (fun _ mem => mem_singleton.mp mem) blank other

theorem skipWsAndComments_at {b : UInt8} (left : src.drop c.pos = b :: post) (starts : startsPart b) :
    Leaves src (skipWsAndComments src (rounds src)) c () (b :: post) := by
  have notBlank : ¬ (b = byte ' ' ∨ b = byte '\t' ∨ b = byte '\n' ∨ b = byte '\r') := by
    rintro (eq | eq | eq | eq)
    all_goals exact startsPart_ne starts (by decide) eq
  have notSlash : decide (b = byte '/') = false := decide_eq_false (startsPart_ne starts (by decide))
  refine (peek_leaves left).bind fun c₁ left₁ => ?_
  dsimp only [List.head?_cons]
  rw [if_neg notBlank, if_neg (startsPart_ne starts (by decide)), notSlash]
  exact ⟨_, _, rfl, rfl, left₁⟩

theorem skipWsAndComments_end (left : src.drop c.pos = []) : Leaves src (skipWsAndComments src (rounds src)) c () [] :=
  (peek_leaves left).bind fun _ left₁ => ⟨_, _, rfl, rfl, left₁⟩

/-- A part of a key is read, and what follows decides whether there are more. -/
theorem parseKey_step {part : KeyPart} (fits : part.Fits) {d : UInt8} {tail : List UInt8}
    (left : src.drop c.pos = part.chars.flatMap utf8EncodeChar ++ d :: tail) (separator : isKeyByte d = false)
    (notQuote : d ≠ quote) {rounds : Nat} {ns names : List String}
    (next : ∀ c', src.drop c'.pos = d :: tail →
      Leaves src (if some d = some (byte '.') then do advance src 1; parseKey src rounds (ns ++ [part.name])
        else pure (ns ++ [part.name])) c' names post) :
    Leaves src (parseKey src (rounds + 1) ns) c names post := by
  obtain ⟨b, more, shape, starts⟩ := KeyPart.starts fits
  have start := left
  rw [shape, cons_append] at start
  refine (skipWsInline_at start starts).bind fun c₁ left₁ => ?_
  rw [← cons_append, ← shape] at left₁
  exact (parseKeyPart_leaves fits left₁ separator notQuote).bind fun c₂ left₂ => (peek_leaves left₂).bind next

theorem parseKey_leaves {part : KeyPart} {rest : List KeyPart} (fits : part.Fits) (others : ∀ other ∈ rest, other.Fits)
    {rounds : Nat} (enough : rest.length < rounds) (ns : List String)
    (left : src.drop c.pos = (keyChars part rest).flatMap utf8EncodeChar ++ byte ' ' :: post) :
    Leaves src (parseKey src rounds ns) c (ns ++ part.name :: rest.map KeyPart.name) (byte ' ' :: post) := by
  induction rest generalizing part rounds ns c with
  | nil =>
    obtain _ | rounds := rounds
    · cases enough
    exact parseKey_step fits left (by decide) (by decide) fun c₁ left₁ => ⟨_, _, rfl, rfl, left₁⟩
  | cons second rest ih =>
    obtain _ | rounds := rounds
    · cases enough
    obtain ⟨secondFits, later⟩ := forall_mem_cons.mp others
    have split : src.drop c.pos = part.chars.flatMap utf8EncodeChar ++
        byte '.' :: ((keyChars second rest).flatMap utf8EncodeChar ++ byte ' ' :: post) := by
      rw [left, keyChars, flatMap_append, flatMap_cons, append_assoc]
      rfl
    refine parseKey_step fits split (by decide) (by decide) fun c₁ dot => ?_
    rw [if_pos rfl]
    refine (advance_byte dot).bind fun c₂ left₂ => ?_
    have tail := ih secondFits later (Nat.lt_of_succ_lt_succ enough) (ns ++ [part.name]) left₂
    rwa [append_assoc, singleton_append] at tail

variable (parseF64 : String → Option F)

theorem parseValue_reads {literal : Literal} (fits : literal.Fits) {calls : Nat}
    (left : src.drop c.pos = literal.chars.flatMap utf8EncodeChar) :
    Reads src (parseValue src parseF64 (calls + 1)) c (.string literal.read) [] := by
  obtain ⟨more, start⟩ := literal.bytes_start
  refine (skipWsInline_at (left.trans start) rfl).code fun c₁ left₁ => (peek_leaves left₁).code fun c₂ left₂ => ?_
  dsimp only [List.head?_cons]
  rw [if_pos rfl]
  rw [← start, ← append_nil (List.flatMap _ _)] at left₂
  exact (parseString_literal fits left₂ (by simp)).code fun c₃ left₃ => ⟨c₃, rfl, left₃⟩

theorem parseAssignment_reads (body : Code F (Entries F)) {literal : Literal} (fits : literal.Fits) {calls : Nat}
    (left : src.drop c.pos = byte '=' :: byte ' ' :: literal.chars.flatMap utf8EncodeChar) :
    Reads src (parseAssignment src body (parseValue src parseF64 (calls + 1))) c (.string literal.read, false) [] := by
  obtain ⟨more, start⟩ := literal.bytes_start
  refine (peek_leaves left).code fun c₁ left₁ => ?_
  dsimp only [List.head?_cons]
  rw [if_neg (by decide)]
  have noAppend : Leaves src (followedBy src (byte '=' = byte '+') (byte '=')) c₁ false _ := ⟨_, _, rfl, rfl, left₁⟩
  refine noAppend.code fun c₂ left₂ => ?_
  rw [if_neg Bool.false_ne_true, if_pos (.inl rfl)]
  refine (advance_byte left₂).code fun c₃ left₃ => ?_
  rw [start] at left₃
  refine (skipWsInline_blank left₃ (by decide)).code fun c₄ left₄ => ?_
  rw [← start] at left₄
  exact (parseValue_reads parseF64 fits left₄).bind fun c₅ left₅ => ⟨c₅, rfl, left₅⟩

theorem parseObjectBody_reads {a : Assignment} (fits : a.Fits) (whole : utf8 a.text = src) {calls : Nat}
    (left : src.drop c.pos = src) :
    Reads src (parseObjectBody src parseF64 (calls + 2) 0 []) c (insertDotted [] a.names (.string a.literal.read)) [] := by
  have bs := whole.symm.trans (bytes_assignment a)
  obtain ⟨b, more, shape, starts⟩ := KeyPart.starts_keyChars fits.first a.rest
  have start := bs
  rw [shape, cons_append] at start
  have notSeparator : ¬ (b = byte ',' ∨ b = byte '\n' ∨ b = byte ';') := by
    rintro (eq | eq | eq)
    all_goals exact startsPart_ne starts (by decide) eq
  refine (skipWsAndComments_at (left.trans start) starts).code fun c₁ left₁ => (peek_leaves left₁).code fun c₂ left₂ => ?_
  dsimp only [List.head?_cons]
  rw [if_neg (startsPart_ne starts (by decide)), if_neg notSeparator]
  have first : c₂.pos = 0 := by
    have length := length_left (left₂.trans start.symm)
    have long := congrArg List.length start
    rw [length_cons] at long
    omega
  have noInclude : Leaves src (startsWithKeyword src "include") c₂ false src := by
    obtain ⟨flag, c₃, run, pos, -⟩ : Gives (startsWithKeyword src "include") c₂ _ := startsWithKeyword_gives "include"
    have none := fits.noInclude c₂ first
    rw [whole, run] at none
    exact ⟨flag, c₃, run, Except.ok.inj none, by rw [pos, first, drop_zero]⟩
  refine noInclude.code fun c₃ left₃ => ?_
  rw [if_neg Bool.false_ne_true]
  have counted : Leaves src (keyRounds src) c₃ (src.length + 1) src := ⟨_, _, rfl, by rw [← length_left left₃], left₃⟩
  refine counted.code fun c₄ left₄ => ?_
  have enough : a.rest.length < src.length + 1 := by
    have parts := length_lt_keyChars a.first a.rest
    rw [bs, length_append]
    omega
  refine (parseKey_leaves fits.first fits.rest enough [] (left₄.trans bs)).code fun c₅ left₅ => ?_
  refine (skipWsInline_blank left₅ (by decide)).code fun c₆ left₆ => ?_
  refine (parseAssignment_reads parseF64 _ fits.literal left₆).bind fun c₇ left₇ => ?_
  exact (skipWsAndComments_end left₇).code fun c₈ left₈ => (peek_leaves left₈).code fun c₉ left₉ => ⟨c₉, rfl, left₉⟩

theorem parseRoot_reads {a : Assignment} (fits : a.Fits) (whole : utf8 a.text = src) :
    Reads src (parseRoot src parseF64) start (chain a.names (.string a.literal.read)) [] := by
  have bs := whole.symm.trans (bytes_assignment a)
  obtain ⟨b, more, shape, starts⟩ := KeyPart.starts_keyChars fits.first a.rest
  rw [shape, cons_append] at bs
  have left : src.drop start.pos = _ := bs
  refine (skipWsAndComments_at left starts).code fun c₁ left₁ => ?_
  have body : Reads src (parseRootBody src parseF64) c₁ (insertDotted [] a.names (.string a.literal.read)) [] := by
    refine (peek_leaves left₁).code fun c₂ left₂ => ?_
    rw [List.head?_cons, if_neg fun eq => startsPart_ne starts (by decide) (Option.some.inj eq)]
    have counted : Leaves src (callsFrom src) c₂ _ _ := ⟨_, _, rfl, rfl, left₂⟩
    exact counted.code fun c₃ left₃ => parseObjectBody_reads parseF64 fits whole (left₃.trans bs.symm)
  refine body.bind fun c₂ left₂ => (skipWsAndComments_end left₂).code fun c₃ left₃ => ?_
  have ended : Leaves src (atEnd src) c₃ true [] := ⟨_, _, rfl, decide_eq_true (drop_eq_nil_iff.mp left₃), left₃⟩
  refine ended.code fun c₄ left₄ => ?_
  rw [if_pos rfl, Assignment.names, ← insertDotted_chain]
  exact ⟨c₄, rfl, left₄⟩

end Cursor

theorem document_assignment {a : Assignment} (fits : a.Fits) :
    document host a.text = .ok (chain a.names (.string a.literal.read)) := by
  obtain ⟨c, read, -⟩ := Cursor.parseRoot_reads host.parseF64 fits rfl
  rw [document, read]
  rfl

/-- The returned tree has the content as a string at the key. -/
def Yields (a : Assignment) : Prop :=
  ∃ root, parse host a.text = .ok root ∧ root.find (a.names.map .key) = some (.string a.literal.content)

/-- The content is read as it is and the second pass leaves it so: it is no placeholder, or one of itself; or
what is read is a placeholder for a variable that has the content as its value. -/
def Kept (env : String → Option String) (a : Assignment) : Prop :=
  a.literal.Readable ∧
      (¬ Placeholder a.literal.content ∨ ∃ path, a.literal.content = subPrefix ++ path ∧ segments path = a.names) ∨
    ∃ name, a.literal.read = subOptPrefix ++ name ∧ env name = some a.literal.content

theorem find_chain (ns : List String) (v : ConfigValue F) : (chain ns v).find (ns.map .key) = some v := by
  induction ns with
  | nil => rfl
  | cons nm rest ih =>
    rw [map_cons, ConfigValue.find, chain, ConfigValue.child, KeyList.get_cons, if_pos rfl]
    exact ih

theorem find_chain_string {ns p : List String} {s t : String} :
    (chain ns (.string s) : ConfigValue F).find (p.map .key) = some (.string t) ↔ p = ns ∧ s = t := by
  induction ns generalizing p with
  | nil =>
    cases p with
    | nil => simp [chain, ConfigValue.find]
    | cons segment rest => simp [chain, ConfigValue.find, ConfigValue.child]
  | cons nm ns ih =>
    cases p with
    | nil => simp [chain, ConfigValue.find]
    | cons segment rest =>
      rw [map_cons, ConfigValue.find, chain, ConfigValue.child, KeyList.get_cons]
      by_cases eq : segment = nm
      · rw [if_pos eq, Option.bind_some, ih, eq]
        simp
      · rw [if_neg eq]
        simp [KeyList.get, eq]

theorem resolveIn_chain (env : String → Option String) (r : ConfigValue F) (ns : List String) (v : ConfigValue F) :
    resolveIn env r (chain ns v) = (resolveIn env r v).map (chain ns) := by
  induction ns with
  | nil =>
    rw [chain]
    cases resolveIn env r v <;> rfl
  | cons nm rest ih =>
    rw [chain, resolveIn, resolveEntries, ih]
    cases resolveIn env r v <;> rfl

theorem yields_iff_resolved {a : Assignment} (fits : a.Fits) :
    Yields host a ↔
      resolveString host.env (chain a.names (.string a.literal.read) : ConfigValue F) a.literal.read =
        .ok (.string a.literal.content) := by
  have parsed : parse host a.text =
      ((resolveString host.env (chain a.names (.string a.literal.read)) a.literal.read).map (chain a.names)).mapError
        .failed := by
    rw [parse_eq_resolved, document_assignment host fits]
    change (resolveSubstitutions _ _).mapError _ = _
    rw [resolveSubstitutions, resolveIn_chain, resolveIn]
  unfold Yields
  rw [parsed]
  cases resolveString host.env (chain a.names (.string a.literal.read)) a.literal.read with
  | error error => simp [Except.map, Except.mapError]
  | ok v =>
    constructor
    · rintro ⟨r, eq, found⟩
      cases eq
      rw [find_chain, Option.some.injEq] at found
      rw [found]
    · intro eq
      cases eq
      exact ⟨_, rfl, find_chain _ _⟩

theorem prefixes_apart (p nm : String) : subPrefix ++ p ≠ subOptPrefix ++ nm := by
  intro eq
  have chars := congrArg String.toList eq
  simp [subPrefix, subOptPrefix] at chars

section Resolved

variable {host : Host F} {a : Assignment}

variable (host a) in
def Resolved : Prop :=
  resolveString host.env (chain a.names (.string a.literal.read) : ConfigValue F) a.literal.read =
    .ok (.string a.literal.content)

/-- Only the key itself holds what a required placeholder stands for. -/
theorem resolved_required {p : String} (shape : a.literal.read = subPrefix ++ p) :
    Resolved host a ↔ Kept host.env a := by
  rw [Resolved, Kept, ← Literal.read_eq_content_iff, shape, resolveString_required, lookupPath_eq_find, ← shape]
  constructor
  · intro res
    cases found : (chain a.names (.string a.literal.read) : ConfigValue F).find ((segments p).map .key) with
    | none =>
      rw [found] at res
      cases res
    | some v =>
      rw [found] at res
      cases res
      obtain ⟨eq, kept⟩ := find_chain_string.mp found
      exact .inl ⟨kept, .inr ⟨p, kept.symm.trans shape, eq⟩⟩
  · rintro (⟨kept, plain | ⟨other, itself, eq⟩⟩ | ⟨nm, optional, -⟩)
    · exact absurd ⟨p, .inl (kept.symm.trans shape)⟩ plain
    · cases (String.append_right_inj _).mp ((shape.symm.trans kept).trans itself)
      rw [find_chain_string.mpr ⟨eq, kept⟩]
      rfl
    · exact absurd (shape.symm.trans optional) (prefixes_apart p nm)

theorem resolved_optional {nm : String} (shape : a.literal.read = subOptPrefix ++ nm) :
    Resolved host a ↔ Kept host.env a := by
  rw [Resolved, Kept, ← Literal.read_eq_content_iff, shape, resolveString_optional, ← shape]
  constructor
  · intro res
    cases found : host.env nm with
    | none =>
      rw [found] at res
      cases res
    | some v =>
      rw [found] at res
      cases res
      exact .inr ⟨nm, shape, found⟩
  · rintro (⟨kept, plain | ⟨other, itself, -⟩⟩ | ⟨other, optional, found⟩)
    · exact absurd ⟨nm, .inr (kept.symm.trans shape)⟩ plain
    · exact absurd (itself.symm.trans (kept.symm.trans shape)) (prefixes_apart other nm)
    · cases (String.append_right_inj _).mp (shape.symm.trans optional)
      rw [found]
      rfl

theorem resolved_plain (plain : ¬ Placeholder a.literal.read) : Resolved host a ↔ Kept host.env a := by
  rw [Resolved, Kept, ← Literal.read_eq_content_iff, resolveString_plain _ _ plain]
  constructor
  · intro res
    have kept : a.literal.read = a.literal.content := ConfigValue.string.inj (Except.ok.inj res)
    exact .inl ⟨kept, .inl (kept ▸ plain)⟩
  · rintro (⟨kept, -⟩ | ⟨nm, optional, -⟩)
    · rw [kept]
    · exact absurd ⟨nm, .inr optional⟩ plain

end Resolved

/-- A literal is returned as it was written exactly when its bytes are its characters and it is not taken for
a substitution of something else. -/
theorem string_fidelity_iff (host : Host F) (a : Assignment) (fits : a.Fits) : Yields host a ↔ Kept host.env a := by
  refine (yields_iff_resolved host fits).trans ?_
  by_cases placeholder : Placeholder a.literal.read
  · obtain ⟨path, shape | shape⟩ := placeholder
    · exact resolved_required shape
    · exact resolved_optional shape
  · exact resolved_plain placeholder

def toK (literal : Literal) : Assignment := ⟨.plain "k", [], literal⟩

theorem toK_fits {literal : Literal} (fits : literal.Fits) : (toK literal).Fits := by
  have nm : utf8 "k" = [byte 'k'] := by decide +kernel
  have keyBytes : ∀ b ∈ utf8 "k", isKeyByte b := by
    rw [nm]
    exact forall_mem_singleton.mpr (by decide)
  refine ⟨⟨by decide, keyBytes⟩, fun part mem => absurd mem not_mem_nil, fits, ?_⟩
  have bs := bytes_assignment (toK literal)
  have k : (keyChars (.plain "k") []).flatMap utf8EncodeChar = [byte 'k'] := (utf8_eq_flatMap "k").symm.trans nm
  have word : utf8 "include" = byte 'i' :: utf8 "nclude" := by decide +kernel
  have apart : (byte 'i' == byte 'k') = false := by decide
  intro c first
  have left : (utf8 (toK literal).text).drop c.pos = utf8 (toK literal).text := by rw [first, drop_zero]
  obtain ⟨flag, c', run, eq, -⟩ := Cursor.startsWith_leaves (left.trans bs) (word ▸ cons_ne_nil _ _)
  rw [toK, k, word, cons_append, List.isPrefixOf, apart, Bool.false_and] at eq
  rw [Cursor.startsWithKeyword]
  dsimp only [Bind.bind]
  rw [run, eq]
  rfl

theorem string_fidelity_path : Yields bareHost (toK (.quoted "C:\\\"x\"")) := by
  refine (string_fidelity_iff bareHost (toK (.quoted "C:\\\"x\"")) (toK_fits (by decide))).mpr (.inl ⟨?_, .inl ?_⟩)
  · decide +kernel
  · decide +kernel

/-- An accented letter comes back as its two bytes, and a literal with the prefix of a placeholder is looked up. -/
theorem string_mangled :
    (toK (.quoted "é")).Fits ∧ parse bareHost (toK (.quoted "é")).text = .ok (.object [("k", .string "Ã©")]) ∧
      ¬ Yields bareHost (toK (.quoted "é")) ∧
    (toK (.tripled "__atomr_sub::x")).Fits ∧
      parse bareHost (toK (.tripled "__atomr_sub::x")).text = .error (.failed (.missingSubstitution "x")) ∧
      ¬ Yields bareHost (toK (.tripled "__atomr_sub::x")) := by
  have accented : parse bareHost (toK (.quoted "é")).text = .ok (.object [("k", .string "Ã©")]) := by decide +kernel
  have looked : parse bareHost (toK (.tripled "__atomr_sub::x")).text = .error (.failed (.missingSubstitution "x")) := by
    decide +kernel
  refine ⟨toK_fits (by decide +kernel), accented, ?_, toK_fits (by decide +kernel), looked, ?_⟩
  · rintro ⟨root, parsed, found⟩
    rw [accented] at parsed
    cases parsed
    exact absurd found (by decide +kernel)
  · rintro ⟨root, parsed, -⟩
    rw [looked] at parsed
    cases parsed

end Atomr.Config
