import Atomr.Config.Hocon
import Atomr.Library.Asking

/-! The parser of documents as it moves its cursor.

The text is indexed, and an index or a slice that is not inside it is a fault of its own. Every look at a
byte and every move is counted. A loop counts down a number of rounds and has a fault for when they are used
up. An inclusion is a question to whoever runs the parser.
-/

namespace Atomr.Config

open Library Text

structure Cursor where
  pos : Nat
  line : Nat
  col : Nat
  steps : Nat
  deriving DecidableEq, Repr

inductive Fault where
  | failed (error : HoconError)
  | outside
  | stuck
  deriving DecidableEq, Repr

def Step (α : Type) : Type := Cursor → Except Fault α × Cursor

instance : Monad Step where
  pure value := fun c => (.ok value, c)
  bind first next := fun c => match first c with
    | (.ok value, c) => next value c
    | (.error fault, c) => (.error fault, c)

def Code (F α : Type) : Type := Cursor → Asking String (ConfigValue F) (Except Fault α × Cursor)

instance (F : Type) : Monad (Code F) where
  pure value := fun c => .done (.ok value, c)
  bind first next := fun c => (first c).bind fun
    | (.ok value, c) => next value c
    | (.error fault, c) => .done (.error fault, c)

namespace Cursor

def start : Cursor := ⟨0, 1, 1, 0⟩

def tick (c : Cursor) (n : Nat) : Cursor := { c with steps := c.steps + n }

def failAt {α : Type} (error : Cursor → HoconError) : Step α := fun c => (.error (.failed (error c)), c)

def giveUp {α : Type} : Step α := fun c => (.error .stuck, c)

def here : Step Nat := fun c => (.ok c.pos, c)

def code {F α : Type} (step : Step α) : Code F α := fun c => .done (step c)

def doInclude {F : Type} (path : String) : Code F (ConfigValue F) := fun c => .ask path fun value => .done (.ok value, c)

section Text

variable (src : List UInt8)

def peek : Step (Option UInt8) := fun c => (.ok src[c.pos]?, c.tick 1)

def peekAt (off : Nat) : Step (Option UInt8) := fun c => (.ok src[c.pos + off]?, c.tick 1)

/-- Whether a byte comes next, looked at only where the test holds. -/
def followedBy (test : Bool) (b : UInt8) : Step Bool :=
  if test then do
    let next ← peekAt src 1
    pure (next = some b)
  else pure false

/-- The byte at the cursor, which has to be there. -/
def index : Step UInt8 := fun c => match src[c.pos]? with
  | some b => (.ok b, c.tick 1)
  | none => (.error .outside, c)

def slice (first last : Nat) : Step (List UInt8) := fun c =>
  if first ≤ last ∧ last ≤ src.length then (.ok ((src.drop first).take (last - first)), c.tick (last - first))
  else (.error .outside, c)

def startsWith (needle : List UInt8) : Step Bool := do
  let pos ← here
  if pos + needle.length ≤ src.length then do
    let bytes ← slice src pos (pos + needle.length)
    pure (bytes == needle)
  else pure false

def startsWithKeyword (kw : String) : Step Bool := do
  if ← startsWith src (utf8 kw) then
    match ← peekAt src (utf8 kw).length with
    | none => pure true
    | some c => pure (!isAsciiAlphanumeric c && c ≠ byte '_')
  else pure false

def pass (b : UInt8) : Step Unit := fun c =>
  (.ok (), if b = byte '\n' then { c with pos := c.pos + 1, line := c.line + 1, col := 1 }
    else { c with pos := c.pos + 1, col := c.col + 1 })

def atEnd : Step Bool := fun c => (.ok (src.length ≤ c.pos), c.tick 1)

def advance : Nat → Step Unit
  | 0 => pure ()
  | n + 1 => do
    if ← atEnd src then pure ()
    else do
      let b ← index src
      pass b
      advance n

def scan (test : UInt8 → Step Bool) : (rounds : Nat) → Step Unit
  | 0 => giveUp
  | rounds + 1 => do
    match ← peek src with
    | none => pure ()
    | some c =>
      if ← test c then do
        advance src 1
        scan test rounds
      else pure ()

/-- As many rounds as a loop can need that takes a byte in each. -/
def rounds : Nat := src.length + 1

def skipWsInline : Step Unit := scan src (fun c => pure (c = byte ' ' || c = byte '\t')) (rounds src)

def skipLine : Step Unit := scan src (fun c => pure (c ≠ byte '\n')) (rounds src)

/-- To the end of a block comment. It is not there if the text ends before. -/
def skipBlock : (rounds : Nat) → Step Bool
  | 0 => giveUp
  | rounds + 1 => do
    let first ← peek src
    if ← followedBy src (first = some (byte '*')) (byte '/') then pure true
    else
      match ← peek src with
      | none => pure false
      | some _ => do
        advance src 1
        skipBlock rounds

def skipWsAndComments : (rounds : Nat) → Step Unit
  | 0 => giveUp
  | rounds + 1 => do
    match ← peek src with
    | none => pure ()
    | some c =>
      if c = byte ' ' ∨ c = byte '\t' ∨ c = byte '\n' ∨ c = byte '\r' then do
        advance src 1
        skipWsAndComments rounds
      else if c = byte '#' then do
        skipLine src
        skipWsAndComments rounds
      else if ← followedBy src (c = byte '/') (byte '/') then do
        skipLine src
        skipWsAndComments rounds
      else if ← followedBy src (c = byte '/') (byte '*') then do
        advance src 2
        if ← skipBlock src (Cursor.rounds src) then do
          advance src 2
          skipWsAndComments rounds
        else pure ()
      else pure ()

/-- To three quotes, or to where no three bytes are left. -/
def tripleLoop : (rounds : Nat) → Step Unit
  | 0 => giveUp
  | rounds + 1 => do
    let pos ← here
    if pos + 2 < src.length then do
      let bytes ← slice src pos (pos + 3)
      if bytes = [quote, quote, quote] then pure ()
      else do
        let b ← index src
        pass b
        tripleLoop rounds
    else pure ()

def stringLoop : (rounds : Nat) → (out : String) → Step String
  | 0, _ => giveUp
  | rounds + 1, out => do
    match ← peek src with
    | none => failAt fun c => .unterminated "string" c.line
    | some c =>
      if c = byte '\n' then failAt fun c => .unterminated "string" c.line
      else if c = quote then do
        advance src 1
        pure out
      else if c = backslash then do
        advance src 1
        match ← peek src with
        | none => failAt fun c => .unterminated "string-escape" c.line
        | some next => do
          advance src 1
          stringLoop rounds (out.push (unescape next))
      else do
        advance src 1
        stringLoop rounds (out.push (charOf c))

def tripleString : Step String := do
  let first ← here
  tripleLoop src (rounds src)
  let last ← here
  if src.length ≤ last + 2 then failAt fun c => .unterminated "string" c.line
  else do
    let bytes ← slice src first last
    match ofUtf8 bytes with
    | some s => do
      advance src 3
      pure s
    | none => failAt fun c => .unterminated "string" c.line

def parseString : Step String := do
  if ← startsWith src [quote, quote, quote] then do
    advance src 3
    tripleString src
  else do
    let next ← peek src
    if next ≠ some quote then do
      let next ← peek src
      failAt fun c => .expected "\x22" (found next) c.line
    else do
      advance src 1
      stringLoop src (rounds src) ""

def parseKeyPart : Step String := do
  if (← peek src) = some quote then parseString src
  else do
    let first ← here
    scan src (fun c => pure (isKeyByte c)) (rounds src)
    let last ← here
    if first = last then do
      let next ← peek src
      failAt fun c => .expected "key" (found next) c.line
    else do
      let bytes ← slice src first last
      match ofUtf8 bytes with
      | some part => pure part
      | none => failAt fun c => .unexpected (Char.ofNat 0) c.line c.col

def parseKey : (rounds : Nat) → (parts : List String) → Step (List String)
  | 0, _ => giveUp
  | rounds + 1, parts => do
    skipWsInline src
    let part ← parseKeyPart src
    if (← peek src) = some (byte '.') then do
      advance src 1
      parseKey rounds (parts ++ [part])
    else pure (parts ++ [part])

variable {F : Type}

def parsePlaceholder (marker : String) : Step (ConfigValue F) := do
  let first ← here
  scan src (fun c => pure (c ≠ byte '\x7d')) (rounds src)
  if (← peek src) ≠ some (byte '\x7d') then failAt fun c => .unterminated "substitution" c.line
  else do
    let last ← here
    let bytes ← slice src first last
    match ofUtf8 bytes with
    | some key => do
      advance src 1
      pure (.string (marker ++ trim key))
    | none => failAt fun c => .unterminated "substitution" c.line

def parseSubstitution : Step (ConfigValue F) := do
  advance src 1
  advance src 1
  if (← peek src) = some (byte '?') then do
    advance src 1
    parsePlaceholder src subOptPrefix
  else parsePlaceholder src subPrefix

def inScalar (c : UInt8) : Step Bool := do
  if c = byte ',' ∨ c = byte '\n' ∨ c = byte '\x7d' ∨ c = byte ']' ∨ c = byte ';' ∨ c = byte '#' then pure false
  else do
    let comment ← followedBy src (c = byte '/') (byte '/')
    pure !comment

variable (parseF64 : String → Option F)

def parseUnquotedScalar : Step (ConfigValue F) := do
  let first ← here
  scan src (inScalar src) (rounds src)
  let last ← here
  let bytes ← slice src first last
  match ofUtf8 bytes with
  | none => failAt fun c => .unexpected (Char.ofNat 0) c.line c.col
  | some text =>
    let raw := trim text
    if raw = "" then failAt fun c => .expected "value" "" c.line
    else pure (scalarFromStr parseF64 raw)

/-- What follows a key, and whether it is appended. -/
def parseAssignment (body : Code F (Entries F)) (value : Code F (ConfigValue F)) : Code F (ConfigValue F × Bool) := do
  match ← code (peek src) with
  | none => code (failAt fun c => .unterminated "assignment" c.line)
  | some c =>
    if c = byte '\x7b' then do
      code (advance src 1)
      let inner ← body
      pure (.object inner, false)
    else if ← code (followedBy src (c = byte '+') (byte '=')) then do
      code (advance src 2)
      code (skipWsInline src)
      let v ← value
      pure (v, true)
    else if c = byte '=' ∨ c = byte ':' then do
      code (advance src 1)
      code (skipWsInline src)
      let v ← value
      pure (v, false)
    else code (failAt fun cursor => .expected "= or : or \x7b or +=" (found (some c)) cursor.line)

/-- The rounds that are enough for the calls of each other from here. -/
def callsFrom : Step Nat := fun c => (.ok (2 * (src.length - c.pos) + 2), c)

def keyRounds : Step Nat := fun c => (.ok (src.length - c.pos + 1), c)

mutual

def parseObjectBody (parseF64 : String → Option F) :
    (calls : Nat) → (terminator : UInt8) → (obj : Entries F) → Code F (Entries F)
  | 0, _, _ => code giveUp
  | calls + 1, terminator, obj => do
    code (skipWsAndComments src (rounds src))
    match ← code (peek src) with
    | none => if terminator ≠ 0 then code (failAt fun c => .unterminated "object" c.line) else pure obj
    | some c =>
      if c = terminator then do
        code (advance src 1)
        pure obj
      else if c = byte ',' ∨ c = byte '\n' ∨ c = byte ';' then do
        code (advance src 1)
        parseObjectBody parseF64 calls terminator obj
      else if ← code (startsWithKeyword src "include") then do
        code (advance src 7)
        code (skipWsInline src)
        let path ← code (parseString src)
        match ← doInclude path with
        | .object child => parseObjectBody parseF64 calls terminator (deepMerge obj child)
        | _ => code (failAt fun _ => .includeError ("included file `" ++ path ++ "` did not resolve to an object"))
      else do
        let keyRounds ← code (keyRounds src)
        let key ← code (parseKey src keyRounds [])
        code (skipWsInline src)
        let assigned ← parseAssignment src (parseObjectBody parseF64 calls (byte '\x7d') []) (parseValue parseF64 calls)
        parseObjectBody parseF64 calls terminator (assign obj key assigned)

def parseValue (parseF64 : String → Option F) : (calls : Nat) → Code F (ConfigValue F)
  | 0 => code giveUp
  | calls + 1 => do
    code (skipWsInline src)
    match ← code (peek src) with
    | none => code (failAt fun c => .unterminated "value" c.line)
    | some c =>
      if c = quote then do
        let s ← code (parseString src)
        pure (.string s)
      else if c = byte '[' then do
        code (advance src 1)
        parseArray parseF64 calls []
      else if c = byte '\x7b' then do
        code (advance src 1)
        let inner ← parseObjectBody parseF64 calls (byte '\x7d') []
        pure (.object inner)
      else if ← code (followedBy src (c = byte '$') (byte '\x7b')) then code (parseSubstitution src)
      else code (parseUnquotedScalar src parseF64)

def parseArray (parseF64 : String → Option F) : (calls : Nat) → (items : List (ConfigValue F)) → Code F (ConfigValue F)
  | 0, _ => code giveUp
  | calls + 1, items => do
    code (skipWsAndComments src (rounds src))
    match ← code (peek src) with
    | none => code (failAt fun c => .unterminated "array" c.line)
    | some c =>
      if c = byte ']' then do
        code (advance src 1)
        pure (.array items)
      else if c = byte ',' ∨ c = byte '\n' then do
        code (advance src 1)
        parseArray parseF64 calls items
      else do
        let v ← parseValue parseF64 calls
        parseArray parseF64 calls (items ++ [v])

end

def parseRootBody : Code F (Entries F) := do
  if (← code (peek src)) = some (byte '\x7b') then do
    code (advance src 1)
    let calls ← code (callsFrom src)
    let obj ← parseObjectBody src parseF64 calls (byte '\x7d') []
    code (skipWsAndComments src (rounds src))
    pure obj
  else do
    let calls ← code (callsFrom src)
    parseObjectBody src parseF64 calls 0 []

def parseRoot : Code F (ConfigValue F) := do
  code (skipWsAndComments src (rounds src))
  let obj ← parseRootBody src parseF64
  code (skipWsAndComments src (rounds src))
  if ← code (atEnd src) then pure (.object obj)
  else do
    let b ← code (index src)
    code (failAt fun c => .unexpected (charOf b) c.line c.col)

end Text

end Cursor

def parseText (setting : Setting F) (text : String) : Asking String (ConfigValue F) (Except Fault (ConfigValue F)) :=
  (Cursor.parseRoot (utf8 text) setting.parseF64 .start).bind fun outcome => .done do
    let root ← outcome.1
    (resolveSubstitutions setting.env root).mapError .failed

variable (host : Host F)

def answer (path : String) : Except Fault (ConfigValue F) := (host.included path).mapError .failed

/-- The document as it is written, with its substitutions. -/
def document (text : String) : Except Fault (ConfigValue F) :=
  ((Cursor.parseRoot (utf8 text) host.parseF64 .start).bind fun outcome => .done outcome.1).answered (answer host)

def parse (text : String) : Except Fault (ConfigValue F) := (parseText host.toSetting text).answered (answer host)

theorem parse_eq_resolved (text : String) :
    parse host text = document host text >>= fun root => (resolveSubstitutions host.env root).mapError .failed :=
  Asking.answered_bind (Cursor.parseRoot (utf8 text) host.parseF64 .start) (answer host) Prod.fst _

end Atomr.Config
