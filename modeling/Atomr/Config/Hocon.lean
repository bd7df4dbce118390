import Atomr.Config.Value
import Atomr.Library.Text

/-! What documents are read into, and the resolution of substitutions.

A document gives a tree of values. A substitution is left in the tree as a string with a prefix, and a second
pass over the tree replaces these strings. Floats, the variables of the environment and the files that are
included come from the host.
-/

namespace Atomr.Config

open Library Text

inductive HoconError where
  | unexpected (ch : Char) (line col : Nat)
  | unterminated (kind : String) (line : Nat)
  | missingSubstitution (key : String)
  | includeError (message : String)
  | io (path source : String)
  | expected (expected found : String) (line : Nat)
  deriving DecidableEq, Repr

structure Setting (F : Type) where
  parseF64 : String → Option F
  env : String → Option String

structure Host (F : Type) extends Setting F where
  /-- What the file at a path gives, relative to the directory of the document. -/
  included : String → Except HoconError (ConfigValue F)

abbrev byte (c : Char) : UInt8 := c.toUInt8

def quote : UInt8 := 0x22

def backslash : UInt8 := 0x5c

def charOf (c : UInt8) : Char := Char.ofNat c.toNat

def isAsciiAlphanumeric (c : UInt8) : Bool :=
  (byte '0' ≤ c && c ≤ byte '9') || (byte 'A' ≤ c && c ≤ byte 'Z') || (byte 'a' ≤ c && c ≤ byte 'z')

def found : Option UInt8 → String
  | some c => String.singleton (charOf c)
  | none => ""

def unescape (c : UInt8) : Char :=
  if c = byte 'n' then '\n' else if c = byte 't' then '\t' else if c = byte 'r' then '\r' else charOf c

def isKeyByte (c : UInt8) : Bool := isAsciiAlphanumeric c || c = byte '_' || c = byte '-'

def isWhitespace (c : Char) : Bool :=
  let n := c.toNat
  (0x09 ≤ n && n ≤ 0x0d) || n = 0x20 || n = 0x85 || n = 0xa0 || n = 0x1680 || (0x2000 ≤ n && n ≤ 0x200a) ||
    n = 0x2028 || n = 0x2029 || n = 0x202f || n = 0x205f || n = 0x3000

def trim (s : String) : String :=
  String.ofList (((s.toList.dropWhile isWhitespace).reverse.dropWhile isWhitespace).reverse)

def subPrefix : String := "__atomr_sub::"

def subOptPrefix : String := "__atomr_sub_opt::"

variable {F : Type}

def scalarFromStr (parseF64 : String → Option F) (s : String) : ConfigValue F :=
  if s = "null" then .null
  else if s = "true" then .bool true
  else if s = "false" then .bool false
  else match parseSigned (2 ^ 63) s.toList with
    | some i => .int i
    | none => match parseF64 s with
      | some f => .float f
      | none => .string s

mutual

def deepMerge : (into other : Entries F) → Entries F
  | into, [] => into
  | into, (k, v) :: rest => deepMerge (KeyList.insert k (mergeValue (KeyList.get into k) v) into) rest
termination_by structural _ other => other

/-- Two objects become one; otherwise the new value replaces the old. -/
def mergeValue : (held : Option (ConfigValue F)) → (value : ConfigValue F) → ConfigValue F
  | some (.object a), .object b => .object (deepMerge a b)
  | _, v => v
termination_by structural _ value => value

end

def insertDotted (obj : Entries F) : (key : List String) → (value : ConfigValue F) → Entries F
  | [], _ => obj
  | [key], value => KeyList.insert key (mergeValue (KeyList.get obj key) value) obj
  | key :: next :: rest, value =>
    let child := match KeyList.get obj key with
      | some (.object child) => child
      | _ => []
    KeyList.insert key (.object (insertDotted child (next :: rest) value)) obj

def appendDotted (obj : Entries F) : (key : List String) → (value : ConfigValue F) → Entries F
  | [], _ => obj
  | [key], value =>
    let items := match KeyList.get obj key with
      | some (.array items) => items
      | _ => []
    KeyList.insert key (.array (items ++ [value])) obj
  | key :: next :: rest, value =>
    let child := match KeyList.get obj key with
      | some (.object child) => child
      | _ => []
    KeyList.insert key (.object (appendDotted child (next :: rest) value)) obj

def assign (obj : Entries F) (key : List String) (assigned : ConfigValue F × Bool) : Entries F :=
  if assigned.2 then appendDotted obj key assigned.1 else insertDotted obj key assigned.1

def segment (cur : ConfigValue F) (seg : String) : Option (ConfigValue F) := cur.child (.key seg)

def segments (path : String) : List String := (path.toList.splitOn '.').map String.ofList

def lookupPath (root : ConfigValue F) (path : String) : Option (ConfigValue F) := (segments path).foldlM segment root

/-- A string is replaced as a whole when it has one of the prefixes. -/
def resolveString (env : String → Option String) (root : ConfigValue F) (s : String) :
    Except HoconError (ConfigValue F) :=
  match stripPrefix subPrefix s with
  | some rest => (lookupPath root rest).elim (.error (.missingSubstitution rest)) .ok
  | none => match stripPrefix subOptPrefix s with
    | some rest => .ok ((env rest).elim .null .string)
    | none => .ok (.string s)

mutual

def resolveIn (env : String → Option String) (root : ConfigValue F) :
    ConfigValue F → Except HoconError (ConfigValue F)
  | .string s => resolveString env root s
  | .array items => (resolveItems env root items).map .array
  | .object entries => (resolveEntries env root entries).map .object
  | .null => .ok .null
  | .bool value => .ok (.bool value)
  | .int value => .ok (.int value)
  | .float value => .ok (.float value)

def resolveItems (env : String → Option String) (root : ConfigValue F) :
    List (ConfigValue F) → Except HoconError (List (ConfigValue F))
  | [] => .ok []
  | item :: rest => do
    let first ← resolveIn env root item
    let later ← resolveItems env root rest
    .ok (first :: later)

def resolveEntries (env : String → Option String) (root : ConfigValue F) :
    Entries F → Except HoconError (Entries F)
  | [] => .ok []
  | (k, v) :: rest => do
    let first ← resolveIn env root v
    let later ← resolveEntries env root rest
    .ok ((k, first) :: later)

end

/-- The tree is resolved against itself as it was parsed. -/
def resolveSubstitutions (env : String → Option String) (v : ConfigValue F) : Except HoconError (ConfigValue F) :=
  resolveIn env v v

end Atomr.Config
