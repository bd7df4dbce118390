import Atomr.Core.Address
import Atomr.Library.Table

/-! Looking an actor up by its path.

Among the local actors only those at the top are kept in a table, which is asked for the second element of the path.
-/

namespace Atomr.Core

open Library Text

structure ActorPath where
  address : Address
  elements : List String
  uid : UInt64
  deriving DecidableEq

namespace ActorPath

def root (address : Address) : ActorPath := ⟨address, [], 0⟩

def child (path : ActorPath) (name : String) : ActorPath := ⟨path.address, path.elements ++ [name], 0⟩

def withUid (path : ActorPath) (uid : UInt64) : ActorPath := { path with uid }

end ActorPath

/-- The address ends at the first slash behind the scheme. -/
def splitAddrPath (s : List Char) : Option (List Char × List Char) := do
  let (scheme, afterScheme) ← splitOnce "://".toList s
  match splitOnce ['/'] afterScheme with
  | some (authority, path) => some (scheme ++ "://".toList ++ authority, '/' :: path)
  | none => some (s, [])

def pushSegment (path : ActorPath) (seg : List Char) : Option ActorPath :=
  match splitOnce ['#'] seg with
  | some (name, uid) => do
    let uid ← parseUnsigned (2 ^ 64) uid
    some ((path.child (.ofList name)).withUid (.ofNat uid))
  | none => some (path.child (.ofList seg))

def parseActorPath (s : String) : Option ActorPath := do
  let (addrPart, pathPart) ← splitAddrPath s.toList
  let address ← Address.parse (.ofList addrPart)
  ((pathPart.splitOn '/').filter (· ≠ [])).foldlM pushSegment (.root address)

/-- The actors at the top by their names. Each has a path of two elements. -/
structure UserGuardian where
  children : Table String ActorPath
  paths : ∀ name path, children.lookup name = some path → path.elements = ["user", name]

structure ActorSystem where
  address : Address
  userGuardian : UserGuardian
  remoteProvider : Option (ActorPath → Option ActorPath)

inductive ActorSystemError where
  | nameTaken (name : String)
  | spawn (error : String)
  deriving DecidableEq

namespace ActorSystem

def new (address : Address) : ActorSystem := ⟨address, ⟨∅, by simp⟩, none⟩

variable (system : ActorSystem)

def userPath (name : String) : ActorPath := ((ActorPath.root system.address).child "user").child name

/-- The cell of the actor may fail to start. -/
def actorOf (name : String) (failed : Option String) : Except ActorSystemError ActorSystem :=
  if name ∈ system.userGuardian.children then .error (.nameTaken name)
  else match failed with
    | some error => .error (.spawn error)
    | none => .ok { system with userGuardian := {
        children := system.userGuardian.children.insert name (system.userPath name)
        paths := by
          intro other path found
          rw [Table.lookup_insert_if] at found
          split at found
          next same =>
            cases found
            rw [same]
            rfl
          · exact system.userGuardian.paths other path found } }

def isLocal (path : ActorPath) : Bool := path.address.host.isNone || path.address = system.address

def actorSelection (pathStr : String) : Option ActorPath := do
  let path ← parseActorPath pathStr
  if system.isLocal path then
    match path.elements with
    | "user" :: name :: _ => system.userGuardian.children.lookup name
    | _ => none
  else
    let provider ← system.remoteProvider
    provider path

end ActorSystem

variable {system : ActorSystem} {pathStr : String} {path ref : ActorPath}

/-- A local actor that is found has the path that was asked for exactly when that has two elements. -/
theorem selection_iff (parsed : parseActorPath pathStr = some path) (isLocal : system.isLocal path)
    (found : system.actorSelection pathStr = some ref) :
    ref.elements = path.elements ↔ path.elements.length = 2 := by
  simp only [ActorSystem.actorSelection, parsed, Option.bind_eq_bind, Option.bind_some, isLocal, if_true] at found
  split at found
  next name rest shape =>
    rw [shape, system.userGuardian.paths name ref found]
    simp [eq_comm]
  · cases found

theorem selection_of_top_actor : ∃ system path ref, (ActorSystem.new (.localTo "S")).actorOf "a" none = .ok system ∧
    parseActorPath "akka://S/user/a#7" = some path ∧ system.actorSelection "akka://S/user/a#7" = some ref ∧
    ref.elements = path.elements := by
  obtain ⟨system, path, ref, made, parsed, found, isLocal, two⟩ : ∃ system path ref,
      (ActorSystem.new (.localTo "S")).actorOf "a" none = .ok system ∧
      parseActorPath "akka://S/user/a#7" = some path ∧ system.actorSelection "akka://S/user/a#7" = some ref ∧
      system.isLocal path ∧ path.elements.length = 2 := ⟨_, _, _, rfl, rfl, rfl, rfl, rfl⟩
  exact ⟨system, path, ref, made, parsed, found, (selection_iff parsed isLocal found).mpr two⟩

/-- The path below an actor finds the actor itself. -/
theorem deeper_path_finds_top_actor : ∃ system path ref, (ActorSystem.new (.localTo "S")).actorOf "a" none = .ok system ∧
    parseActorPath "akka://S/user/a/b" = some path ∧ path.elements = ["user", "a", "b"] ∧
    system.actorSelection "akka://S/user/a/b" = some ref ∧ ref.elements = ["user", "a"] :=
  ⟨_, _, _, rfl, rfl, rfl, rfl, rfl⟩

end Atomr.Core
