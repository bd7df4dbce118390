import Atomr.Library.Text

/-! The address of an actor system, printed and parsed. -/

namespace Atomr.Core

open Library.Text

structure Address where
  protocol : String
  system : String
  host : Option String
  port : Option UInt16
  deriving DecidableEq, Repr

namespace Address

def localTo (system : String) : Address := ⟨"akka", system, none, none⟩

def remote (protocol system host : String) (port : UInt16) : Address := ⟨protocol, system, some host, some port⟩

def withProtocol (address : Address) (protocol : String) : Address := { address with protocol }

/-- Host and port are printed only when both are there. -/
def display (address : Address) : String :=
  match address.host, address.port with
  | some host, some port =>
    address.protocol ++ "://" ++ address.system ++ "@" ++ host ++ ":" ++ port.toNat.repr
  | _, _ => address.protocol ++ "://" ++ address.system

def parse (s : String) : Option Address := do
  let (protocol, rest) ← splitOnce "://".toList s.toList
  match splitOnce ['@'] rest with
  | some (system, hostPort) =>
    let (host, port) ← splitOnce [':'] hostPort
    let port ← parseUnsigned (2 ^ 16) port
    some (remote (.ofList protocol) (.ofList system) (.ofList host) (.ofNat port))
  | none => some ((localTo (.ofList rest)).withProtocol (.ofList protocol))

end Address

end Atomr.Core
