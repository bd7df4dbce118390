import Atomr.Core.Address

/-! Addresses that are printed and parsed again, with every host a transport can have. -/

namespace Atomr.Core

open Library.Text Option

def ipv4Text (a b c d : UInt8) : List Char :=
  ['.'].intercalate ([a, b, c, d].map fun octet => Nat.toDigits 10 octet.toNat)

structure Span where
  start : Nat
  len : Nat

/-- The longest run of zero segments, the first of several. -/
def zeroes (segments : List UInt16) : Span :=
  (segments.zipIdx.foldl (fun (current, longest) (segment, i) =>
    if segment = 0 then
      let current : Span := ⟨if current.len = 0 then i else current.start, current.len + 1⟩
      (current, if current.len > longest.len then current else longest)
    else (⟨0, 0⟩, longest)) ((⟨0, 0⟩, ⟨0, 0⟩) : Span × Span)).2

def fmtSubslice (segments : List UInt16) : List Char :=
  [':'].intercalate (segments.map fun segment => Nat.toDigits 16 segment.toNat)

/-- As the standard library prints it: with the part of an embedded IPv4 address, or with one run of zeros left out. -/
def ipv6Text (segments : List UInt16) : List Char :=
  match segments with
  | [0, 0, 0, 0, 0, 0xffff, ab, cd] =>
    "::ffff:".toList ++ ipv4Text (ab >>> 8).toUInt8 ab.toUInt8 (cd >>> 8).toUInt8 cd.toUInt8
  | _ =>
    let zeroes := zeroes segments
    if zeroes.len > 1 then
      fmtSubslice (segments.take zeroes.start) ++ "::".toList ++ fmtSubslice (segments.drop (zeroes.start + zeroes.len))
    else fmtSubslice segments

inductive Host where
  | ipv4 (a b c d : UInt8)
  | ipv6 (segments : List UInt16) (eight : segments.length = 8)
  | name (text : String) (plain : '@' ∉ text.toList ∧ ':' ∉ text.toList)

namespace Host

def text : Host → String
  | ipv4 a b c d => .ofList (ipv4Text a b c d)
  | ipv6 segments _ => .ofList (ipv6Text segments)
  | name text _ => text

def isIpv6 : Host → Bool
  | ipv6 _ _ => true
  | _ => false

end Host

/-- The address under which a transport listens. -/
def listenAddress (systemName : String) (host : Host) (port : UInt16) : Address :=
  .remote "akka.tcp" systemName host.text port

theorem colon_not_mem_ipv4Text (a b c d : UInt8) : ':' ∉ ipv4Text a b c d := by
  have ha (n : Nat) : ':' ∉ Nat.toDigits 10 n := fun mem =>
    absurd (Nat.isDigit_of_mem_toDigits (by decide) (by decide) mem) (by decide)
  simp [ipv4Text, List.intercalate, ha]

theorem colon_mem_ipv6Text {segments : List UInt16} (eight : segments.length = 8) : ':' ∈ ipv6Text segments := by
  have two : ':' ∈ fmtSubslice segments := by
    match segments, eight with
    | first :: second :: rest, _ => simp [fmtSubslice, List.intercalate]
  unfold ipv6Text
  split
  · simp
  · simp only
    split
    · simp
    · exact two

theorem Host.colon_mem_text (ho : Host) : ':' ∈ ho.text.toList ↔ ho.isIpv6 := by
  cases ho with
  | ipv4 a b c d => simp [text, isIpv6, colon_not_mem_ipv4Text]
  | ipv6 segments eight => simp [text, isIpv6, colon_mem_ipv6Text eight]
  | name text plain => simp [Host.text, isIpv6, plain.2]

namespace Address

variable {sys : String} (plain : '@' ∉ sys.toList)
include plain

theorem parse_display_localTo : parse (localTo sys).display = some (localTo sys) := by
  have split : splitOnce "://".toList (localTo sys).display.toList = some ("akka".toList, sys.toList) := by
    simp [display, localTo, splitOnce]
  simp only [parse, split, bind_eq_bind, bind_some, splitOnce_eq_none plain, String.ofList_toList]
  rfl

theorem parse_display_remote {front back : List Char} (ho : String) (port : UInt16)
    (cut : ho.toList ++ ':' :: port.toNat.repr.toList = front ++ ':' :: back) (first : ':' ∉ front) :
    parse (remote "akka.tcp" sys ho port).display =
      (parseUnsigned (2 ^ 16) back).map fun n => remote "akka.tcp" sys (.ofList front) (.ofNat n) := by
  have split : splitOnce "://".toList (remote "akka.tcp" sys ho port).display.toList =
      some ("akka.tcp".toList, sys.toList ++ '@' :: (front ++ ':' :: back)) := by
    simp [display, remote, splitOnce, ← cut]
  simp only [parse, split, bind_eq_bind, bind_some, splitOnce_of_not_mem plain,
    splitOnce_of_not_mem first, String.ofList_toList]
  cases parseUnsigned (2 ^ 16) back <;> rfl

/-- What follows the first colon is taken for the port. -/
theorem parse_display_remote_iff (ho : String) (port : UInt16) :
    parse (remote "akka.tcp" sys ho port).display = some (remote "akka.tcp" sys ho port) ↔
      ':' ∉ ho.toList := by
  constructor
  · intro parsed mem
    obtain ⟨front, back, shape, first⟩ := List.eq_append_cons_of_mem mem
    have cut : ho.toList ++ ':' :: port.toNat.repr.toList = front ++ ':' :: (back ++ ':' :: port.toNat.repr.toList) := by
      simp [shape]
    rw [parse_display_remote plain ho port cut first] at parsed
    obtain ⟨n, -, same⟩ := map_eq_some_iff.mp parsed
    have hosts := congrArg Address.host same
    simp only [remote, Option.some.injEq] at hosts
    rw [← hosts, String.toList_ofList] at mem
    exact first mem
  · intro whole
    rw [parse_display_remote plain ho port rfl whole, parseUnsigned_repr port.toNat_lt]
    simp

end Address

/-- An address is parsed as it was printed, unless its host is an IPv6 address. -/
theorem address_round_trip_iff {systemName : String} (plain : '@' ∉ systemName.toList) (host : Host) (port : UInt16) :
    Address.parse (Address.localTo systemName).display = some (.localTo systemName) ∧
    (Address.parse (listenAddress systemName host port).display = some (listenAddress systemName host port) ↔
      host.isIpv6 = false) := by
  refine ⟨Address.parse_display_localTo plain, ?_⟩
  rw [listenAddress, Address.parse_display_remote_iff plain, host.colon_mem_text, Bool.not_eq_true]

theorem address_round_trip_ipv4 : '@' ∉ "S".toList ∧
    Address.parse (listenAddress "S" (.ipv4 127 0 0 1) 2552).display = some (listenAddress "S" (.ipv4 127 0 0 1) 2552) :=
  ⟨by decide, (address_round_trip_iff (by decide) (.ipv4 127 0 0 1) 2552).2.mpr rfl⟩

/-- The port of an IPv6 address is not found. -/
theorem ipv6_address_not_parsed :
    (Host.ipv6 [0, 0, 0, 0, 0, 0, 0, 1] rfl).text = "::1" ∧
    (listenAddress "S" (.ipv6 [0, 0, 0, 0, 0, 0, 0, 1] rfl) 2552).display = "akka.tcp://S@::1:2552" ∧
    Address.parse "akka.tcp://S@::1:2552" = none := by
  decide +kernel

end Atomr.Core
