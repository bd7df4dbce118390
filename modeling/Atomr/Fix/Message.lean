import Atomr.Library.Text

/-! FIX messages: ordered fields, the wire encoder and the frame parser.

Fields keep their insertion order and tags may repeat. Only the encoder
materialises the header fields 8 and 9 and the trailer field 10, so the three
tags of a message itself never reach the wire as they stand.
-/

namespace Atomr.Fix

open Library.Text

/-- The delimiter after every field on the wire. -/
def SOH : UInt8 := 0x01

namespace Tags

def BEGIN_STRING : UInt32 := 8
def BODY_LENGTH : UInt32 := 9
def CHECK_SUM : UInt32 := 10
def MSG_TYPE : UInt32 := 35
def SENDER_COMP_ID : UInt32 := 49
def TARGET_COMP_ID : UInt32 := 56
def MSG_SEQ_NUM : UInt32 := 34
def SENDING_TIME : UInt32 := 52
def HEART_BT_INT : UInt32 := 108
def TEST_REQ_ID : UInt32 := 112
def BEGIN_SEQ_NO : UInt32 := 7
def END_SEQ_NO : UInt32 := 16
def RESET_SEQ_NUM_FLAG : UInt32 := 141
def GAP_FILL_FLAG : UInt32 := 123
def NEW_SEQ_NO : UInt32 := 36
def POSS_DUP_FLAG : UInt32 := 43
def ENCRYPT_METHOD : UInt32 := 98
def TEXT : UInt32 := 58
def DEFAULT_APPL_VER_ID : UInt32 := 1137

end Tags

structure FixField where
  tag : UInt32
  value : String
  deriving DecidableEq, Repr

inductive MsgType where
  | logon
  | heartbeat
  | testRequest
  | resendRequest
  | sequenceReset
  | logout
  | newOrderSingle
  | executionReport
  | other (code : String)
  deriving DecidableEq, Repr

namespace MsgType

def code : MsgType → String
  | .logon => "A"
  | .heartbeat => "0"
  | .testRequest => "1"
  | .resendRequest => "2"
  | .sequenceReset => "4"
  | .logout => "5"
  | .newOrderSingle => "D"
  | .executionReport => "8"
  | .other code => code

def fromCode (code : String) : MsgType :=
  if code = "A" then .logon
  else if code = "0" then .heartbeat
  else if code = "1" then .testRequest
  else if code = "2" then .resendRequest
  else if code = "4" then .sequenceReset
  else if code = "5" then .logout
  else if code = "D" then .newOrderSingle
  else if code = "8" then .executionReport
  else .other code

/-- Messages of the session layer, which no application sees. -/
def isAdmin : MsgType → Bool
  | .logon | .heartbeat | .testRequest | .resendRequest | .sequenceReset | .logout => true
  | .newOrderSingle | .executionReport | .other _ => false

end MsgType

inductive FixParseError where
  | empty
  | malformedField (field : String)
  | invalidTag (tag : String)
  | notUtf8
  | checksumMismatch (computed found : UInt8)
  | invalidCheckSum (value : String)
  deriving DecidableEq, Repr

structure FixMessage where
  fields : List FixField
  deriving DecidableEq, Repr

namespace FixMessage

variable (m : FixMessage) (tag : UInt32)

def get : Option String := (m.fields.find? fun f => f.tag == tag).map FixField.value

def getU64 : Option Nat := (m.get tag).bind fun value => parseUnsigned (2 ^ 64) value.toList

/-- Replace the first value for a tag, or append a field. -/
def set (value : String) : FixMessage :=
  ⟨replaced m.fields⟩
where
  replaced : List FixField → List FixField
    | [] => [⟨tag, value⟩]
    | f :: fields => if f.tag == tag then { f with value } :: fields else f :: replaced fields

def new : FixMessage := ⟨[]⟩

def ofType (msgType : MsgType) : FixMessage := new.set Tags.MSG_TYPE msgType.code

def msgType : Option MsgType := (m.get Tags.MSG_TYPE).map MsgType.fromCode

def seqNum : Option Nat := m.getU64 Tags.MSG_SEQ_NUM

end FixMessage

def pushField (buf : List UInt8) (tag : UInt32) (value : String) : List UInt8 :=
  buf ++ utf8 tag.toNat.repr ++ [0x3d] ++ utf8 value ++ [SOH]

/-- The sum of bytes in a 32-bit accumulator. -/
def byteSum (bytes : List UInt8) : UInt32 :=
  bytes.foldl (fun sum byte => sum + byte.toUInt32) 0

def checksumOf (bytes : List UInt8) : UInt8 := (byteSum bytes % 256).toUInt8

def padded (width n : Nat) : String := String.ofList ((Nat.toDigits 10 n).leftpad width '0')

/-- Tags that the encoder writes itself. -/
def isFraming (tag : UInt32) : Bool :=
  tag == Tags.BEGIN_STRING || tag == Tags.BODY_LENGTH || tag == Tags.MSG_TYPE || tag == Tags.CHECK_SUM

namespace FixMessage

def body (m : FixMessage) : List UInt8 :=
  m.fields.foldl
    (fun buf f => if isFraming f.tag then buf else pushField buf f.tag f.value)
    (pushField [] Tags.MSG_TYPE ((m.get Tags.MSG_TYPE).getD ""))

def toWire (m : FixMessage) : List UInt8 :=
  -- The length counts from the type field up to the trailer, the checksum all that precedes it.
  let beginString := (m.get Tags.BEGIN_STRING).getD "FIX.4.4"
  let out := pushField [] Tags.BEGIN_STRING beginString
  let out := pushField out Tags.BODY_LENGTH m.body.length.repr ++ m.body
  pushField out Tags.CHECK_SUM (padded 3 (checksumOf out).toNat)

end FixMessage

structure Scan where
  fields : List FixField
  checksumBoundary : Option Nat
  foundChecksum : Option UInt8
  offset : Nat
  deriving DecidableEq, Repr

def Scan.start : Scan := ⟨[], none, none, 0⟩

def isAsciiDigit (byte : UInt8) : Bool := 0x30 ≤ byte && byte ≤ 0x39

/-- Three digits, narrowed to a byte: the value `256` is read as `0`. -/
def checksumValue (value : String) : Option UInt8 :=
  if (utf8 value).length ≠ 3 || !(utf8 value).all isAsciiDigit then none
  else (parseUnsigned (2 ^ 32) value.toList).map UInt8.ofNat

/-- A field read from a segment of `length` bytes. A checksum is validated and its start noted. -/
def Scan.field (scan : Scan) (length : Nat) (field : FixField) : Except FixParseError Scan :=
  let next := { scan with fields := scan.fields ++ [field], offset := scan.offset + length + 1 }
  if field.tag = Tags.CHECK_SUM then
    match checksumValue field.value with
    | none => .error (.invalidCheckSum field.value)
    | some found => .ok { next with checksumBoundary := some scan.offset, foundChecksum := some found }
  else .ok next

/-- One segment between delimiters. An empty segment only moves the offset. -/
def Scan.segment (scan : Scan) (raw : List UInt8) : Except FixParseError Scan :=
  if raw.isEmpty then .ok { scan with offset := scan.offset + 1 }
  else match ofUtf8 raw with
    | none => .error .notUtf8
    | some text => match splitOnce ['='] text.toList with
      | none => .error (.malformedField text)
      | some (tagText, valueText) => match parseUnsigned (2 ^ 32) tagText with
        | none => .error (.invalidTag (String.ofList tagText))
        | some number => scan.field raw.length ⟨UInt32.ofNat number, String.ofList valueText⟩

/-- The comparison after the scan, against the last checksum field seen. -/
def Scan.finish (scan : Scan) (input : List UInt8) : Except FixParseError FixMessage :=
  if scan.fields.isEmpty then .error .empty
  else match scan.checksumBoundary, scan.foundChecksum with
    | some boundary, some found =>
      let computed := checksumOf (input.take boundary)
      if computed ≠ found then .error (.checksumMismatch computed found) else .ok ⟨scan.fields⟩
    -- A frame without a checksum field is taken as it is.
    | _, _ => .ok ⟨scan.fields⟩

def FixMessage.parse (input : List UInt8) : Except FixParseError FixMessage :=
  if input.isEmpty then .error .empty
  else do
    let scan ← (input.splitOnP (· == SOH)).foldlM Scan.segment Scan.start
    scan.finish input

end Atomr.Fix
