import OpenAlice.Data.Lines
import OpenAlice.Data.Utf8

/-!
# The wire format of TWS

The fields and the frames of `packages/ibkr/src/comm.ts`.  A field is a text and a NUL; a frame
is the length of its payload in four bytes and the payload.

A value is what JavaScript tells apart in `makeField`.  Of an object, an array, a function or a
symbol there is the text that `String` makes of it.  Numbers and `decimal.js` are a parameter:
what they print is made of printable characters.
-/

namespace OpenAlice.Ibkr

open OpenAlice.Data

abbrev Text := List UInt16

abbrev Bytes := List UInt8

/-! ## Fields -/

/-- `isAsciiPrintable`, of one unit. -/
def isPrintable (unit : UInt16) : Bool :=
  (32 ≤ unit.toNat && unit.toNat < 127) || unit.toNat == 9 || unit.toNat == 10 || unit.toNat == 13

structure Numbers where
  Number : Type
  /-- A `Decimal`. -/
  Decimal : Type
  /-- `String(val)` -/
  numberText : Number → Text
  /-- `val.toFixed()` -/
  toFixed : Decimal → Text
  /-- `val === UNSET_INTEGER || val === UNSET_DOUBLE` -/
  isUnset : Number → Bool
  /-- `val === DOUBLE_INFINITY` -/
  isInfinity : Number → Bool
  /-- `val.equals(UNSET_DECIMAL)` -/
  isUnsetDecimal : Decimal → Bool
  numberText_printable : ∀ n, (numberText n).all isPrintable = true
  toFixed_printable : ∀ d, (toFixed d).all isPrintable = true

variable {N : Numbers}

inductive Value (N : Numbers) where
  /-- `null` or `undefined`. -/
  | none
  | decimal (value : N.Decimal)
  | string (text : Text)
  | boolean (value : Bool)
  | number (value : N.Number)
  /-- Anything else, as `String` prints it. -/
  | other (text : Text)

/-- The text of a character sequence in the basic plane. -/
def textOf (s : String) : Text := s.toList.map fun c ↦ UInt16.ofNat c.toNat

/-- `makeField`; `none` stands for an exception. -/
def makeField : Value N → Option Text
  | .none => none
  | .decimal value => some (N.toFixed value ++ [0])
  | .string text => if text.all isPrintable then some (text ++ [0]) else none
  | .boolean value => some (textOf (if value then "1" else "0") ++ [0])
  | .number value => some (N.numberText value ++ [0])
  | .other text => some (text ++ [0])

def makeFieldHandleEmpty : Value N → Option Text
  | .decimal value =>
    if N.isUnsetDecimal value then makeField (.string [] : Value N)
    else makeField (.decimal value)
  | .number value =>
    if N.isUnset value then makeField (.string [] : Value N)
    else if N.isInfinity value then makeField (.string (textOf "Infinity") : Value N)
    else makeField (.number value)
  | value => makeField value

/-- A value and the function that encodes it. -/
inductive Field (N : Numbers) where
  | plain (value : Value N)
  | handleEmpty (value : Value N)

namespace Field

def value : Field N → Value N
  | .plain value | .handleEmpty value => value

def make : Field N → Option Text
  | .plain value => makeField value
  | .handleEmpty value => makeFieldHandleEmpty value

end Field

def readFields (payload : Bytes) : List Text := (lines 0 (Utf8.decode payload)).dropLast

/-! ## Frames -/

/-- `header.writeUInt32BE(length)` -/
def header (length : Nat) : Bytes :=
  [.ofNat (length / 16777216), .ofNat (length / 65536 % 256), .ofNat (length / 256 % 256),
    .ofNat (length % 256)]

/-- A payload with its length before it, as in `makeInitialMsg`, `makeMsg` and
`makeMsgProto`. -/
def frame (payload : Bytes) : Bytes := header payload.length ++ payload

def makeInitialMsg (text : Text) : Bytes := frame (Utf8.encode text)

def makeMsg (msgId : Nat) (useRawIntMsgId : Bool) (text : Text) : Bytes :=
  if useRawIntMsgId then frame (header msgId ++ Utf8.encode text)
  else frame (Utf8.encode (textOf (toString msgId) ++ [0] ++ text))

def makeMsgProto (msgId : Nat) (protobufData : Bytes) : Bytes :=
  frame (header msgId ++ protobufData)

/-- `buf.readUInt32BE(0)` -/
def readUInt32BE : Bytes → Nat
  | a :: b :: c :: d :: _ => a.toNat * 16777216 + b.toNat * 65536 + c.toNat * 256 + d.toNat
  | _ => 0

def readMsg (buf : Bytes) : Nat × Bytes × Bytes :=
  if buf.length < 4 then (0, [], buf)
  else
    let size := readUInt32BE buf
    if size ≤ buf.length - 4 then (size, (buf.drop 4).take size, buf.drop (4 + size))
    else (size, [], buf)

end OpenAlice.Ibkr
