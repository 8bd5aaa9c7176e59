import MgKdb.Foundation.Cursor
import MgKdb.Foundation.LittleEndian
import MgKdb.Ipcjs.Text
import MgKdb.Ipcjs.Types

/-!
# The JavaScript deserialiser

Elements outside the buffer are `undefined`: they count as zero where they are copied
to the scratch buffer, and differ from every number where they are compared.
-/

namespace MgKdb
namespace Ipcjs

open Foundation CursorM

/-- A method of `_KdbReader` that moves its position. -/
abbrev Reader := CursorM UInt8 JsError

/-- `this.u8y[this.pos++]` -/
def readU8 : Reader (Option Int) := do
  let b ← next
  return b.map fun b => b.toNat

/-- `this.i8y[this.pos++]` -/
def readI8 : Reader (Option Int) := do
  let b ← next
  return b.map fun b => b.toInt8.toInt

/-- The bytes that `copyN` leaves in the scratch buffer. -/
def copyN (len : Nat) : Reader (List UInt8) := do
  let bs ← times next len
  return bs.map fun b => b.getD 0

def readI16 : Reader Int := do
  let buf ← copyN 2
  return (wordAt 2 buf).toInt

def readI32 : Reader Int := do
  let buf ← copyN 4
  return (wordAt 4 buf).toInt

def readI64 : Reader Int := do
  let buf ← copyN 8
  return (wordAt 8 buf).toInt

def readF32 : Reader (BitVec 32) := do
  let buf ← copyN 4
  return wordAt 4 buf

def readF64 : Reader (BitVec 64) := do
  let buf ← copyN 8
  return wordAt 8 buf

/-- `while (0 !== this.i8y[this.pos++]) {}`, which nothing ends without a NUL. -/
def passNul : Reader Unit := fun c =>
  match (c.input.drop c.pos.toNat).findIdx? (· == 0) with
  | some k => .ok ((), { c with pos := c.pos.toNat + k + 1 })
  | none => .error .endless

def signed (bs : List UInt8) : List Int :=
  bs.map fun b => b.toInt8.toInt

def readSym : Reader (List UInt16) := do
  let off ← getPos
  passNul
  let pos ← getPos
  let ary ← slice off (pos - 1)
  return u16u8 (signed ary)

/-- A typed array, or an array, of a negative length cannot be made. -/
def readAry {α : Type} (read : Reader α) (len : Int) : Reader (List α) :=
  if len < 0 then throw (.rangeError none) else times read len.toNat

def readI32Ary : Reader (List Int) := do
  let len ← readI32
  readAry readI32 len

def readI64Ary : Reader (List Int) := do
  let len ← readI32
  readAry readI64 len

/-!
## Objects
-/

def readBoolAtom : Reader KdbType := do
  let val ← readI8
  return newBoolAtom (val ≠ some 0)

def readByteAtom : Reader KdbType := do
  let val ← readU8
  return newByteAtom (val.getD 0)

def readShortAtom : Reader KdbType := newShortAtom <$> readI16

def readIntAtom : Reader KdbType := newIntAtom <$> readI32

def readLongAtom : Reader KdbType := newLongAtom <$> readI64

def readRealAtom : Reader KdbType := newRealAtom <$> readF32

def readFloatAtom : Reader KdbType := newFloatAtom <$> readF64

def readCharAtom : Reader KdbType := do
  let val ← readI8
  return newCharAtom (val.getD 0)

def readSymbolAtom : Reader KdbType := newSymbolAtom <$> readSym

def readTimestampAtom : Reader KdbType := newTimestampAtom <$> readI64

def readMonthAtom : Reader KdbType := newMonthAtom <$> readI32

def readDateAtom : Reader KdbType := newDateAtom <$> readI32

def readDateTimeAtom : Reader KdbType := newDateTimeAtom <$> readF64

def readTimespanAtom : Reader KdbType := newTimespanAtom <$> readI64

def readMinuteAtom : Reader KdbType := newMinuteAtom <$> readI32

def readSecondAtom : Reader KdbType := newSecondAtom <$> readI32

def readTimeAtom : Reader KdbType := newTimeAtom <$> readI32

def readException : Reader KdbType := newException <$> readSym

def readList (read : Reader KdbType) : Reader KdbType := do
  let att ← readI8
  let len ← readI32
  let ary ← readAry read len
  return KdbType.newList ary att

def readSlice (c : VectorClass) (view : List UInt8 -> List c.Elm) : Reader KdbType := do
  let att ← readI8
  let len ← readI32
  let ary ← span len
  return .vector c (view ary) att

def readVector (c : VectorClass) (readAry : Reader (List c.Elm)) : Reader KdbType := do
  let att ← readI8
  let ary ← readAry
  return .vector c ary att

def readBoolVector : Reader KdbType := readSlice .bool signed

def readGuidVector : Reader KdbType := throw (.error "'nyi")

def readByteVector : Reader KdbType := readSlice .byte (List.map fun b => b.toNat)

def readShortVector : Reader KdbType :=
  readVector .short do
    let len ← readI32
    readAry readI16 len

def readIntVector : Reader KdbType := readVector .int readI32Ary

def readLongVector : Reader KdbType := readVector .long readI64Ary

def readRealVector : Reader KdbType :=
  readVector .real do
    let len ← readI32
    readAry readF32 len

def readFloatVector : Reader KdbType :=
  readVector .float do
    let len ← readI32
    readAry readF64 len

def readCharVector : Reader KdbType := readSlice .char signed

def readSymbolVector : Reader KdbType :=
  readVector .symbol do
    let len ← readI32
    readAry readSym len

def readTimestampVector : Reader KdbType := readVector .timestamp readI64Ary

def readMonthVector : Reader KdbType := readVector .month readI32Ary

def readDateVector : Reader KdbType := readVector .date readI32Ary

def readDateTimeVector : Reader KdbType := do
  let vec ← readVector .dateTime do
    let len ← readI32
    readAry readF64 len
  throw (.object vec)

def readTimespanVector : Reader KdbType := readVector .timespan readI64Ary

def readMinuteVector : Reader KdbType := readVector .minute readI32Ary

def readSecondVector : Reader KdbType := readVector .second readI32Ary

def readTimeVector : Reader KdbType := readVector .time readI32Ary

def readTable (read : Reader KdbType) : Reader KdbType := do
  let att ← readI8
  let _dct ← readI8
  let cols ← read
  let vals ← read
  return .table cols vals att

def readDict (read : Reader KdbType) : Reader KdbType := do
  let keys ← read
  let vals ← read
  return .dict keys vals

def readFunction : Reader KdbType := do
  let _att ← readI8
  let _typ ← readI8
  let _vecAtt ← readI8
  let len ← readI32
  let txt ← span len
  return .function (u16u8 (signed txt))

def readUnary : Reader KdbType := do
  let val ← readI8
  newUnary val

def readBinary : Reader KdbType := do
  let val ← readI8
  newBinary val

def readTernary : Reader KdbType := do
  let val ← readI8
  newTernary val

def readProjection (read : Reader KdbType) : Reader KdbType := do
  let len ← readI32
  let fn ← read
  let rgs ← readAry read (len - 1)
  newProjection fn rgs

/-- The `switch` of `read`; there is no method `readGuidAtom`. -/
def readTyp (read : Reader KdbType) (typ : Int) : Reader KdbType :=
  match typ with
  | -128 => readException
  | -19 => readTimeAtom
  | -18 => readSecondAtom
  | -17 => readMinuteAtom
  | -16 => readTimespanAtom
  | -15 => readDateTimeAtom
  | -14 => readDateAtom
  | -13 => readMonthAtom
  | -12 => readTimestampAtom
  | -11 => readSymbolAtom
  | -10 => readCharAtom
  | -9 => readFloatAtom
  | -8 => readRealAtom
  | -7 => readLongAtom
  | -6 => readIntAtom
  | -5 => readShortAtom
  | -4 => readByteAtom
  | -2 => throw (.typeError none)
  | -1 => readBoolAtom
  | 0 => readList read
  | 1 => readBoolVector
  | 2 => readGuidVector
  | 4 => readByteVector
  | 5 => readShortVector
  | 6 => readIntVector
  | 7 => readLongVector
  | 8 => readRealVector
  | 9 => readFloatVector
  | 10 => readCharVector
  | 11 => readSymbolVector
  | 12 => readTimestampVector
  | 13 => readMonthVector
  | 14 => readDateVector
  | 15 => readDateTimeVector
  | 16 => readTimespanVector
  | 17 => readMinuteVector
  | 18 => readSecondVector
  | 19 => readTimeVector
  | 98 => readTable read
  | 99 => readDict read
  | 100 => readFunction
  | 101 => readUnary
  | 102 => readBinary
  | 103 => readTernary
  | 104 => readProjection read
  | typ => throw (.error ("'nyi: " ++ toString typ))

/-- `read`, on a call stack that has room for some more calls of it. -/
def read : Nat -> Reader KdbType
  | 0 => throw (.rangeError none)
  | depth + 1 => do
      let typ ← readI8
      match typ with
      | some typ => readTyp (read depth) typ
      | none => throw (.error "'nyi: undefined")

/-!
## Messages
-/

structure KdbReader where
  typ : Option Int
  cursor : Cursor UInt8

def KdbReader.new (aryBuf : List UInt8) : Except JsError KdbReader :=
  if aryBuf[0]? ≠ some 1 then .error (.error "Cannot decode little-endian messages")
  else .ok { typ := aryBuf[1]?.map fun b => b.toInt8.toInt, cursor := ⟨aryBuf, 8⟩ }

structure KdbMsg where
  typ : Option Int
  msg : KdbType

/--
`MgKdb.deserialize`.  A call of `read` that lies deeper than the buffer is long
stands outside the buffer, unless a negative length has moved it back.
-/
def deserialize (aryBuf : List UInt8) : Except JsError KdbMsg := do
  let rdr ← KdbReader.new aryBuf
  let out ← read aryBuf.length rdr.cursor
  return { typ := rdr.typ, msg := out.1 }

end Ipcjs
end MgKdb
