import MgKdb.Foundation.LittleEndian

/-!
# Wire type codes

The type bytes of the IPC format and the result codes of the readers and
writers.  Sizes are written as numerals: one byte for a type or an attribute,
four for a count, six for a vector header, eight for a message header.
-/

namespace MgKdb

open Foundation

inductive KdbType where
  | exception
  | timeAtom | secondAtom | minuteAtom | timespanAtom | datetimeAtom | dateAtom
  | monthAtom | timestampAtom | symbolAtom | charAtom | floatAtom | realAtom
  | longAtom | intAtom | shortAtom | byteAtom | guidAtom | boolAtom
  | list
  | boolVector | guidVector | byteVector | shortVector | intVector | longVector
  | realVector | floatVector | charVector | symbolVector | timestampVector
  | monthVector | dateVector | datetimeVector | timespanVector | minuteVector
  | secondVector | timeVector
  | table | dict | function | unaryPrimitive | binaryPrimitive
  | ternaryPrimitive | projection | stepDict
  deriving DecidableEq, Repr

namespace KdbType

def value : KdbType -> Int
  | exception => -128
  | timeAtom => -19
  | secondAtom => -18
  | minuteAtom => -17
  | timespanAtom => -16
  | datetimeAtom => -15
  | dateAtom => -14
  | monthAtom => -13
  | timestampAtom => -12
  | symbolAtom => -11
  | charAtom => -10
  | floatAtom => -9
  | realAtom => -8
  | longAtom => -7
  | intAtom => -6
  | shortAtom => -5
  | byteAtom => -4
  | guidAtom => -2
  | boolAtom => -1
  | list => 0
  | boolVector => 1
  | guidVector => 2
  | byteVector => 4
  | shortVector => 5
  | intVector => 6
  | longVector => 7
  | realVector => 8
  | floatVector => 9
  | charVector => 10
  | symbolVector => 11
  | timestampVector => 12
  | monthVector => 13
  | dateVector => 14
  | datetimeVector => 15
  | timespanVector => 16
  | minuteVector => 17
  | secondVector => 18
  | timeVector => 19
  | table => 98
  | dict => 99
  | function => 100
  | unaryPrimitive => 101
  | binaryPrimitive => 102
  | ternaryPrimitive => 103
  | projection => 104
  | stepDict => 127

/-- `static_cast<int8_t>(typ)`, as the byte it leaves on the wire. -/
def i8 (t : KdbType) : UInt8 :=
  (Int8.ofInt t.value).toUInt8

def all : List KdbType :=
  [exception, timeAtom, secondAtom, minuteAtom, timespanAtom, datetimeAtom,
    dateAtom, monthAtom, timestampAtom, symbolAtom, charAtom, floatAtom,
    realAtom, longAtom, intAtom, shortAtom, byteAtom, guidAtom, boolAtom, list,
    boolVector, guidVector, byteVector, shortVector, intVector, longVector,
    realVector, floatVector, charVector, symbolVector, timestampVector,
    monthVector, dateVector, datetimeVector, timespanVector, minuteVector,
    secondVector, timeVector, table, dict, function, unaryPrimitive,
    binaryPrimitive, ternaryPrimitive, projection, stepDict]

/-- `static_cast<KdbType>(byte)`, when the result is a named enumerator. -/
def ofI8 (b : UInt8) : Option KdbType :=
  all.find? (fun t => t.i8 == b)

@[simp] theorem ofI8_i8 (t : KdbType) : ofI8 t.i8 = some t := by
  cases t <;> rfl

theorem i8_of_ofI8 {b : UInt8} {t : KdbType} (h : ofI8 b = some t) : t.i8 = b := by
  have hfound := List.find?_some h
  simpa using hfound

theorem i8_injective {s t : KdbType} (h : s.i8 = t.i8) : s = t := by
  have hs := ofI8_i8 s
  rw [h, ofI8_i8] at hs
  exact (Option.some.inj hs).symm

end KdbType

/-- The fixed-width element types: each has an atom class and a vector class. -/
inductive Elem where
  | bool | guid | byte | short | int | long | real | float | char | timestamp
  | month | date | timespan | minute | second | time
  deriving DecidableEq, Repr

namespace Elem

/-- `sizeof` of the element as stored in memory and on the wire. -/
def width : Elem -> Nat
  | bool | byte | char => 1
  | short => 2
  | int | real | month | date | minute | second | time => 4
  | long | float | timestamp | timespan => 8
  | guid => 16

def atomTyp : Elem -> KdbType
  | bool => .boolAtom
  | guid => .guidAtom
  | byte => .byteAtom
  | short => .shortAtom
  | int => .intAtom
  | long => .longAtom
  | real => .realAtom
  | float => .floatAtom
  | char => .charAtom
  | timestamp => .timestampAtom
  | month => .monthAtom
  | date => .dateAtom
  | timespan => .timespanAtom
  | minute => .minuteAtom
  | second => .secondAtom
  | time => .timeAtom

def vectorTyp : Elem -> KdbType
  | bool => .boolVector
  | guid => .guidVector
  | byte => .byteVector
  | short => .shortVector
  | int => .intVector
  | long => .longVector
  | real => .realVector
  | float => .floatVector
  | char => .charVector
  | timestamp => .timestampVector
  | month => .monthVector
  | date => .dateVector
  | timespan => .timespanVector
  | minute => .minuteVector
  | second => .secondVector
  | time => .timeVector

theorem atomTyp_injective {e e' : Elem} (h : e.atomTyp = e'.atomTyp) : e = e' := by
  cases e <;> cases e' <;> first | rfl | cases h

theorem vectorTyp_injective {e e' : Elem} (h : e.vectorTyp = e'.vectorTyp) : e = e' := by
  cases e <;> cases e' <;> first | rfl | cases h

theorem width_pos (e : Elem) : 0 < e.width := by
  cases e <;> decide

end Elem

inductive Arity where
  | unary | binary | ternary
  deriving DecidableEq, Repr

def Arity.typ : Arity -> KdbType
  | unary => .unaryPrimitive
  | binary => .binaryPrimitive
  | ternary => .ternaryPrimitive

inductive KdbMsgType where
  | async | sync | response
  deriving DecidableEq, Repr

theorem Arity.typ_injective {a a' : Arity} (h : a.typ = a'.typ) : a = a' := by
  cases a <;> cases a' <;> first | rfl | cases h

def KdbMsgType.i8 : KdbMsgType -> UInt8
  | async => 0
  | sync => 1
  | response => 2

/-- Ways of leaving a reader or writer without a value of its result type. -/
inductive Trap where
  /-- `std::length_error` from a container constructor. -/
  | lengthError
  /-- A null or uninitialised object pointer is followed. -/
  | badPointer
  /-- The decompressor accesses memory it must not. -/
  | badAccess
  /-- The model's recursion bound; adequate bounds never reach it. -/
  | outOfFuel
  deriving DecidableEq, Repr

/-- The enumerators of `ReadResult`; `trap` stands for no value at all. -/
inductive ReadResult where
  | unset | ok | incomplete | errIpc | errLogic | errAlloc
  | trap (why : Trap)
  deriving DecidableEq, Repr

/-- The enumerators of `WriteResult`; `trap` stands for no value at all. -/
inductive WriteResult where
  | unset | ok | incomplete
  | trap (why : Trap)
  deriving DecidableEq, Repr

/-- `static_cast<int32_t>(n)` -/
def i32 (n : Nat) : Int :=
  (BitVec.ofNat 32 n).toInt

def u64 (x : Int) : Nat :=
  (x % 2 ^ 64).toNat

def i32At (bs : List UInt8) : Int :=
  (wordAt 4 bs).toInt

theorem i32_of_lt {n : Nat} (hn : n < 2 ^ 31) : i32 n = n := by
  have hnat : (BitVec.ofNat 32 n).toNat = n := by
    rw [BitVec.toNat_ofNat, Nat.mod_eq_of_lt (by omega)]
  have hsmall : 2 * (BitVec.ofNat 32 n).toNat < 2 ^ 32 := by omega
  rw [i32, BitVec.toInt_eq_toNat_of_lt hsmall, hnat]

theorem i32At_of_front {n : Nat} {bs tail : List UInt8} (hlen : 4 <= bs.length)
    (hpre : bs <+: leBytes 4 n ++ tail) : i32At bs = i32 n := by
  have hbytes : leBytes 4 n = wordBytes 4 (BitVec.ofNat 32 n) := by
    rw [wordBytes, BitVec.toNat_ofNat]
    exact (leBytes_mod 4 n).symm
  rw [hbytes] at hpre
  rw [i32At, wordAt_of_front (w := 4) hlen hpre, i32]

theorem leBytes_i32At {bs : List UInt8} (hlen : 4 <= bs.length) (h : 0 <= i32At bs) :
    leBytes 4 (i32At bs).toNat = bs.take 4 := by
  have htoNat : (i32At bs).toNat = (wordAt 4 bs).toNat := by
    have hlt := (wordAt 4 bs).isLt
    unfold i32At at h ⊢
    rw [BitVec.toInt_eq_toNat_cond] at h ⊢
    split at h <;> omega
  rw [htoNat]
  exact wordBytes_wordAt hlen

theorem i32At_range (bs : List UInt8) : -2 ^ 31 <= i32At bs ∧ i32At bs < 2 ^ 31 := by
  have hlow := BitVec.le_toInt (wordAt 4 bs)
  have hhigh := BitVec.toInt_lt (x := wordAt 4 bs)
  unfold i32At
  omega

theorem i32At_of_shorter {bs cs : List UInt8} (hpre : cs <+: bs)
    (hlen : 4 <= cs.length) : i32At cs = i32At bs := by
  rcases hpre with ⟨suffix, rfl⟩
  rw [i32At, i32At, wordAt, wordAt, List.take_append_of_le_length hlen]

end MgKdb
