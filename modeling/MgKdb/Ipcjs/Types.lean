import Mathlib.Data.List.Infix

/-!
# The classes of the JavaScript library

The objects that `ipc.js` serialises and builds.  A Number that the code treats as an
integer is an `Int`, as is a BigInt; a Number that it only passes on is a pattern of
32 or 64 bits; text is a list of UTF-16 code units; `none` is `undefined`.
-/

namespace MgKdb
namespace Ipcjs

/-- The classes with a single value: the atoms, the exception and the primitives. -/
inductive AtomClass where
  | bool | byte | short | int | long | real | float | char | symbol | timestamp | month
  | date | dateTime | timespan | minute | second | time | unary | binary | ternary
  | exception
  deriving DecidableEq, Repr

namespace AtomClass

/-- The type code that the constructor hands to `KdbType`. -/
def typ : AtomClass -> Int
  | bool => -1
  | byte => -4
  | short => -5
  | int => -6
  | long => -7
  | real => -8
  | float => -9
  | char => -10
  | symbol => -11
  | timestamp => -12
  | month => -13
  | date => -14
  | dateTime => -15
  | timespan => -16
  | minute => -17
  | second => -18
  | time => -19
  | unary => 101
  -- the constructor of KdbBinary hands on the code of KdbUnary
  | binary => 101
  | ternary => 103
  | exception => -128

/-- What the class keeps in `val`; a `KdbCharAtom` keeps one code unit of text. -/
abbrev Val : AtomClass -> Type
  | bool => Bool
  | byte | unary | binary | ternary => Int
  | short | int | month | date | minute | second | time => Option Int
  | long | timestamp | timespan => Option Int
  | real => BitVec 32
  | float | dateTime => BitVec 64
  | char => UInt16
  | symbol | exception => List UInt16

end AtomClass

inductive VectorClass where
  | bool | byte | short | int | long | real | float | char | symbol | timestamp | month
  | date | dateTime | timespan | minute | second | time
  deriving DecidableEq, Repr

namespace VectorClass

/-- The type code that the constructor hands to `KdbVector`. -/
def typ : VectorClass -> Int
  | bool => 1
  | byte => 4
  | short => 5
  | int => 6
  | long => 7
  | real => 8
  | float => 9
  | char => 10
  | symbol => 11
  | timestamp => 12
  | month => 13
  | date => 14
  | dateTime => 15
  | timespan => 16
  | minute => 17
  | second => 18
  | time => 19

abbrev Elm : VectorClass -> Type
  | bool | byte | short | int | char | month | date | minute | second | time => Int
  | long | timestamp | timespan => Int
  | real => BitVec 32
  | float | dateTime => BitVec 64
  | symbol => List UInt16

end VectorClass

/-- An object; only the constructor of `KdbList` replaces a missing attribute. -/
inductive KdbType where
  | atom (c : AtomClass) (val : c.Val)
  | vector (c : VectorClass) (ary : List c.Elm) (att : Option Int)
  | list (ary : List KdbType) (att : Int)
  | table (cols vals : KdbType) (att : Option Int)
  | dict (keys vals : KdbType)
  | function (txt : List UInt16)
  | projection (fn : KdbType) (rgs : List KdbType)

/--
What a run of the library can throw, or that it never ends.  The errors of the engine have
no text here.
-/
inductive JsError where
  | error (msg : String)
  | typeError (msg : Option String)
  | rangeError (msg : Option String)
  /-- An object that is thrown although it is no error. -/
  | object (obj : KdbType)
  | endless

namespace KdbType

/-- Induction on an object, with one hypothesis for each part. -/
@[elab_as_elim, induction_eliminator]
theorem induct {motive : KdbType -> Prop}
    (atom : forall c val, motive (.atom c val))
    (vector : forall c ary att, motive (.vector c ary att))
    (list : forall ary att, (forall x, x ∈ ary -> motive x) -> motive (.list ary att))
    (table : forall cols vals att, motive cols -> motive vals ->
      motive (.table cols vals att))
    (dict : forall keys vals, motive keys -> motive vals -> motive (.dict keys vals))
    (function : forall txt, motive (.function txt))
    (projection : forall fn rgs, motive fn -> (forall x, x ∈ rgs -> motive x) ->
      motive (.projection fn rgs)) :
    forall x, motive x := by
  intro x
  refine KdbType.rec (motive_1 := motive)
    (motive_2 := fun xs => forall x, x ∈ xs -> motive x)
    atom vector list table dict function projection ?_ ?_ x
  · intro x hx
    cases hx
  · intro x xs hx hxs y hy
    rcases List.mem_cons.mp hy with hhead | htail
    · rw [hhead]
      exact hx
    · exact hxs y htail

/-- `att ? att : 0` -/
def newList (ary : List KdbType) (att : Option Int) : KdbType :=
  .list ary (att.getD 0)

mutual

def withAtt : KdbType -> KdbType
  | .atom c val => .atom c val
  | .vector c ary att => .vector c ary (some (att.getD 0))
  | .list ary att => .list (withAttAll ary) att
  | .table cols vals att => .table (withAtt cols) (withAtt vals) (some (att.getD 0))
  | .dict keys vals => .dict (withAtt keys) (withAtt vals)
  | .function txt => .function txt
  | .projection fn rgs => .projection (withAtt fn) (withAttAll rgs)

def withAttAll : List KdbType -> List KdbType
  | [] => []
  | x :: ary => withAtt x :: withAttAll ary

end

@[simp] theorem withAttAll_length (ary : List KdbType) :
    (withAttAll ary).length = ary.length := by
  induction ary with
  | nil => rfl
  | cons x ary ih => rw [withAttAll, List.length_cons, ih, List.length_cons]

end KdbType

/-!
## Constructors of atoms

The checks that the constructors make of a value that has the right type already, as the
deserialiser calls them.
-/

namespace KdbConstants

/-- `KdbConstants` has no member of this name. -/
def nullShort : Option Int := none

@[inherit_doc nullShort]
def nullInt : Option Int := none

@[inherit_doc nullShort]
def nullLong : Option Int := none

end KdbConstants

/-- `if (!val) return nul`, and otherwise the integer itself. -/
def orNull (nul : Option Int) (val : Int) : Option Int :=
  if val = 0 then nul else some val

def chkIsInt8 (val : Int) : Int :=
  if val = 0 then 0 else val

def chkIsInt16 : Int -> Option Int :=
  orNull KdbConstants.nullShort

def chkIsInt32 : Int -> Option Int :=
  orNull KdbConstants.nullInt

def chkIsBigint : Int -> Option Int :=
  orNull KdbConstants.nullLong

def Timestamp.argToBigIntNanos : Int -> Option Int :=
  orNull KdbConstants.nullLong

def Month.argToMonthValue : Int -> Option Int :=
  orNull KdbConstants.nullInt

def Date.argToDateValue : Int -> Option Int :=
  orNull KdbConstants.nullInt

def Timespan.argToBigIntNanos : Int -> Option Int :=
  orNull KdbConstants.nullLong

def Minute.argToMinuteValue : Int -> Option Int :=
  orNull KdbConstants.nullInt

def Second.argToSecondValue : Int -> Option Int :=
  orNull KdbConstants.nullInt

def Time.argToTimeValue : Int -> Option Int :=
  orNull KdbConstants.nullInt

@[simp] theorem orNull_of_ne {nul : Option Int} {val : Int} (h : val ≠ 0) :
    orNull nul val = some val :=
  if_neg h

@[simp] theorem chkIsInt8_eq (val : Int) : chkIsInt8 val = val := by
  unfold chkIsInt8
  split <;> simp_all

/-- Zero of either sign or not a number: `!val` for a pattern of 32 bits. -/
def isFalsy32 (val : BitVec 32) : Bool :=
  val &&& 0x7fffffff = 0 || 0x7f800000 < val &&& 0x7fffffff

@[inherit_doc isFalsy32]
def isFalsy64 (val : BitVec 64) : Bool :=
  val &&& 0x7fffffffffffffff = 0 || 0x7ff0000000000000 < val &&& 0x7fffffffffffffff

/-- `chk_is_float`: a falsy Number becomes `NaN`. -/
def chkIsFloat32 (val : BitVec 32) : BitVec 32 :=
  if isFalsy32 val then 0x7fc00000 else val

@[inherit_doc chkIsFloat32]
def chkIsFloat64 (val : BitVec 64) : BitVec 64 :=
  if isFalsy64 val then 0x7ff8000000000000 else val

def newBoolAtom (val : Bool) : KdbType := .atom .bool val

def newByteAtom (val : Int) : KdbType := .atom .byte (chkIsInt8 val)

def newShortAtom (val : Int) : KdbType := .atom .short (chkIsInt16 val)

def newIntAtom (val : Int) : KdbType := .atom .int (chkIsInt32 val)

def newLongAtom (val : Int) : KdbType := .atom .long (chkIsBigint val)

def newRealAtom (val : BitVec 32) : KdbType := .atom .real (chkIsFloat32 val)

def newFloatAtom (val : BitVec 64) : KdbType := .atom .float val

/-- `String.fromCharCode` keeps the low 16 bits. -/
def newCharAtom (val : Int) : KdbType := .atom .char (UInt16.ofInt (chkIsInt8 val))

def newSymbolAtom (val : List UInt16) : KdbType := .atom .symbol val

def newTimestampAtom (val : Int) : KdbType :=
  .atom .timestamp (Timestamp.argToBigIntNanos val)

def newMonthAtom (val : Int) : KdbType := .atom .month (Month.argToMonthValue val)

def newDateAtom (val : Int) : KdbType := .atom .date (Date.argToDateValue val)

def newDateTimeAtom (val : BitVec 64) : KdbType := .atom .dateTime (chkIsFloat64 val)

def newTimespanAtom (val : Int) : KdbType :=
  .atom .timespan (Timespan.argToBigIntNanos val)

def newMinuteAtom (val : Int) : KdbType := .atom .minute (Minute.argToMinuteValue val)

def newSecondAtom (val : Int) : KdbType := .atom .second (Second.argToSecondValue val)

def newTimeAtom (val : Int) : KdbType := .atom .time (Time.argToTimeValue val)

def newException (msg : List UInt16) : KdbType := .atom .exception msg

/-- `KdbUnary.VALS` has 43 entries. -/
def newUnary : Option Int -> Except JsError KdbType
  | some val =>
      if val < -1 ∨ 43 < val then .error (.typeError (some "'type"))
      else .ok (.atom .unary val)
  | none => .error (.typeError (some "'type"))

/-- `KdbBinary.VALS` has 37 entries. -/
def newBinary : Option Int -> Except JsError KdbType
  | some val =>
      if val < 0 ∨ 37 < val then .error (.typeError (some "'type"))
      else .ok (.atom .binary val)
  | none => .error (.typeError (some "'type"))

/-- `KdbTernary.VALS` has 7 entries. -/
def newTernary : Option Int -> Except JsError KdbType
  | some val =>
      if val < 0 ∨ 7 < val then .error (.rangeError (some "oob"))
      else .ok (.atom .ternary val)
  | none => .error (.rangeError (some "oob"))

def newProjection (fn : KdbType) (rgs : List KdbType) : Except JsError KdbType :=
  match fn with
  | .function _ => .ok (.projection fn rgs)
  | _ => .error (.typeError (some "'bad_function"))

/-!
## Messages
-/

namespace KdbMsgTyp

def async : Int := 0

def sync : Int := 1

def response : Int := 2

end KdbMsgTyp

end Ipcjs
end MgKdb
