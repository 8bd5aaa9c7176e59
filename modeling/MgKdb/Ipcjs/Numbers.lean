import MgKdb.Ipcjs.RoundTrip

/-!
# Numbers in JavaScript atoms

A number is falsy when it is zero, and the constructors of most atoms take what is falsy for
a missing value.
-/

namespace MgKdb
namespace Ipcjs

open Foundation CursorM

/-!
## Text of nulls and infinities
-/

/-- A member of `KdbConstants`. -/
structure IntCfg where
  nullValue : Int
  posInfValue : Int
  negInfValue : Int

namespace KdbConstants

def i16 : IntCfg := ⟨-32768, 32767, -32767⟩

def i32 : IntCfg := ⟨-2147483648, 2147483647, -2147483647⟩

def i64 : IntCfg := ⟨-9223372036854775808, 9223372036854775807, -9223372036854775807⟩

end KdbConstants

def intTo0NStr (val : Option Int) (cfg : IntCfg) (char : String) : Option String :=
  if val = some cfg.nullValue then some ("0N" ++ char)
  else if val = some cfg.posInfValue then some ("0W" ++ char)
  else if val = some cfg.negInfValue then some ("-0W" ++ char)
  else none

def isNaN32 (val : BitVec 32) : Bool :=
  0x7f800000 < val &&& 0x7fffffff

def isNaN64 (val : BitVec 64) : Bool :=
  0x7ff0000000000000 < val &&& 0x7fffffffffffffff

/-- `MgKdb.fp_to_0N_str`, for a Number that is given by a pattern. -/
def fpTo0NStr {w : Nat} (isNaN : BitVec w -> Bool) (posInf negInf val : BitVec w)
    (char : String) : Option String :=
  if isNaN val then some ("0N" ++ char)
  else if posInf = val then some ("0W" ++ char)
  else if negInf = val then some ("-0W" ++ char)
  else none

/-!
## Types of numbers
-/

inductive Numeric where
  | short | int | long | real | float | timestamp | month | date | timespan | minute | second
  | time
  deriving DecidableEq, Repr

namespace Numeric

def cls : Numeric -> AtomClass
  | short => .short
  | int => .int
  | long => .long
  | real => .real
  | float => .float
  | timestamp => .timestamp
  | month => .month
  | date => .date
  | timespan => .timespan
  | minute => .minute
  | second => .second
  | time => .time

def width : Numeric -> Nat
  | short => 2
  | int | real | month | date | minute | second | time => 4
  | long | float | timestamp | timespan => 8

/-- What `toString` appends to a null or an infinity. -/
def char : Numeric -> String
  | short => "h"
  | int => "i"
  | long => ""
  | real => "e"
  | float => "f"
  | timestamp => "p"
  | month => "m"
  | date => "d"
  | timespan => "n"
  | minute => "u"
  | second => "v"
  | time => "t"

/-- What `toString` says of a null or an infinity before it formats anything. -/
def nil : (t : Numeric) -> t.cls.Val -> Option String
  | short, val => intTo0NStr val KdbConstants.i16 "h"
  | int, val => intTo0NStr val KdbConstants.i32 "i"
  | long, val => intTo0NStr val KdbConstants.i64 ""
  | real, val => fpTo0NStr isNaN32 0x7f800000 0xff800000 val "e"
  | float, val => fpTo0NStr isNaN64 0x7ff0000000000000 0xfff0000000000000 val "f"
  | timestamp, val => intTo0NStr val KdbConstants.i64 "p"
  | month, val => intTo0NStr val KdbConstants.i32 "m"
  | date, val => intTo0NStr val KdbConstants.i32 "d"
  | timespan, val => intTo0NStr val KdbConstants.i64 "n"
  | minute, val => intTo0NStr val KdbConstants.i32 "u"
  | second, val => intTo0NStr val KdbConstants.i32 "v"
  | time, val => intTo0NStr val KdbConstants.i32 "t"

def encode (t : Numeric) (v : BitVec (8 * t.width)) : List UInt8 :=
  i8Bytes t.cls.typ ++ wordBytes t.width v

def kept : (t : Numeric) -> BitVec (8 * t.width) -> t.cls.Val
  | short, v => chkIsInt16 v.toInt
  | int, v => chkIsInt32 v.toInt
  | long, v => chkIsBigint v.toInt
  | real, v => chkIsFloat32 v
  | float, v => v
  | timestamp, v => Timestamp.argToBigIntNanos v.toInt
  | month, v => Month.argToMonthValue v.toInt
  | date, v => Date.argToDateValue v.toInt
  | timespan, v => Timespan.argToBigIntNanos v.toInt
  | minute, v => Minute.argToMinuteValue v.toInt
  | second, v => Second.argToSecondValue v.toInt
  | time, v => Time.argToTimeValue v.toInt

/-- The atom has the value; a Number that is `NaN` has no other value than that. -/
def Holds : (t : Numeric) -> t.cls.Val -> BitVec (8 * t.width) -> Prop
  | real, val, v => val = v ∨ isNaN32 val ∧ isNaN32 v
  | float, val, v => val = v ∨ isNaN64 val ∧ isNaN64 v
  | short, val, v | int, val, v | long, val, v | timestamp, val, v | month, val, v
  | date, val, v | timespan, val, v | minute, val, v | second, val, v | time, val, v =>
      val = some v.toInt

/-- The null of the type: the least integer, or `NaN`. -/
def IsNull : (t : Numeric) -> BitVec (8 * t.width) -> Prop
  | real, v => isNaN32 v
  | float, v => isNaN64 v
  | short, v | int, v | long, v | timestamp, v | month, v | date, v | timespan, v | minute, v
  | second, v | time, v => v = BitVec.intMin _

/-- Neither zero, unless the type is that of the one constructor that makes no check. -/
def NotZero : (t : Numeric) -> BitVec (8 * t.width) -> Prop
  | real, v => v &&& 0x7fffffff ≠ 0
  | float, _ => True
  | short, v | int, v | long, v | timestamp, v | month, v | date, v | timespan, v | minute, v
  | second, v | time, v => v ≠ 0

end Numeric

/--
Wherever a value stands in a message, the atom that is read has this value, and it says that
it is a null only if the value is one.
-/
def KeepsValue (t : Numeric) (v : BitVec (8 * t.width)) : Prop :=
  exists val : t.cls.Val,
    (forall depth, Reads (read (depth + 1)) (t.encode v) (.atom t.cls val)) ∧
      t.Holds val v ∧ (t.nil val = some ("0N" ++ t.char) -> t.IsNull v)

/-!
## Reading
-/

theorem reads_int {w : Nat} {m : Reader Int}
    (hm : m = copyN w >>= fun buf => pure (wordAt w buf).toInt) (v : BitVec (8 * w))
    (f : Int -> KdbType) : Reads (f <$> m) (wordBytes w v) (f v.toInt) := by
  rw [hm]
  exact (reads_word v BitVec.toInt).map f

theorem reads_float {w : Nat} {m : Reader (BitVec (8 * w))}
    (hm : m = copyN w >>= fun buf => pure (wordAt w buf)) (v : BitVec (8 * w))
    (f : BitVec (8 * w) -> KdbType) : Reads (f <$> m) (wordBytes w v) (f v) := by
  rw [hm]
  exact (reads_word v id).map f

theorem Numeric.reads_typ (t : Numeric) (v : BitVec (8 * t.width)) (read : Reader KdbType) :
    Reads (readTyp read t.cls.typ) (wordBytes t.width v) (.atom t.cls (t.kept v)) := by
  cases t with
  | short => exact reads_int rfl v newShortAtom
  | int => exact reads_int rfl v newIntAtom
  | long => exact reads_int rfl v newLongAtom
  | real => exact reads_float rfl v newRealAtom
  | float => exact reads_float rfl v newFloatAtom
  | timestamp => exact reads_int rfl v newTimestampAtom
  | month => exact reads_int rfl v newMonthAtom
  | date => exact reads_int rfl v newDateAtom
  | timespan => exact reads_int rfl v newTimespanAtom
  | minute => exact reads_int rfl v newMinuteAtom
  | second => exact reads_int rfl v newSecondAtom
  | time => exact reads_int rfl v newTimeAtom

theorem Numeric.reads_encode (t : Numeric) (v : BitVec (8 * t.width)) (depth : Nat) :
    Reads (Ipcjs.read (depth + 1)) (t.encode v) (.atom t.cls (t.kept v)) :=
  (reads_readI8 (fits_atom_typ t.cls)).bind (t.reads_typ v (Ipcjs.read depth))

theorem keepsValue_iff_kept (t : Numeric) (v : BitVec (8 * t.width)) :
    KeepsValue t v <->
      t.Holds (t.kept v) v ∧ (t.nil (t.kept v) = some ("0N" ++ t.char) -> t.IsNull v) := by
  constructor
  · rintro ⟨val, hreads, hkeeps⟩
    have hatom := (hreads 0).unique (t.reads_encode v 0)
    injection hatom with _ hval
    rwa [<- hval]
  · exact fun hkeeps => ⟨_, t.reads_encode v, hkeeps⟩

/-!
## Keeping
-/

theorem intTo0NStr_null {n : Int} {cfg : IntCfg} {char : String}
    (h : intTo0NStr (some n) cfg char = some ("0N" ++ char)) : n = cfg.nullValue := by
  unfold intTo0NStr at h
  split at h
  · rename_i hnull
    exact Option.some.inj hnull
  · split at h
    · exact absurd ((String.append_left_inj _).mp (Option.some.inj h)) (by decide)
    · split at h
      · exact absurd ((String.append_left_inj _).mp (Option.some.inj h)) (by decide)
      · cases h

theorem int_kept {w : Nat} {cfg : IntCfg} (char : String)
    (hcfg : cfg.nullValue = (BitVec.intMin w).toInt) (v : BitVec w) :
    orNull none v.toInt = some v.toInt ∧
        (intTo0NStr (orNull none v.toInt) cfg char = some ("0N" ++ char) ->
          v = BitVec.intMin w) <->
      v ≠ 0 := by
  by_cases hzero : v = 0
  · have hint : v.toInt = 0 := hzero ▸ BitVec.toInt_zero
    rw [hint, orNull, if_pos rfl]
    exact iff_of_false (fun h => by cases h.left) (not_not.mpr hzero)
  · have hint : v.toInt ≠ 0 :=
      fun h => hzero (BitVec.toInt_inj.mp (h.trans BitVec.toInt_zero.symm))
    rw [orNull_of_ne hint]
    refine iff_of_true ⟨rfl, fun hnull => ?_⟩ hzero
    exact BitVec.toInt_inj.mp ((intTo0NStr_null hnull).trans hcfg)

theorem fpTo0NStr_null {w : Nat} {isNaN : BitVec w -> Bool} {posInf negInf val : BitVec w}
    {char : String} (h : fpTo0NStr isNaN posInf negInf val char = some ("0N" ++ char)) :
    isNaN val := by
  unfold fpTo0NStr at h
  split at h
  · assumption
  · split at h
    · exact absurd ((String.append_left_inj _).mp (Option.some.inj h)) (by decide)
    · split at h
      · exact absurd ((String.append_left_inj _).mp (Option.some.inj h)) (by decide)
      · cases h

theorem chkIsFloat32_zero {v : BitVec 32} (hzero : v &&& 0x7fffffff = 0) :
    chkIsFloat32 v ≠ v ∧ isNaN32 v = false := by
  have hfalsy : isFalsy32 v = true := by
    rw [isFalsy32, decide_eq_true hzero, Bool.true_or]
  have hchk : chkIsFloat32 v = 0x7fc00000 := by rw [chkIsFloat32, if_pos hfalsy]
  refine ⟨fun hsame => ?_, ?_⟩
  · rw [<- hsame, hchk] at hzero
    exact absurd hzero (by decide)
  · rw [isNaN32, hzero]
    rfl

theorem chkIsFloat32_nan {v : BitVec 32} (hnan : isNaN32 v = true) :
    chkIsFloat32 v = 0x7fc00000 := by
  have hfalsy : isFalsy32 v = true := by
    rw [isFalsy32]
    exact Bool.or_eq_true_iff.mpr (Or.inr hnan)
  rw [chkIsFloat32, if_pos hfalsy]

theorem chkIsFloat32_of {v : BitVec 32} (hzero : v &&& 0x7fffffff ≠ 0)
    (hnan : isNaN32 v = false) : chkIsFloat32 v = v := by
  have hfalsy : isFalsy32 v = false := by
    rw [isFalsy32, decide_eq_false hzero, Bool.false_or]
    exact hnan
  rw [chkIsFloat32, hfalsy, if_neg Bool.false_ne_true]

theorem Numeric.real_kept (v : BitVec 32) :
    real.Holds (real.kept v) v ∧
        (real.nil (real.kept v) = some ("0N" ++ real.char) -> real.IsNull v) <->
      real.NotZero v := by
  show (chkIsFloat32 v = v ∨ isNaN32 (chkIsFloat32 v) ∧ isNaN32 v) ∧
      (_ -> isNaN32 v = true) <-> v &&& 0x7fffffff ≠ 0
  by_cases hzero : v &&& 0x7fffffff = 0
  · rcases chkIsFloat32_zero hzero with ⟨hne, hnan⟩
    refine iff_of_false ?_ (not_not.mpr hzero)
    rintro ⟨hsame | ⟨_, hyes⟩, _⟩
    · exact hne hsame
    · exact absurd (hnan.symm.trans hyes) Bool.false_ne_true
  · refine iff_of_true ?_ hzero
    cases hnan : isNaN32 v with
    | true =>
        refine ⟨Or.inr ⟨?_, rfl⟩, fun _ => rfl⟩
        rw [chkIsFloat32_nan hnan]
        rfl
    | false =>
        have hsame := chkIsFloat32_of hzero hnan
        refine ⟨Or.inl hsame, fun hnull => ?_⟩
        have hisnan : isNaN32 (chkIsFloat32 v) = true := fpTo0NStr_null hnull
        rwa [hsame, hnan] at hisnan

theorem Numeric.float_kept (v : BitVec 64) :
    float.Holds (float.kept v) v ∧
        (float.nil (float.kept v) = some ("0N" ++ float.char) -> float.IsNull v) <->
      float.NotZero v :=
  iff_of_true ⟨Or.inl rfl, fun hnull => fpTo0NStr_null hnull⟩ trivial

/-- An atom keeps its value exactly when the value is not zero; a float keeps that, too. -/
theorem keepsValue_iff (t : Numeric) (v : BitVec (8 * t.width)) :
    KeepsValue t v <-> t.NotZero v := by
  rw [keepsValue_iff_kept]
  cases t with
  | real => exact Numeric.real_kept v
  | float => exact Numeric.float_kept v
  | short => exact int_kept "h" (by decide) v
  | int => exact int_kept "i" (by decide) v
  | long => exact int_kept "" (by decide) v
  | timestamp => exact int_kept "p" (by decide) v
  | month => exact int_kept "m" (by decide) v
  | date => exact int_kept "d" (by decide) v
  | timespan => exact int_kept "n" (by decide) v
  | minute => exact int_kept "u" (by decide) v
  | second => exact int_kept "v" (by decide) v
  | time => exact int_kept "t" (by decide) v

/-- The message with the short 0 has a short without a value. -/
theorem keepsValue_zero :
    deserialize [1, 0, 0, 0, 11, 0, 0, 0, 0xfb, 0, 0] =
        .ok { typ := some 0, msg := .atom .short none } ∧
      ¬ KeepsValue .short 0 := by
  refine ⟨rfl, fun hkeeps => ?_⟩
  have hheld := ((keepsValue_iff_kept .short 0).mp hkeeps).left
  cases hheld

end Ipcjs
end MgKdb
