import MgKdb.Ipcjs.Leaves
import MgKdb.Ipcjs.Numbers

/-!
# Vectors of a given type

`C.ktv` makes a vector of a type code and fills it with its arguments.  The class of the
vector, the array behind it and the conversion of an argument come from three tables.
-/

namespace MgKdb
namespace Ipcjs

open Foundation CursorM

/-!
## The tables
-/

namespace VectorClass

/-- What an argument is that has the right type: an integer is a Number or a BigInt. -/
abbrev Arg : VectorClass -> Type
  | bool => Bool
  | byte | short | int | month | date | minute | second | time => Int
  | long | timestamp | timespan => Int
  | real => BitVec 32
  | float | dateTime => BitVec 64
  | char | symbol => List UInt16

/-- What the conversion for the type answers; `none` is `undefined`. -/
abbrev Converted : VectorClass -> Type
  | bool => Bool
  | byte => Int
  | short | int | month | date | minute | second | time => Option Int
  | long | timestamp | timespan => Option Int
  | real => BitVec 32
  | float | dateTime => BitVec 64
  | char => List Int
  | symbol => List UInt16

def blank : (t : VectorClass) -> t.Elm
  | bool | byte | short | int | month | date | minute | second | time => (0 : Int)
  | long | timestamp | timespan => (0 : Int)
  | real => (0 : BitVec 32)
  | float | dateTime => (0 : BitVec 64)
  | char => (0x20 : Int)
  | symbol => []

end VectorClass

/--
The `switch` of `newVectorOfTypeLen`, around an array.  It throws for the codes
that are those of no class, too.
-/
def vectorOfType : (t : VectorClass) -> List t.Elm -> Except JsError KdbType
  | .bool, ary => .ok (.vector .bool ary none)
  | .byte, ary => .ok (.vector .byte ary none)
  | .short, ary => .ok (.vector .short ary none)
  | .int, ary => .ok (.vector .int ary none)
  | .long, ary => .ok (.vector .long ary none)
  | .real, ary => .ok (.vector .real ary none)
  | .float, ary => .ok (.vector .float ary none)
  | .char, ary => .ok (.vector .char ary none)
  | .symbol, ary => .ok (.vector .symbol ary none)
  | .timestamp, ary => .ok (.vector .timestamp ary none)
  | .month, ary => .ok (.vector .month ary none)
  | .date, ary => .ok (.vector .date ary none)
  | .dateTime, _ => .error (.typeError (some "Type 15 not supported"))
  -- the case for timespans makes a vector of timestamps
  | .timespan, ary => .ok (.vector .timestamp ary none)
  | .minute, ary => .ok (.vector .minute ary none)
  | .second, ary => .ok (.vector .second ary none)
  | .time, ary => .ok (.vector .time ary none)

def newVectorOfTypeLen (t : VectorClass) (n : Nat) : Except JsError KdbType :=
  vectorOfType t (List.replicate n t.blank)

def i8yFromArg (arg : List UInt16) : Except JsError (List Int) :=
  if arg = [] then .error (.typeError (some "Array cannot be null or undefined"))
  else .ok (signed (u8u16 arg))

def inferenceFuncs : (t : VectorClass) -> Option (t.Arg -> Except JsError t.Converted)
  | .bool => some .ok
  | .byte => some fun a => .ok (chkIsInt8 a)
  | .short => some fun a => .ok (chkIsInt16 a)
  | .int => some fun a => .ok (chkIsInt32 a)
  | .long => some fun a => .ok (chkIsBigint a)
  | .real => some fun a => .ok (chkIsFloat32 a)
  | .float => some fun a => .ok (chkIsFloat64 a)
  | .char => some i8yFromArg
  | .symbol => some .ok
  | .timestamp => some fun a => .ok (Timestamp.argToBigIntNanos a)
  | .month => some fun a => .ok (Month.argToMonthValue a)
  | .date => some fun a => .ok (Date.argToDateValue a)
  | .dateTime => none
  | .timespan => some fun a => .ok (Timespan.argToBigIntNanos a)
  | .minute => some fun a => .ok (Minute.argToMinuteValue a)
  | .second => some fun a => .ok (Second.argToSecondValue a)
  | .time => some fun a => .ok (Time.argToTimeValue a)

/-- The Number that a typed array converts to by way of its text, unless that is no number. -/
def i8yToNumber : List Int -> Option Int
  | [] => some 0
  | [n] => some n
  | _ :: _ :: _ => none

/--
`vec.ary[i] = val`.  An array of integers keeps the low bits of a Number, and stores zero
for `undefined` and `NaN`; `undefined` is no BigInt.
-/
def setElm : (t : VectorClass) -> t.Converted -> Except JsError t.Elm
  | .bool, val => .ok (if val then 1 else 0)
  | .byte, val => .ok (BitVec.ofInt 8 val).toInt
  | .short, val => .ok (BitVec.ofInt 16 (val.getD 0)).toInt
  | .int, val | .month, val | .date, val | .minute, val | .second, val | .time, val =>
      .ok (BitVec.ofInt 32 (val.getD 0)).toInt
  | .long, some val | .timestamp, some val | .timespan, some val =>
      .ok (BitVec.ofInt 64 val).toInt
  | .long, none | .timestamp, none | .timespan, none => .error (.typeError none)
  | .real, val => .ok val
  | .float, val | .dateTime, val => .ok val
  | .char, val => .ok (BitVec.ofInt 8 ((i8yToNumber val).getD 0)).toInt
  | .symbol, val => .ok val

/-- `C.ktv` -/
def newVectorWithTypeInference (t : VectorClass) (args : List t.Arg) :
    Except JsError KdbType := do
  let _vec ← newVectorOfTypeLen t args.length
  match inferenceFuncs t with
  | none =>
      .error (.typeError
        (some ("Cannot resolve a converions function for type " ++ toString t.typ)))
  | some fn =>
      let ary ← args.mapM fun arg => do
        let val ← fn arg
        setElm t val
      vectorOfType t ary

/-!
## Values
-/

namespace VectorClass

abbrev Value : VectorClass -> Type
  | bool => Bool
  | byte | char => UInt8
  | short => BitVec 16
  | int | month | date | minute | second | time => BitVec 32
  | long | timestamp | timespan => BitVec 64
  | real => BitVec 32
  | float | dateTime => BitVec 64
  | symbol => { s : List UInt16 // 0 ∉ s }

/-- A value as an argument; a character is text with one code unit. -/
def arg : (t : VectorClass) -> t.Value -> t.Arg
  | bool, v => v
  | byte, v => (v.toNat : Int)
  | char, v => [v.toUInt16]
  | short, v => v.toInt
  | int, v | month, v | date, v | minute, v | second, v | time, v => v.toInt
  | long, v | timestamp, v | timespan, v => v.toInt
  | real, v => v
  | float, v | dateTime, v => v
  | symbol, v => v.val

/-- The element has the value; a Number that is `NaN` has no other value than that. -/
def Holds : (t : VectorClass) -> t.Elm -> t.Value -> Prop
  | bool, e, v => e = if v then 1 else 0
  | byte, e, v => e = (v.toNat : Int)
  | char, e, v => e = (v.toNat : Int)
  | short, e, v => e = v.toInt
  | int, e, v | month, e, v | date, e, v | minute, e, v | second, e, v | time, e, v =>
      e = v.toInt
  | long, e, v | timestamp, e, v | timespan, e, v => e = v.toInt
  | real, e, v => e = v ∨ isNaN32 e ∧ isNaN32 v
  | float, e, v | dateTime, e, v => e = v ∨ isNaN64 e ∧ isNaN64 v
  | symbol, e, v => e = v.val

def Keeps : (t : VectorClass) -> t.Value -> Prop
  | byte, v | char, v => v < 128
  | long, v | timestamp, v | timespan, v => v ≠ 0
  | real, v => v &&& 0x7fffffff ≠ 0
  | float, v => v &&& 0x7fffffffffffffff ≠ 0
  | dateTime, _ => False
  | bool, _ | short, _ | int, _ | month, _ | date, _ | minute, _ | second, _ | time, _
  | symbol, _ => True

def Readable : (t : VectorClass) -> t.Value -> Prop
  | symbol, v => IsAscii v.val
  | bool, _ | byte, _ | char, _ | short, _ | int, _ | month, _ | date, _ | minute, _
  | second, _ | time, _ | long, _ | timestamp, _ | timespan, _ | real, _ | float, _
  | dateTime, _ => True

def Accepts (t : VectorClass) : Prop :=
  exists vec, newVectorWithTypeInference t [] = .ok vec

/-- A vector of the type with the values, of which one with the same values is received. -/
def Constructs (msgTyp : Int) (t : VectorClass) (args : List t.Value) : Prop :=
  exists ary, newVectorWithTypeInference t (args.map t.arg) = .ok (.vector t ary none) ∧
    List.Forall₂ t.Holds ary args ∧
    exists ary' att, sendBack msgTyp (.vector t ary none) = .ok (.vector t ary' att) ∧
      List.Forall₂ t.Holds ary' args

end VectorClass

/-!
## Elements
-/

theorem mapM_eq_ok {α β : Type} {f : α -> Except JsError β} {xs : List α} {ys : List β} :
    xs.mapM f = .ok ys <-> List.Forall₂ (fun y x => f x = .ok y) ys xs := by
  induction xs generalizing ys with
  | nil =>
      rw [List.mapM_nil, List.forall₂_nil_right_iff]
      exact ⟨fun h => (Except.ok.inj h).symm, fun h => congrArg Except.ok h.symm⟩
  | cons x xs ih =>
      rw [List.mapM_cons, List.forall₂_cons_right_iff]
      constructor
      · intro h
        rcases ok_of_bind h with ⟨y, hy, hmore⟩
        rcases ok_of_bind hmore with ⟨ys', hys, hpure⟩
        cases hpure
        exact ⟨y, ys', hy, ih.mp hys, rfl⟩
      · rintro ⟨y, ys', hy, hys, rfl⟩
        rw [hy, ih.mpr hys]
        rfl

def newElm (t : VectorClass) (v : t.Value) : Except JsError t.Elm := do
  match inferenceFuncs t with
  | none => .error (.typeError none)
  | some fn =>
      let val ← fn (t.arg v)
      setElm t val

theorem accepts_iff {t : VectorClass} : t.Accepts <-> t ≠ .dateTime := by
  constructor
  · rintro ⟨vec, hvec⟩ rfl
    cases hvec
  · intro hne
    cases t with
    | dateTime => exact absurd rfl hne
    | _ => exact ⟨_, rfl⟩

theorem newVectorWithTypeInference_eq {t : VectorClass} (ht : t ≠ .dateTime)
    (args : List t.Value) :
    newVectorWithTypeInference t (args.map t.arg) = args.mapM (newElm t) >>= vectorOfType t := by
  rw [newVectorWithTypeInference, List.length_map]
  cases t with
  | dateTime => exact absurd rfl ht
  | _ => exact congrArg (· >>= vectorOfType _) List.mapM_map

theorem vectorOfType_eq {t : VectorClass} (ht : t ≠ .dateTime) {ary ary' : List t.Elm} :
    vectorOfType t ary' = .ok (.vector t ary none) <-> t ≠ .timespan ∧ ary' = ary := by
  cases t with
  | dateTime => exact absurd rfl ht
  | timespan =>
      refine iff_of_false (fun h => ?_) (fun h => h.left rfl)
      cases Except.ok.inj h
  | _ =>
      constructor
      · intro h
        injection Except.ok.inj h with _ hary
        exact ⟨VectorClass.noConfusion, hary⟩
      · rintro ⟨_, rfl⟩
        rfl

theorem newVector_iff {t : VectorClass} (ht : t ≠ .dateTime) {args : List t.Value}
    {ary : List t.Elm} :
    newVectorWithTypeInference t (args.map t.arg) = .ok (.vector t ary none) <->
      t ≠ .timespan ∧ List.Forall₂ (fun e v => newElm t v = .ok e) ary args := by
  rw [newVectorWithTypeInference_eq ht, <- mapM_eq_ok]
  constructor
  · intro h
    rcases ok_of_bind h with ⟨ary', hary, hvec⟩
    rcases (vectorOfType_eq ht).mp hvec with ⟨hne, rfl⟩
    exact ⟨hne, hary⟩
  · rintro ⟨hne, hary⟩
    rw [hary]
    exact (vectorOfType_eq ht).mpr ⟨hne, rfl⟩

/-!
## What is kept
-/

theorem ofInt_orNull {w : Nat} (v : BitVec w) :
    (BitVec.ofInt w ((orNull none v.toInt).getD 0)).toInt = v.toInt := by
  by_cases hzero : v.toInt = 0
  · rw [orNull, if_pos hzero, hzero]
    exact BitVec.toInt_zero
  · rw [orNull_of_ne hzero, Option.getD_some, BitVec.ofInt_toInt]

theorem ofInt_toNat {v : UInt8} : (BitVec.ofInt 8 v.toNat).toInt = v.toNat <-> v < 128 := by
  have hbound := v.toNat_lt
  have hlt : v < 128 <-> v.toNat < 128 := UInt8.lt_iff_toNat_lt
  rw [hlt, BitVec.toInt_ofInt, Int.bmod_def]
  split <;> omega

theorem exists_ok_iff {α : Type} {out : α} {P : α -> Prop} :
    (exists e, Except.ok (ε := JsError) out = .ok e ∧ P e) <-> P out := by
  constructor
  · rintro ⟨e, he, hP⟩
    cases he
    exact hP
  · exact fun hP => ⟨out, rfl, hP⟩

theorem setElm_orNull {v : BitVec 64} {f : Option Int -> Except JsError Int}
    (hsome : forall n, f (some n) = .ok (BitVec.ofInt 64 n).toInt)
    (hnone : f none = .error (.typeError none)) :
    (exists e, f (orNull none v.toInt) = .ok e ∧ e = v.toInt) <-> v ≠ 0 := by
  by_cases hzero : v = 0
  · have hint : v.toInt = 0 := hzero ▸ BitVec.toInt_zero
    rw [hint, orNull, if_pos rfl, hnone]
    refine iff_of_false ?_ (not_not.mpr hzero)
    rintro ⟨e, he, _⟩
    cases he
  · have hint : v.toInt ≠ 0 :=
      fun h => hzero (BitVec.toInt_inj.mp (h.trans BitVec.toInt_zero.symm))
    rw [orNull_of_ne hint, hsome, BitVec.ofInt_toInt]
    exact iff_of_true ⟨_, rfl, rfl⟩ hzero

theorem i8yToNumber_char (v : UInt8) :
    i8yToNumber (signed (u8u16 [v.toUInt16])) = if v < 128 then some (v.toNat : Int) else none := by
  have hnat : v.toUInt16.toNat = v.toNat := UInt8.toNat_toUInt16 v
  have hbound := v.toNat_lt
  by_cases hlt : v < 128
  · have hsmall : v.toUInt16 < 0x80 := by
      rw [UInt16.lt_iff_toNat_lt, hnat]
      exact UInt8.lt_iff_toNat_lt.mp hlt
    rw [if_pos hlt, u8u16_cons hsmall, UInt8.toUInt8_toUInt16, u8u16]
    exact congrArg some (toInt8_of_lt (UInt8.lt_iff_toNat_lt.mp hlt))
  · have hone : ¬ v.toUInt16 < 0x80 := by
      rw [UInt16.lt_iff_toNat_lt, hnat]
      exact fun h => hlt (UInt8.lt_iff_toNat_lt.mpr h)
    have htwo : v.toUInt16 < 0x800 := by
      rw [UInt16.lt_iff_toNat_lt, hnat]
      exact Nat.lt_of_lt_of_le hbound (by decide)
    rw [if_neg hlt, u8u16.eq_def]
    simp only [if_neg hone, if_pos htwo]
    rfl

theorem char_kept (v : UInt8) :
    (exists e, newElm .char v = .ok e ∧ VectorClass.char.Holds e v) <->
      VectorClass.char.Keeps v := by
  have helm : newElm .char v =
      .ok (BitVec.ofInt 8 ((i8yToNumber (signed (u8u16 [v.toUInt16]))).getD 0)).toInt := rfl
  rw [helm, exists_ok_iff, i8yToNumber_char]
  show _ <-> v < 128
  by_cases hlt : v < 128
  · rw [if_pos hlt]
    exact iff_of_true (ofInt_toNat.mpr hlt) hlt
  · rw [if_neg hlt]
    refine iff_of_false (fun hval => ?_) hlt
    have hzero : v.toNat = 0 := (Int.natCast_eq_zero.mp hval.symm)
    rw [UInt8.lt_iff_toNat_lt, hzero] at hlt
    exact hlt (by decide)

theorem quiet_kept {w : Nat} {isNaN : BitVec w -> Bool} {mask q v : BitVec w}
    (hquiet : isNaN q = true) (hmask : q &&& mask ≠ 0)
    (hnan : v &&& mask = 0 -> isNaN v = false) {kept : BitVec w}
    (hkept : kept = if (decide (v &&& mask = 0) || isNaN v) = true then q else v) :
    (kept = v ∨ isNaN kept ∧ isNaN v) <-> v &&& mask ≠ 0 := by
  by_cases hzero : v &&& mask = 0
  · rw [decide_eq_true hzero, Bool.true_or, if_pos rfl] at hkept
    refine iff_of_false ?_ (not_not.mpr hzero)
    rintro (hsame | ⟨_, hyes⟩)
    · exact hmask (hkept ▸ hsame ▸ hzero)
    · exact absurd ((hnan hzero).symm.trans hyes) Bool.false_ne_true
  · rw [decide_eq_false hzero, Bool.false_or] at hkept
    refine iff_of_true ?_ hzero
    cases hv : isNaN v with
    | true =>
        rw [if_pos hv] at hkept
        exact Or.inr ⟨hkept ▸ hquiet, rfl⟩
    | false =>
        rw [hv, if_neg Bool.false_ne_true] at hkept
        exact Or.inl hkept

theorem real_kept (v : BitVec 32) :
    (chkIsFloat32 v = v ∨ isNaN32 (chkIsFloat32 v) ∧ isNaN32 v) <-> v &&& 0x7fffffff ≠ 0 :=
  quiet_kept (q := 0x7fc00000) rfl (by decide) (fun hzero => (chkIsFloat32_zero hzero).right)
    rfl

theorem float_kept (v : BitVec 64) :
    (chkIsFloat64 v = v ∨ isNaN64 (chkIsFloat64 v) ∧ isNaN64 v) <->
      v &&& 0x7fffffffffffffff ≠ 0 := by
  refine quiet_kept rfl (by decide) (fun hzero => ?_) rfl
  rw [isNaN64, hzero]
  rfl

theorem newElm_holds (t : VectorClass) (v : t.Value) :
    (exists e, newElm t v = .ok e ∧ t.Holds e v) <-> t.Keeps v := by
  have hint : forall {w : Nat} (v : BitVec w), (exists e, Except.ok (ε := JsError)
      (BitVec.ofInt w ((orNull none v.toInt).getD 0)).toInt = .ok e ∧ e = v.toInt) <-> True :=
    fun v => exists_ok_iff.trans (iff_of_true (ofInt_orNull v) trivial)
  cases t with
  | bool => exact exists_ok_iff.trans (iff_of_true rfl trivial)
  | byte =>
      have helm : newElm .byte v = .ok (BitVec.ofInt 8 v.toNat).toInt :=
        congrArg (fun n => Except.ok (BitVec.ofInt 8 n).toInt) (chkIsInt8_eq v.toNat)
      rw [helm]
      exact exists_ok_iff.trans ofInt_toNat
  | char => exact char_kept v
  | short => exact hint (w := 16) v
  | int => exact hint (w := 32) v
  | month => exact hint (w := 32) v
  | date => exact hint (w := 32) v
  | minute => exact hint (w := 32) v
  | second => exact hint (w := 32) v
  | time => exact hint (w := 32) v
  | long => exact setElm_orNull (f := setElm .long) (fun _ => rfl) rfl
  | timestamp => exact setElm_orNull (f := setElm .timestamp) (fun _ => rfl) rfl
  | timespan => exact setElm_orNull (f := setElm .timespan) (fun _ => rfl) rfl
  | real => exact exists_ok_iff.trans (real_kept v)
  | float => exact exists_ok_iff.trans (float_kept v)
  | symbol => exact exists_ok_iff.trans (iff_of_true rfl trivial)
  | dateTime =>
      refine iff_of_false ?_ id
      rintro ⟨e, he, _⟩
      cases he

theorem newElms_hold (t : VectorClass) (args : List t.Value) :
    (exists ary, List.Forall₂ (fun e v => newElm t v = .ok e) ary args ∧
      List.Forall₂ t.Holds ary args) <-> forall v, v ∈ args -> t.Keeps v := by
  induction args with
  | nil => exact iff_of_true ⟨[], .nil, .nil⟩ (List.forall_mem_nil _)
  | cons v args ih =>
      rw [List.forall_mem_cons, <- newElm_holds, <- ih]
      constructor
      · rintro ⟨_, hnew, hholds⟩
        cases hnew with
        | cons he hary =>
            rcases List.forall₂_cons.mp hholds with ⟨hval, hvals⟩
            exact ⟨⟨_, he, hval⟩, ⟨_, hary, hvals⟩⟩
      · rintro ⟨⟨e, he, hval⟩, ⟨ary, hary, hvals⟩⟩
        exact ⟨e :: ary, .cons he hary, .cons hval hvals⟩

/-!
## What is received
-/

theorem forall_of_holds {t : VectorClass} {P : t.Elm -> Prop} {ary : List t.Elm}
    {args : List t.Value} (h : List.Forall₂ t.Holds ary args)
    (hP : forall e v, v ∈ args -> t.Holds e v -> P e) : forall e, e ∈ ary -> P e := by
  induction h with
  | nil => exact List.forall_mem_nil _
  | cons hval _ ih =>
      exact List.forall_mem_cons.mpr ⟨hP _ _ List.mem_cons_self hval,
        ih fun e v hv => hP e v (List.mem_cons_of_mem _ hv)⟩

theorem byte_range {e : Int} {v : UInt8} (h : e = v.toNat) : 0 <= e ∧ e < 256 := by
  have hbound := v.toNat_lt
  omega

theorem char_fits {e : Int} {v : UInt8} (h : e = v.toNat) (hv : v < 128) : Fits 8 e := by
  have hlt : v.toNat < 128 := UInt8.lt_iff_toNat_lt.mp hv
  unfold Fits
  omega

theorem plain_of_holds {t : VectorClass} (ht : t ≠ .dateTime) {ary : List t.Elm}
    {args : List t.Value} (h : List.Forall₂ t.Holds ary args)
    (hkeeps : forall v, v ∈ args -> t.Keeps v ∧ t.Readable v) :
    t = .real ∨ t = .float ∨ t.Plain ary := by
  have hfits : forall {w : Nat} (v : BitVec w) (e : Int), e = v.toInt -> Fits w e :=
    fun v e he => he ▸ ⟨BitVec.le_toInt v, BitVec.toInt_lt⟩
  cases t with
  | real => exact Or.inl rfl
  | float => exact Or.inr (Or.inl rfl)
  | dateTime => exact absurd rfl ht
  | bool =>
      refine Or.inr (Or.inr (forall_of_holds h fun e v _ he => ?_))
      cases v with
      | false => exact Or.inl he
      | true => exact Or.inr he
  | byte => exact Or.inr (Or.inr (forall_of_holds h fun e v _ he => byte_range he))
  | char =>
      exact Or.inr (Or.inr (forall_of_holds h fun e v hv he => char_fits he (hkeeps v hv).left))
  | symbol =>
      refine Or.inr (Or.inr (forall_of_holds h fun e v hv he => ?_))
      have hval : e = v.val := he
      exact hval ▸ (hkeeps v hv).right
  | _ => exact Or.inr (Or.inr (forall_of_holds h fun e v _ => hfits v e))

theorem reads_sent {t : VectorClass} {ary : List t.Elm}
    (h : t = .real ∨ t = .float ∨ t.Plain ary) (hlen : ary.length < 2 ^ 31)
    (read : Reader KdbType) :
    Reads (readTyp read t.typ)
      (i8Bytes 0 ++ (i32Bytes ary.length ++ ary.flatMap (elmBytes t)))
      (.vector t ary (some 0)) := by
  have hatt : Fits 8 0 := by decide
  rcases h with rfl | rfl | hplain
  · exact reads_elms (c := .real) hatt hlen fun val _ => reads_word (w := 4) val id
  · exact reads_elms (c := .float) hatt hlen fun val _ => reads_word (w := 8) val id
  · exact reads_vector hplain hatt hlen read

theorem bytes_newVector (t : VectorClass) (ary : List t.Elm) :
    (KdbType.vector t ary none).bytes = some (i8Bytes t.typ ++
      (i8Bytes 0 ++ (i32Bytes ary.length ++ ary.flatMap (elmBytes t)))) := by
  rw [KdbType.bytes, vecHdrBytes, List.append_assoc, List.append_assoc]
  rfl

theorem sendBack_sent (msgTyp : Int) {t : VectorClass} {ary : List t.Elm}
    (h : t = .real ∨ t = .float ∨ t.Plain ary) (hlen : ary.length < 2 ^ 31) :
    sendBack msgTyp (.vector t ary none) = .ok (.vector t ary (some 0)) := by
  have hbytes := bytes_newVector t ary
  rw [<- List.append_nil (i8Bytes 0 ++ _)] at hbytes
  exact sendBack_of_reads msgTyp (fits_vector_typ t) hbytes fun depth =>
    reads_sent h hlen (read depth)

/-!
## Counts
-/

theorem length_of_readVector {t : VectorClass} {m : Reader t.Elm} {att : Int} {n : Nat}
    {front bs : List UInt8} {ary : List t.Elm} {att' : Option Int} {c : Cursor UInt8}
    (h : readVector t (readI32 >>= readAry m)
      ⟨front ++ (i8Bytes att ++ (i32Bytes n ++ bs)), front.length⟩ =
        .ok (.vector t ary att', c)) :
    (ary.length : Int) = countRead n := by
  have hatt := ((reads_readI8_any att).run_bind front _).symm.trans h
  rcases ok_of_bind_ok hatt with ⟨ary', c₁, hary, hpure⟩
  cases hpure
  have hcount := ((reads_readI32_any n).run_bind _ bs).symm.trans hary
  change readAry m (countRead n) _ = _ at hcount
  by_cases hneg : countRead n < 0
  · rw [readAry, if_pos hneg] at hcount
    cases hcount
  · rw [readAry, if_neg hneg] at hcount
    have hlen := length_of_times hcount
    omega

theorem length_of_readSlice {t : VectorClass} {view : List UInt8 -> List t.Elm}
    (hview : forall bs, (view bs).length = bs.length) {att : Int} {n : Nat}
    {front bs : List UInt8} {ary : List t.Elm} {att' : Option Int} {c : Cursor UInt8}
    (hbs : bs.length = n)
    (h : readSlice t view
      ⟨front ++ (i8Bytes att ++ (i32Bytes n ++ bs)), front.length⟩ =
        .ok (.vector t ary att', c)) (hlen : ary.length = n) : n < 2 ^ 31 := by
  have hatt := ((reads_readI8_any att).run_bind front _).symm.trans h
  have hcount := ((reads_readI32_any n).run_bind _ bs).symm.trans hatt
  change (span (countRead n) >>= _) _ = _ at hcount
  by_contra hbig
  rcases span_short _ (countRead_lt n) (hbs ▸ Nat.le_of_not_lt hbig) with
    ⟨got, c₁, hspan, hshort⟩
  rw [bind_ok hspan] at hcount
  cases hcount
  rw [hview] at hlen
  omega

theorem length_of_sendBack {msgTyp : Int} {t : VectorClass} {ary ary' : List t.Elm}
    {att : Option Int} (h : sendBack msgTyp (.vector t ary none) = .ok (.vector t ary' att))
    (hlen : ary'.length = ary.length) : ary.length < 2 ^ 31 := by
  rcases read_of_sendBack h with ⟨bs, front, depth, c, hbs, hread⟩
  rw [bytes_newVector] at hbs
  cases hbs
  rcases read_typ_ok (fits_vector_typ t) hread with ⟨depth', hvec⟩
  simp only [List.append_nil] at hvec
  have hlist : (ary'.length : Int) = countRead ary.length -> ary.length < 2 ^ 31 := by
    intro hcount
    have hlt := countRead_lt ary.length
    omega
  have hbytes : forall ary : List Int, (ary.flatMap i8Bytes).length = ary.length :=
    fun ary => (flatMap_length_of_forall i8Bytes_length ary).trans (Nat.one_mul _)
  cases t with
  | bool | char | byte =>
      exact length_of_readSlice (fun _ => List.length_map _) (hbytes ary) hvec hlen
  | dateTime =>
      rcases ok_of_bind_ok hvec with ⟨vec, c₁, _, hthrow⟩
      cases hthrow
  | _ => exact hlist (length_of_readVector hvec)

/-!
## What is constructed
-/

theorem readable_of_received {msgTyp : Int} {ary ary' : List (List UInt16)} {att : Option Int}
    {args : List VectorClass.symbol.Value} (hary : List.Forall₂ VectorClass.symbol.Holds ary args)
    (h : sendBack msgTyp (.vector .symbol ary none) = .ok (.vector .symbol ary' att))
    (hlen : ary.length < 2 ^ 31)
    (hary' : List.Forall₂ VectorClass.symbol.Holds ary' args) :
    forall v, v ∈ args -> VectorClass.symbol.Readable v := by
  have hnul : forall s, s ∈ ary -> 0 ∉ s := forall_of_holds hary fun e v _ he => by
    have hval : e = v.val := he
    exact hval ▸ v.property
  have hcount := countRead_of_lt hlen
  rcases sendBack_symbolVector msgTyp none hnul (by omega) with ⟨att'', hback⟩
  rw [hcount, Int.toNat_natCast, List.take_length] at hback
  have hout := hback.symm.trans h
  injection hout with hout
  injection hout with _ hmap
  subst hmap
  clear h hback hnul hcount hlen
  induction hary with
  | nil => exact List.forall_mem_nil _
  | @cons e v ary args he _ ih =>
      rcases List.forall₂_cons.mp hary' with ⟨hval, hrest⟩
      refine List.forall_mem_cons.mpr ⟨?_, ih hrest⟩
      have hsame : e = v.val := he
      have hreceived : received e = v.val := hval
      rw [hsame] at hreceived
      exact (u16u8_u8u16 v.property).mp hreceived

theorem readable_of_constructs {msgTyp : Int} {t : VectorClass} {ary ary' : List t.Elm}
    {att : Option Int} {args : List t.Value} (hary : List.Forall₂ t.Holds ary args)
    (h : sendBack msgTyp (.vector t ary none) = .ok (.vector t ary' att))
    (hlen : ary.length < 2 ^ 31) (hary' : List.Forall₂ t.Holds ary' args) :
    forall v, v ∈ args -> t.Readable v := by
  cases t with
  | symbol => exact readable_of_received hary h hlen hary'
  | _ => exact fun _ _ => trivial

/--
A vector of a type has the values that it is made of, before and after it is sent, exactly when
the type is not that of timespans, the number of values fits a signed count of 32 bits, and
each value is kept and can be read.
-/
theorem constructs_iff (msgTyp : Int) (t : VectorClass) (args : List t.Value)
    (h : t.Accepts) :
    t.Constructs msgTyp args <->
      t ≠ .timespan ∧ args.length < 2 ^ 31 ∧
        forall v, v ∈ args -> t.Keeps v ∧ t.Readable v := by
  have ht := accepts_iff.mp h
  constructor
  · rintro ⟨ary, hnew, hholds, ary', att, hback, hholds'⟩
    rcases (newVector_iff ht).mp hnew with ⟨hne, helms⟩
    have hlen := length_of_sendBack hback (hholds'.length_eq.trans hholds.length_eq.symm)
    have hkeeps := (newElms_hold t args).mp ⟨ary, helms, hholds⟩
    have hread := readable_of_constructs hholds hback hlen hholds'
    exact ⟨hne, hholds.length_eq ▸ hlen, fun v hv => ⟨hkeeps v hv, hread v hv⟩⟩
  · rintro ⟨hne, hlen, hall⟩
    rcases (newElms_hold t args).mpr fun v hv => (hall v hv).left with ⟨ary, helms, hholds⟩
    have hsent := sendBack_sent msgTyp (plain_of_holds ht hholds hall)
      (hholds.length_eq ▸ hlen)
    exact ⟨ary, (newVector_iff ht).mpr ⟨hne, helms⟩, hholds, ary, some 0, hsent, hholds⟩

/-- Two longs. -/
theorem constructs_iff_longs :
    VectorClass.long.Constructs 0 [5#64, -3#64] <->
      VectorClass.long ≠ .timespan ∧ [5#64, -3#64].length < 2 ^ 31 ∧
        forall v, v ∈ [5#64, -3#64] ->
          VectorClass.long.Keeps v ∧ VectorClass.long.Readable v :=
  constructs_iff 0 .long [5#64, -3#64] ⟨_, rfl⟩

/-- A long that is zero is not accepted, a float that is zero becomes `NaN`, and an empty
vector of timespans is one of timestamps. -/
theorem constructs_zero :
    newVectorWithTypeInference .long [0] = .error (.typeError none) ∧
      newVectorWithTypeInference .float [0] = .ok (.vector .float [0x7ff8000000000000] none) ∧
      newVectorWithTypeInference .timespan [] = .ok (.vector .timestamp [] none) ∧
      newVectorWithTypeInference .byte [200] = .ok (.vector .byte [-56] none) ∧
      ¬ VectorClass.long.Constructs 0 [0#64] := by
  refine ⟨rfl, rfl, rfl, rfl, ?_⟩
  rintro ⟨ary, hnew, _⟩
  cases hnew

end Ipcjs
end MgKdb
