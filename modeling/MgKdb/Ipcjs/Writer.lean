import MgKdb.Foundation.LittleEndian
import MgKdb.Ipcjs.Text
import MgKdb.Ipcjs.Types

/-!
# The JavaScript serialiser

A first pass computes the size of the payload, a second one stores the bytes in a buffer of
that size.  A store past the end of a typed array has no effect but moves the position.
-/

namespace MgKdb
namespace Ipcjs

open Foundation

structure KdbWriter where
  buf : List UInt8
  pos : Nat

/-!
## Values as bytes

Stores into the views of the scratch buffer `tmp`.
-/

def i8Bytes (val : Int) : List UInt8 :=
  [UInt8.ofInt val]

def i32Bytes (val : Int) : List UInt8 :=
  leBytes 4 (val % 2 ^ 32).toNat

/-- The first half of a store into an `Int32Array`. -/
def i16Bytes (val : Int) : List UInt8 :=
  (i32Bytes val).take 2

def i64Bytes (val : Int) : List UInt8 :=
  leBytes 8 (val % 2 ^ 64).toNat

/-- The Number that text of one code unit converts to; `NaN` is stored as zero. -/
def charToNumber (c : UInt16) : Int :=
  if 0x30 <= c ∧ c <= 0x39 then c.toNat - 0x30 else 0

namespace KdbWriter

/-- `this.buf[this.pos++] = val` -/
def store (w : KdbWriter) (val : UInt8) : KdbWriter :=
  { buf := w.buf.set w.pos val, pos := w.pos + 1 }

def stores (w : KdbWriter) (vals : List UInt8) : KdbWriter :=
  vals.foldl store w

/-- `undefined` is stored as zero. -/
def writeI8 (w : KdbWriter) (val : Option Int) : KdbWriter :=
  w.stores (i8Bytes (val.getD 0))

@[inherit_doc writeI8]
def writeI16 (w : KdbWriter) (val : Option Int) : KdbWriter :=
  w.stores (i16Bytes (val.getD 0))

@[inherit_doc writeI8]
def writeI32 (w : KdbWriter) (val : Option Int) : KdbWriter :=
  w.stores (i32Bytes (val.getD 0))

/-- `undefined` is no BigInt. -/
def writeI64 (w : KdbWriter) : Option Int -> Except JsError KdbWriter
  | some val => .ok (w.stores (i64Bytes val))
  | none => .error (.typeError none)

def writeF32 (w : KdbWriter) (val : BitVec 32) : KdbWriter :=
  w.stores (wordBytes 4 val)

def writeF64 (w : KdbWriter) (val : BitVec 64) : KdbWriter :=
  w.stores (wordBytes 8 val)

def writeSym (w : KdbWriter) (val : List UInt16) : KdbWriter :=
  (w.stores (u8u16 val)).writeI8 (some 0)

def writeVecHdr (w : KdbWriter) (typ : Int) (att : Option Int) (length : Nat) : KdbWriter :=
  ((w.writeI8 (some typ)).writeI8 att).writeI32 (some length)

end KdbWriter

/-!
## The two passes
-/

/-- The cases of `writeSz` for objects with a `val`. -/
def atomSz : (c : AtomClass) -> c.Val -> Nat
  | .time, _ | .second, _ | .minute, _ | .date, _ | .month, _ | .real, _ | .int, _ => 5
  | .timespan, _ | .dateTime, _ | .timestamp, _ | .float, _ | .long, _ => 9
  | .short, _ => 3
  | .exception, val | .symbol, val => 1 + (u8u16 val).length + 1
  | .char, _ | .byte, _ | .bool, _ | .unary, _ | .binary, _ | .ternary, _ => 2

def vectorSz : (c : VectorClass) -> List c.Elm -> Nat
  | .bool, ary | .byte, ary | .char, ary => 6 + ary.length
  | .symbol, ary => ary.foldl (fun sum val => sum + (u8u16 val).length + 1) 6
  | .short, ary => 6 + 2 * ary.length
  | .long, ary | .float, ary | .timestamp, ary | .dateTime, ary | .timespan, ary =>
      6 + 8 * ary.length
  | .int, ary | .real, ary | .month, ary | .date, ary | .minute, ary | .second, ary
  | .time, ary => 6 + 4 * ary.length

mutual

def writeSz : KdbType -> Except JsError Nat
  | .atom c val => .ok (atomSz c val)
  | .vector c ary _ => .ok (vectorSz c ary)
  | .list ary _ => writeSzFrom 6 ary
  | .table cols vals _ => do
      let cols ← writeSz cols
      let vals ← writeSz vals
      return 3 + cols + vals
  | .dict keys vals => do
      let keys ← writeSz keys
      let vals ← writeSz vals
      return 1 + keys + vals
  | .function _ => .error (.error "'nyi: 100")
  | .projection _ _ => .error (.error "'nyi: 104")

/-- `ary.reduce((sum, val) => sum + this.writeSz(val), sum)` -/
def writeSzFrom (sum : Nat) : List KdbType -> Except JsError Nat
  | [] => .ok sum
  | val :: ary => do
      let sz ← writeSz val
      writeSzFrom (sum + sz) ary

end

/-- The cases of `writeElm` for objects with a `val`, after the type. -/
def writeVal : (c : AtomClass) -> c.Val -> KdbWriter -> Except JsError KdbWriter
  | .time, val, w | .second, val, w | .minute, val, w | .date, val, w | .month, val, w
  | .int, val, w => .ok (w.writeI32 val)
  | .timespan, val, w | .timestamp, val, w | .long, val, w => w.writeI64 val
  -- the first of two cases for this type, which stores the Number as a BigInt
  | .dateTime, _, _ => .error (.typeError none)
  | .float, val, w => .ok (w.writeF64 val)
  | .real, val, w => .ok (w.writeF32 val)
  | .short, val, w => .ok (w.writeI16 val)
  | .char, val, w => .ok (w.writeI8 (some (charToNumber val)))
  | .byte, val, w | .unary, val, w | .binary, val, w | .ternary, val, w =>
      .ok (w.writeI8 (some val))
  | .bool, val, w => .ok (w.writeI8 (some (if val then 1 else 0)))
  | .exception, val, w | .symbol, val, w => .ok (w.writeSym val)

/-- The cases of `writeElm` for vectors, after the header. -/
def writeAry : (c : VectorClass) -> List c.Elm -> KdbWriter -> KdbWriter
  | .bool, ary, w | .byte, ary, w | .char, ary, w =>
      ary.foldl (fun w val => w.writeI8 (some val)) w
  | .short, ary, w => ary.foldl (fun w val => w.writeI16 (some val)) w
  | .int, ary, w | .month, ary, w | .date, ary, w | .minute, ary, w | .second, ary, w
  | .time, ary, w => ary.foldl (fun w val => w.writeI32 (some val)) w
  | .long, ary, w | .timestamp, ary, w | .timespan, ary, w =>
      ary.foldl (fun w val => w.stores (i64Bytes val)) w
  | .real, ary, w => ary.foldl KdbWriter.writeF32 w
  | .float, ary, w | .dateTime, ary, w => ary.foldl KdbWriter.writeF64 w
  | .symbol, ary, w => ary.foldl KdbWriter.writeSym w

mutual

def writeElm : KdbType -> KdbWriter -> Except JsError KdbWriter
  | .atom c val, w => writeVal c val (w.writeI8 (some c.typ))
  | .vector c ary att, w => .ok (writeAry c ary (w.writeVecHdr c.typ att ary.length))
  | .list ary att, w => writeElms ary (w.writeVecHdr 0 (some att) ary.length)
  | .table cols vals att, w => do
      let w ← writeElm cols (((w.writeI8 (some 98)).writeI8 att).writeI8 (some 99))
      writeElm vals w
  | .dict keys vals, w => do
      let w ← writeElm keys (w.writeI8 (some 99))
      writeElm vals w
  | .function _, _ => .error (.error "'nyi : 100")
  | .projection _ _, _ => .error (.error "'nyi : 104")

/-- `ary.forEach(this.writeElm)` -/
def writeElms : List KdbType -> KdbWriter -> Except JsError KdbWriter
  | [], w => .ok w
  | val :: ary, w => do
      let w ← writeElm val w
      writeElms ary w

end

/-- `MgKdb.serialize`, the constructor and `write` of the writer. -/
def serialize (msgTyp : Int) (msg : KdbType) : Except JsError (List UInt8) := do
  let psz ← writeSz msg
  let msz := 8 + psz
  let w : KdbWriter := { buf := List.replicate msz 0, pos := 0 }
  let w := (((w.writeI8 (some 1)).writeI8 (some msgTyp)).writeI8 (some 0)).writeI8 (some 0)
  let w ← writeElm msg (w.writeI32 (some msz))
  return w.buf

/-!
## What is written

The bytes of an object without the buffer they are stored in.
-/

def symBytes (val : List UInt16) : List UInt8 :=
  u8u16 val ++ [0]

/-- The header of a vector or a list; a missing attribute is a zero. -/
def vecHdrBytes (typ : Int) (att : Option Int) (length : Nat) : List UInt8 :=
  i8Bytes typ ++ i8Bytes (att.getD 0) ++ i32Bytes length

/-- The bytes after the type of an atom, if the value can be written at all. -/
def valBytes : (c : AtomClass) -> c.Val -> Option (List UInt8)
  | .bool, val => some (i8Bytes (if val then 1 else 0))
  | .byte, val | .unary, val | .binary, val | .ternary, val => some (i8Bytes val)
  | .char, val => some (i8Bytes (charToNumber val))
  | .short, val => some (i16Bytes (val.getD 0))
  | .int, val | .month, val | .date, val | .minute, val | .second, val | .time, val =>
      some (i32Bytes (val.getD 0))
  | .long, val | .timestamp, val | .timespan, val => val.map i64Bytes
  | .real, val => some (wordBytes 4 val)
  | .float, val => some (wordBytes 8 val)
  | .dateTime, _ => none
  | .symbol, val | .exception, val => some (symBytes val)

def elmBytes : (c : VectorClass) -> c.Elm -> List UInt8
  | .bool, val | .byte, val | .char, val => i8Bytes val
  | .short, val => i16Bytes val
  | .int, val | .month, val | .date, val | .minute, val | .second, val | .time, val =>
      i32Bytes val
  | .long, val | .timestamp, val | .timespan, val => i64Bytes val
  | .real, val => wordBytes 4 val
  | .float, val | .dateTime, val => wordBytes 8 val
  | .symbol, val => symBytes val

namespace KdbType

mutual

def bytes : KdbType -> Option (List UInt8)
  | .atom c val => (valBytes c val).map (fun bs => i8Bytes c.typ ++ bs)
  | .vector c ary att =>
      some (vecHdrBytes c.typ att ary.length ++ ary.flatMap (elmBytes c))
  | .list ary att => (bytesAll ary).map (fun bs => vecHdrBytes 0 (some att) ary.length ++ bs)
  | .table cols vals att => do
      let cols ← bytes cols
      let vals ← bytes vals
      return i8Bytes 98 ++ i8Bytes (att.getD 0) ++ i8Bytes 99 ++ (cols ++ vals)
  | .dict keys vals => do
      let keys ← bytes keys
      let vals ← bytes vals
      return i8Bytes 99 ++ (keys ++ vals)
  | .function _ => none
  | .projection _ _ => none

def bytesAll : List KdbType -> Option (List UInt8)
  | [] => some []
  | val :: ary => do
      let bs ← bytes val
      let more ← bytesAll ary
      return bs ++ more

end

end KdbType

namespace KdbType

theorem bytesAll_cons {x : KdbType} {ary : List KdbType} {bs : List UInt8}
    (h : bytesAll (x :: ary) = some bs) :
    exists xs ys, x.bytes = some xs ∧ bytesAll ary = some ys ∧ bs = xs ++ ys := by
  rw [bytesAll] at h
  rcases Option.bind_eq_some_iff.mp h with ⟨xs, hxs, hmore⟩
  rcases Option.bind_eq_some_iff.mp hmore with ⟨ys, hys, hall⟩
  cases hall
  exact ⟨xs, ys, hxs, hys, rfl⟩

theorem bytes_table {cols vals : KdbType} {att : Option Int} {bs : List UInt8}
    (h : bytes (.table cols vals att) = some bs) :
    exists xs ys, cols.bytes = some xs ∧ vals.bytes = some ys ∧
      bs = i8Bytes 98 ++ i8Bytes (att.getD 0) ++ i8Bytes 99 ++ (xs ++ ys) := by
  rw [bytes] at h
  rcases Option.bind_eq_some_iff.mp h with ⟨xs, hxs, hmore⟩
  rcases Option.bind_eq_some_iff.mp hmore with ⟨ys, hys, hall⟩
  cases hall
  exact ⟨xs, ys, hxs, hys, rfl⟩

theorem bytes_dict {keys vals : KdbType} {bs : List UInt8}
    (h : bytes (.dict keys vals) = some bs) :
    exists xs ys, keys.bytes = some xs ∧ vals.bytes = some ys ∧
      bs = i8Bytes 99 ++ (xs ++ ys) := by
  rw [bytes] at h
  rcases Option.bind_eq_some_iff.mp h with ⟨xs, hxs, hmore⟩
  rcases Option.bind_eq_some_iff.mp hmore with ⟨ys, hys, hall⟩
  cases hall
  exact ⟨xs, ys, hxs, hys, rfl⟩

theorem bytesAll_withAttAll {ary : List KdbType}
    (h : forall x, x ∈ ary -> x.withAtt.bytes = x.bytes) :
    bytesAll (withAttAll ary) = bytesAll ary := by
  induction ary with
  | nil => rfl
  | cons x ary ih =>
      rw [withAttAll, bytesAll, bytesAll, h x (by simp),
        ih (fun y hy => h y (List.mem_cons_of_mem x hy))]

theorem bytes_withAtt (x : KdbType) : x.withAtt.bytes = x.bytes := by
  induction x with
  | atom c val => rfl
  | vector c ary att => rfl
  | list ary att ih =>
      rw [withAtt, bytes, bytes, bytesAll_withAttAll ih, withAttAll_length]
  | table cols vals att ihc ihv =>
      rw [withAtt, bytes, bytes, ihc, ihv]
      rfl
  | dict keys vals ihk ihv => rw [withAtt, bytes, bytes, ihk, ihv]
  | function txt => rfl
  | projection fn rgs => rfl

end KdbType

@[simp] theorem i8Bytes_length (val : Int) : (i8Bytes val).length = 1 := rfl

@[simp] theorem i32Bytes_length (val : Int) : (i32Bytes val).length = 4 :=
  leBytes_length 4 _

@[simp] theorem i16Bytes_length (val : Int) : (i16Bytes val).length = 2 := by
  simp [i16Bytes]

@[simp] theorem i64Bytes_length (val : Int) : (i64Bytes val).length = 8 :=
  leBytes_length 8 _

@[simp] theorem symBytes_length (val : List UInt16) :
    (symBytes val).length = (u8u16 val).length + 1 := by
  simp [symBytes]

@[simp] theorem vecHdrBytes_length (typ : Int) (att : Option Int) (length : Nat) :
    (vecHdrBytes typ att length).length = 6 := by
  simp [vecHdrBytes]

theorem i32Bytes_natCast (n : Nat) : i32Bytes n = leBytes 4 n := by
  have hmod : ((n : Int) % 2 ^ 32).toNat = n % 256 ^ 4 := by omega
  rw [i32Bytes, hmod, leBytes_mod]

theorem i8Bytes_eq (val : Int) : i8Bytes val = wordBytes 1 (BitVec.ofInt 8 val) := by
  rw [wordBytes, BitVec.toNat_ofInt]
  rfl

theorem i32Bytes_eq (val : Int) : i32Bytes val = wordBytes 4 (BitVec.ofInt 32 val) := by
  rw [wordBytes, BitVec.toNat_ofInt]
  rfl

theorem i16Bytes_eq (val : Int) : i16Bytes val = wordBytes 2 (BitVec.ofInt 16 val) := by
  have hmod : (val % 2 ^ 32).toNat % 256 ^ 2 = (val % 2 ^ 16).toNat := by omega
  rw [wordBytes, BitVec.toNat_ofInt]
  show leBytes 2 (val % 2 ^ 32).toNat = leBytes 2 (val % 2 ^ 16).toNat
  rw [← leBytes_mod, hmod]

theorem i64Bytes_eq (val : Int) : i64Bytes val = wordBytes 8 (BitVec.ofInt 64 val) := by
  rw [wordBytes, BitVec.toNat_ofInt]
  rfl

/-!
## The size pass
-/

theorem atomSz_of_valBytes {c : AtomClass} {val : c.Val} {bs : List UInt8}
    (h : valBytes c val = some bs) : atomSz c val = 1 + bs.length := by
  cases c
  case dateTime => cases h
  case long | timestamp | timespan =>
      rcases Option.map_eq_some_iff.mp h with ⟨val, rfl, rfl⟩
      rw [i64Bytes_length]
      rfl
  all_goals
    cases h
    simp [atomSz, Nat.add_assoc]

theorem foldl_symBytes_length (ary : List (List UInt16)) (sum : Nat) :
    ary.foldl (fun sum val => sum + (u8u16 val).length + 1) sum =
      sum + (ary.flatMap symBytes).length := by
  induction ary generalizing sum with
  | nil => rfl
  | cons val ary ih =>
      rw [List.foldl_cons, ih, List.flatMap_cons, List.length_append, symBytes_length]
      omega

theorem flatMap_length_of_forall {α : Type} {f : α -> List UInt8} {w : Nat}
    (h : forall val, (f val).length = w) (ary : List α) :
    (ary.flatMap f).length = w * ary.length := by
  rw [List.length_flatMap, List.map_congr_left (g := fun _ => w) (fun val _ => h val)]
  simp [Nat.mul_comm]

theorem vectorSz_eq (c : VectorClass) (ary : List c.Elm) :
    vectorSz c ary = 6 + (ary.flatMap (elmBytes c)).length := by
  cases c
  case symbol => exact foldl_symBytes_length ary 6
  case bool | byte | char =>
      exact congrArg (6 + ·)
        ((flatMap_length_of_forall i8Bytes_length ary).trans (Nat.one_mul _)).symm
  case short => exact congrArg (6 + ·) (flatMap_length_of_forall i16Bytes_length ary).symm
  case int | month | date | minute | second | time =>
      exact congrArg (6 + ·) (flatMap_length_of_forall i32Bytes_length ary).symm
  case long | timestamp | timespan =>
      exact congrArg (6 + ·) (flatMap_length_of_forall i64Bytes_length ary).symm
  case real =>
      exact congrArg (6 + ·) (flatMap_length_of_forall (wordBytes_length 4) ary).symm
  case float | dateTime =>
      exact congrArg (6 + ·) (flatMap_length_of_forall (wordBytes_length 8) ary).symm

theorem writeSzFrom_of_bytesAll {ary : List KdbType}
    (h : forall x, x ∈ ary -> forall {bs : List UInt8}, x.bytes = some bs ->
      writeSz x = .ok bs.length) :
    forall {bs : List UInt8} (sum : Nat), KdbType.bytesAll ary = some bs ->
      writeSzFrom sum ary = .ok (sum + bs.length) := by
  induction ary with
  | nil =>
      intro bs sum hbs
      cases hbs
      rfl
  | cons x ary ih =>
      intro bs sum hbs
      rcases KdbType.bytesAll_cons hbs with ⟨xs, ys, hxs, hys, rfl⟩
      have hhead := h x (by simp) hxs
      have htail := ih (fun y hy => h y (List.mem_cons_of_mem x hy)) (sum + xs.length) hys
      rw [writeSzFrom, hhead]
      show writeSzFrom (sum + xs.length) ary = _
      rw [htail, List.length_append, Nat.add_assoc]

theorem writeSz_of_bytes (x : KdbType) :
    forall {bs : List UInt8}, x.bytes = some bs -> writeSz x = .ok bs.length := by
  induction x with
  | atom c val =>
      intro bs h
      rw [KdbType.bytes] at h
      rcases Option.map_eq_some_iff.mp h with ⟨ys, hys, rfl⟩
      rw [writeSz, atomSz_of_valBytes hys, List.length_append, i8Bytes_length]
  | vector c ary att =>
      intro bs h
      rw [KdbType.bytes] at h
      cases h
      rw [writeSz, vectorSz_eq, List.length_append, vecHdrBytes_length]
  | list ary att ih =>
      intro bs h
      rw [KdbType.bytes] at h
      rcases Option.map_eq_some_iff.mp h with ⟨ys, hys, rfl⟩
      rw [writeSz, writeSzFrom_of_bytesAll (fun x hx => ih x hx) 6 hys, List.length_append,
        vecHdrBytes_length]
  | table cols vals att ihc ihv =>
      intro bs h
      rcases KdbType.bytes_table h with ⟨xs, ys, hxs, hys, rfl⟩
      rw [writeSz, ihc hxs, ihv hys]
      show Except.ok (3 + xs.length + ys.length) = _
      simp only [List.length_append, i8Bytes_length]
      exact congrArg Except.ok (by omega)
  | dict keys vals ihk ihv =>
      intro bs h
      rcases KdbType.bytes_dict h with ⟨xs, ys, hxs, hys, rfl⟩
      rw [writeSz, ihk hxs, ihv hys]
      show Except.ok (1 + xs.length + ys.length) = _
      simp only [List.length_append, i8Bytes_length, Nat.add_assoc]
  | function txt =>
      intro bs h
      rw [KdbType.bytes] at h
      cases h
  | projection fn rgs =>
      intro bs h
      rw [KdbType.bytes] at h
      cases h

/-!
## The writing pass
-/

namespace KdbWriter

theorem stores_append (w : KdbWriter) (xs ys : List UInt8) :
    w.stores (xs ++ ys) = (w.stores xs).stores ys :=
  List.foldl_append

theorem foldl_stores {α : Type} (f : α -> List UInt8) (ary : List α) (w : KdbWriter) :
    ary.foldl (fun w val => w.stores (f val)) w = w.stores (ary.flatMap f) := by
  induction ary generalizing w with
  | nil => rfl
  | cons val ary ih => rw [List.foldl_cons, ih, List.flatMap_cons, stores_append]

theorem writeSym_eq (w : KdbWriter) (val : List UInt16) :
    w.writeSym val = w.stores (symBytes val) := by
  rw [symBytes, stores_append]
  rfl

theorem writeVecHdr_eq (w : KdbWriter) (typ : Int) (att : Option Int) (length : Nat) :
    w.writeVecHdr typ att length = w.stores (vecHdrBytes typ att length) := by
  rw [vecHdrBytes, stores_append, stores_append]
  rfl

theorem stores_fill (bs : List UInt8) :
    forall {front zeros : List UInt8}, bs.length <= zeros.length ->
      stores ⟨front ++ zeros, front.length⟩ bs =
        ⟨front ++ bs ++ zeros.drop bs.length, (front ++ bs).length⟩ := by
  induction bs with
  | nil =>
      intro front zeros _
      simp [stores]
  | cons b bs ih =>
      intro front zeros hle
      cases zeros with
      | nil => simp at hle
      | cons z zeros =>
          have hstore : store ⟨front ++ z :: zeros, front.length⟩ b =
              ⟨(front ++ [b]) ++ zeros, (front ++ [b]).length⟩ := by
            simp [store]
          show stores (store ⟨front ++ z :: zeros, front.length⟩ b) bs = _
          rw [hstore, ih (by simpa using hle)]
          simp

theorem stores_all (bs : List UInt8) :
    (stores ⟨List.replicate bs.length 0, 0⟩ bs).buf = bs := by
  have hfill := @stores_fill bs [] (List.replicate bs.length 0)
    (by rw [List.length_replicate])
  rw [List.nil_append, List.length_nil] at hfill
  simp [hfill]

end KdbWriter

theorem writeVal_of_valBytes {c : AtomClass} {val : c.Val} {bs : List UInt8}
    (h : valBytes c val = some bs) (w : KdbWriter) :
    writeVal c val w = .ok (w.stores bs) := by
  cases c
  case dateTime => cases h
  case long | timestamp | timespan =>
      rcases Option.map_eq_some_iff.mp h with ⟨val, rfl, rfl⟩
      rfl
  case symbol | exception =>
      cases h
      exact congrArg Except.ok (w.writeSym_eq val)
  all_goals
    cases h
    rfl

theorem writeAry_eq (c : VectorClass) (ary : List c.Elm) (w : KdbWriter) :
    writeAry c ary w = w.stores (ary.flatMap (elmBytes c)) := by
  cases c
  case symbol =>
      have hfun : KdbWriter.writeSym = fun w val => w.stores (symBytes val) := by
        funext w val
        exact w.writeSym_eq val
      rw [writeAry, hfun]
      exact KdbWriter.foldl_stores symBytes ary w
  all_goals exact KdbWriter.foldl_stores _ ary w

theorem writeElms_of_bytesAll {ary : List KdbType}
    (h : forall x, x ∈ ary -> forall {bs : List UInt8} (w : KdbWriter),
      x.bytes = some bs -> writeElm x w = .ok (w.stores bs)) :
    forall {bs : List UInt8} (w : KdbWriter), KdbType.bytesAll ary = some bs ->
      writeElms ary w = .ok (w.stores bs) := by
  induction ary with
  | nil =>
      intro bs w hbs
      cases hbs
      rfl
  | cons x ary ih =>
      intro bs w hbs
      rcases KdbType.bytesAll_cons hbs with ⟨xs, ys, hxs, hys, rfl⟩
      rw [writeElms, h x (by simp) w hxs]
      show writeElms ary (w.stores xs) = _
      rw [ih (fun y hy => h y (List.mem_cons_of_mem x hy)) _ hys, KdbWriter.stores_append]

theorem writeElm_of_bytes (x : KdbType) :
    forall {bs : List UInt8} (w : KdbWriter), x.bytes = some bs ->
      writeElm x w = .ok (w.stores bs) := by
  induction x with
  | atom c val =>
      intro bs w h
      rw [KdbType.bytes] at h
      rcases Option.map_eq_some_iff.mp h with ⟨ys, hys, rfl⟩
      rw [writeElm, writeVal_of_valBytes hys, KdbWriter.stores_append]
      rfl
  | vector c ary att =>
      intro bs w h
      rw [KdbType.bytes] at h
      cases h
      rw [writeElm, writeAry_eq, KdbWriter.writeVecHdr_eq, KdbWriter.stores_append]
  | list ary att ih =>
      intro bs w h
      rw [KdbType.bytes] at h
      rcases Option.map_eq_some_iff.mp h with ⟨ys, hys, rfl⟩
      rw [writeElm, writeElms_of_bytesAll (fun x hx => ih x hx) _ hys,
        KdbWriter.writeVecHdr_eq, KdbWriter.stores_append]
  | table cols vals att ihc ihv =>
      intro bs w h
      rcases KdbType.bytes_table h with ⟨xs, ys, hxs, hys, rfl⟩
      rw [writeElm, ihc _ hxs]
      show writeElm vals _ = _
      rw [ihv _ hys]
      simp only [KdbWriter.stores_append]
      rfl
  | dict keys vals ihk ihv =>
      intro bs w h
      rcases KdbType.bytes_dict h with ⟨xs, ys, hxs, hys, rfl⟩
      rw [writeElm, ihk _ hxs]
      show writeElm vals _ = _
      rw [ihv _ hys]
      simp only [KdbWriter.stores_append]
      rfl
  | function txt =>
      intro bs w h
      rw [KdbType.bytes] at h
      cases h
  | projection fn rgs =>
      intro bs w h
      rw [KdbType.bytes] at h
      cases h

/-- The header of a message with a payload of `size` bytes. -/
def msgHdrBytes (msgTyp : Int) (size : Nat) : List UInt8 :=
  [1, UInt8.ofInt msgTyp, 0, 0] ++ leBytes 4 (8 + size)

@[simp] theorem msgHdrBytes_length (msgTyp : Int) (size : Nat) :
    (msgHdrBytes msgTyp size).length = 8 := by
  simp [msgHdrBytes]

theorem serialize_of_bytes (msgTyp : Int) {x : KdbType} {bs : List UInt8}
    (h : x.bytes = some bs) :
    serialize msgTyp x = .ok (msgHdrBytes msgTyp bs.length ++ bs) := by
  have hsz := writeSz_of_bytes x h
  have hlen : 8 + bs.length = (msgHdrBytes msgTyp bs.length ++ bs).length := by
    rw [List.length_append, msgHdrBytes_length]
  have hhdr : ((((KdbWriter.writeI8 ⟨List.replicate (8 + bs.length) 0, 0⟩ (some 1)).writeI8
        (some msgTyp)).writeI8 (some 0)).writeI8 (some 0)).writeI32 (some (8 + bs.length : Nat)) =
      KdbWriter.stores ⟨List.replicate (8 + bs.length) 0, 0⟩ (msgHdrBytes msgTyp bs.length) := by
    rw [msgHdrBytes, ← i32Bytes_natCast, KdbWriter.stores_append]
    rfl
  have hbuf := KdbWriter.stores_all (msgHdrBytes msgTyp bs.length ++ bs)
  rw [← hlen, KdbWriter.stores_append, ← hhdr] at hbuf
  rw [serialize, hsz]
  show Except.bind (writeElm x _) _ = _
  rw [writeElm_of_bytes x _ h]
  exact congrArg Except.ok hbuf

end Ipcjs
end MgKdb
