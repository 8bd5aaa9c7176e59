import MgKdb.Ipcjs.Writer
import MgKdb.Writer.Message

/-!
# The two encoders

A K value and its counterpart among the JavaScript objects are written as the same bytes.
Counterparts exist for values without floating-point numbers, functions and the like, for
ASCII text, and for atoms whose number the JavaScript constructors do not discard.
-/

namespace MgKdb
namespace Ipcjs

open Foundation

/-- The member of `KdbMsgTyp` for a message type of the other implementation. -/
def msgTypOf : KdbMsgType -> Int
  | .async => KdbMsgTyp.async
  | .sync => KdbMsgTyp.sync
  | .response => KdbMsgTyp.response

/-!
## Counterparts
-/

def textOf (s : NulText) : Option (List UInt16) :=
  if s.text.all (· < 0x80) then some (s.text.map UInt8.toUInt16) else none

def nonzero {w : Nat} (val : BitVec w) : Option (Option Int) :=
  if val = 0 then none else some (some val.toInt)

def atomOf : (e : Elem) -> BitVec (8 * e.width) -> Option KdbType
  | .bool, val =>
      if val = 0 then some (.atom .bool false)
      else if val = 1 then some (.atom .bool true) else none
  | .byte, val => some (.atom .byte val.toNat)
  | .short, val => (nonzero val).map (.atom .short ·)
  | .int, val => (nonzero val).map (.atom .int ·)
  | .long, val => (nonzero val).map (.atom .long ·)
  | .timestamp, val => (nonzero val).map (.atom .timestamp ·)
  | .month, val => (nonzero val).map (.atom .month ·)
  | .date, val => (nonzero val).map (.atom .date ·)
  | .timespan, val => (nonzero val).map (.atom .timespan ·)
  | .minute, val => (nonzero val).map (.atom .minute ·)
  | .second, val => (nonzero val).map (.atom .second ·)
  | .time, val => (nonzero val).map (.atom .time ·)
  | .guid, _ | .real, _ | .float, _ | .char, _ => none

def vectorOf : (e : Elem) -> List (BitVec (8 * e.width)) -> Int -> Option KdbType
  | .bool, vec, att => some (.vector .bool (vec.map BitVec.toInt) (some att))
  | .byte, vec, att => some (.vector .byte (vec.map fun val => val.toNat) (some att))
  | .short, vec, att => some (.vector .short (vec.map BitVec.toInt) (some att))
  | .int, vec, att => some (.vector .int (vec.map BitVec.toInt) (some att))
  | .long, vec, att => some (.vector .long (vec.map BitVec.toInt) (some att))
  | .char, vec, att => some (.vector .char (vec.map BitVec.toInt) (some att))
  | .timestamp, vec, att => some (.vector .timestamp (vec.map BitVec.toInt) (some att))
  | .month, vec, att => some (.vector .month (vec.map BitVec.toInt) (some att))
  | .date, vec, att => some (.vector .date (vec.map BitVec.toInt) (some att))
  | .timespan, vec, att => some (.vector .timespan (vec.map BitVec.toInt) (some att))
  | .minute, vec, att => some (.vector .minute (vec.map BitVec.toInt) (some att))
  | .second, vec, att => some (.vector .second (vec.map BitVec.toInt) (some att))
  | .time, vec, att => some (.vector .time (vec.map BitVec.toInt) (some att))
  | .guid, _, _ | .real, _, _ | .float, _, _ => none

def symbolsOf (attr : UInt8) (syms : List NulText) : Option KdbType :=
  (syms.mapM textOf).map fun ary => .vector .symbol ary (some attr.toNat)

mutual

def toJs : KVal -> Option KdbType
  | .atom e val => atomOf e val
  | .symbolAtom val => (textOf val).map (.atom .symbol ·)
  | .list attr vals => (toJsAll vals).map (.list · attr.toNat)
  | .vector e attr vec => vectorOf e vec attr.toNat
  | .symbolVector attr syms => symbolsOf attr syms
  | .table colsAttr cols valsAttr vals => do
      let cols ← symbolsOf colsAttr cols
      let vals ← toJsAll vals
      return .table cols (.list vals valsAttr.toNat) (some 0)
  | .dict keys vals => do
      let keys ← toJs keys
      let vals ← toJs vals
      return .dict keys vals
  | .exception _ | .function _ | .primitive _ _ | .projection _ => none

def toJsAll : List KVal -> Option (List KdbType)
  | [] => some []
  | v :: vals => do
      let x ← toJs v
      let ary ← toJsAll vals
      return x :: ary

end

/-!
## Words
-/

theorem i8Bytes_toInt (val : BitVec 8) : i8Bytes val.toInt = wordBytes 1 val := by
  rw [i8Bytes_eq, BitVec.ofInt_toInt]

theorem i8Bytes_toNat (val : BitVec 8) : i8Bytes val.toNat = wordBytes 1 val := by
  rw [i8Bytes_eq, BitVec.ofInt_natCast, BitVec.ofNat_toNat, BitVec.setWidth_eq]

theorem i16Bytes_toInt (val : BitVec 16) : i16Bytes val.toInt = wordBytes 2 val := by
  rw [i16Bytes_eq, BitVec.ofInt_toInt]

theorem i32Bytes_toInt (val : BitVec 32) : i32Bytes val.toInt = wordBytes 4 val := by
  rw [i32Bytes_eq, BitVec.ofInt_toInt]

theorem i64Bytes_toInt (val : BitVec 64) : i64Bytes val.toInt = wordBytes 8 val := by
  rw [i64Bytes_eq, BitVec.ofInt_toInt]

/-!
## Equal bytes, part by part
-/

theorem nonzero_eq_some {w : Nat} {val : BitVec w} {n : Option Int}
    (h : nonzero val = some n) : n = some val.toInt := by
  unfold nonzero at h
  split at h
  · cases h
  · exact (Option.some.inj h).symm

theorem bytes_atom {c : AtomClass} {val : c.Val} {e : Elem} {word : BitVec (8 * e.width)}
    (htyp : UInt8.ofInt c.typ = e.atomTyp.i8)
    (hval : valBytes c val = some (wordBytes e.width word)) :
    (KdbType.atom c val).bytes = some (KVal.encode (.atom e word)) := by
  rw [KdbType.bytes, hval, KVal.encode, ← htyp]
  rfl

theorem bytes_atomOf {e : Elem} {val : BitVec (8 * e.width)} {x : KdbType}
    (h : atomOf e val = some x) : x.bytes = some (KVal.encode (.atom e val)) := by
  cases e
  case guid | real | float | char => cases h
  case bool =>
      rw [atomOf] at h
      split at h
      · rename_i hzero
        cases h
        rw [hzero]
        rfl
      · split at h
        · rename_i hone
          cases h
          rw [hone]
          rfl
        · cases h
  case byte =>
      cases h
      exact bytes_atom rfl (congrArg some (i8Bytes_toNat val))
  all_goals
    rcases Option.map_eq_some_iff.mp h with ⟨n, hn, rfl⟩
    rw [nonzero_eq_some hn]
  case short => exact bytes_atom rfl (congrArg some (i16Bytes_toInt val))
  case int | month | date | minute | second | time =>
      exact bytes_atom rfl (congrArg some (i32Bytes_toInt val))
  case long | timestamp | timespan =>
      exact bytes_atom rfl (congrArg some (i64Bytes_toInt val))

theorem vecHdrBytes_toNat {typ : Int} {t : MgKdb.KdbType} (h : UInt8.ofInt typ = t.i8)
    (attr : UInt8) (n : Nat) :
    vecHdrBytes typ (some attr.toNat) n = KVal.vecHdr t attr n := by
  have hattr : i8Bytes attr.toNat = [attr] := by
    rw [i8Bytes, UInt8.ofInt]
    have hmod : ((attr.toNat : Int) % 2 ^ 8).toNat = attr.toNat := by
      have hlt := attr.toNat_lt
      omega
    rw [hmod, UInt8.ofNat_toNat]
  show i8Bytes typ ++ i8Bytes attr.toNat ++ i32Bytes n = _
  rw [hattr, i32Bytes_natCast, i8Bytes, h]
  rfl

theorem bytes_vector {c : VectorClass} {e : Elem} {f : BitVec (8 * e.width) -> c.Elm}
    (htyp : UInt8.ofInt c.typ = e.vectorTyp.i8)
    (hval : forall val, elmBytes c (f val) = wordBytes e.width val) (attr : UInt8)
    (vec : List (BitVec (8 * e.width))) :
    (KdbType.vector c (vec.map f) (some attr.toNat)).bytes =
      some (KVal.encode (.vector e attr vec)) := by
  have hall : (vec.map f).flatMap (elmBytes c) = wordsBytes e.width vec := by
    rw [List.flatMap_map, wordsBytes]
    exact congrArg (List.flatMap · vec) (funext hval)
  rw [KdbType.bytes, hall, vecHdrBytes_toNat htyp, List.length_map, KVal.encode]

theorem bytes_vectorOf {e : Elem} {attr : UInt8} {vec : List (BitVec (8 * e.width))}
    {x : KdbType} (h : vectorOf e vec attr.toNat = some x) :
    x.bytes = some (KVal.encode (.vector e attr vec)) := by
  cases e
  case guid | real | float => cases h
  all_goals cases h
  all_goals refine bytes_vector rfl ?_ attr vec
  case bool | char => exact i8Bytes_toInt
  case byte => exact i8Bytes_toNat
  case short => exact i16Bytes_toInt
  case int | month | date | minute | second | time => exact i32Bytes_toInt
  case long | timestamp | timespan => exact i64Bytes_toInt

theorem isAscii_map {bs : List UInt8} (hnul : NulFree bs)
    (h : forall b, b ∈ bs -> b < 0x80) : IsAscii (bs.map UInt8.toUInt16) := by
  intro c hc
  rcases List.mem_map.mp hc with ⟨b, hb, rfl⟩
  have hne : b ≠ 0 := fun hzero => hnul (hzero ▸ hb)
  have hpos : b.toNat ≠ (0 : UInt8).toNat := fun hzero => hne (UInt8.toNat_inj.mp hzero)
  have hlt : b.toNat < 128 := UInt8.lt_iff_toNat_lt.mp (h b hb)
  rw [UInt16.lt_iff_toNat_lt, UInt16.lt_iff_toNat_lt, UInt8.toNat_toUInt16]
  exact ⟨Nat.pos_of_ne_zero hpos, hlt⟩

theorem symBytes_textOf {s : NulText} {text : List UInt16} (h : textOf s = some text) :
    symBytes text = s.bytes := by
  unfold textOf at h
  split at h
  · rename_i hall
    have hascii : forall b, b ∈ s.text -> b < 0x80 := by simpa using hall
    cases h
    have hback : UInt16.toUInt8 ∘ UInt8.toUInt16 = id := by
      funext b
      exact UInt8.toUInt8_toUInt16 b
    rw [symBytes, u8u16_ascii (isAscii_map s.nulFree hascii), List.map_map, hback, List.map_id,
      NulText.bytes]
  · cases h

theorem flatMap_symBytes {syms : List NulText} :
    forall {ary : List (List UInt16)}, syms.mapM textOf = some ary ->
      ary.flatMap symBytes = KVal.symsBytes syms ∧ ary.length = syms.length := by
  induction syms with
  | nil =>
      intro ary h
      cases h
      exact ⟨rfl, rfl⟩
  | cons s syms ih =>
      intro ary h
      rw [List.mapM_cons] at h
      rcases Option.bind_eq_some_iff.mp h with ⟨text, htext, hmore⟩
      rcases Option.bind_eq_some_iff.mp hmore with ⟨texts, htexts, hall⟩
      cases hall
      rcases ih htexts with ⟨hbytes, hlen⟩
      refine ⟨?_, congrArg Nat.succ hlen⟩
      rw [List.flatMap_cons, symBytes_textOf htext, hbytes, KVal.symsBytes_cons]

theorem bytes_symbolsOf {attr : UInt8} {syms : List NulText} {x : KdbType}
    (h : symbolsOf attr syms = some x) :
    x.bytes = some (KVal.encode (.symbolVector attr syms)) := by
  rcases Option.map_eq_some_iff.mp h with ⟨ary, hary, rfl⟩
  rcases flatMap_symBytes hary with ⟨hbytes, hlen⟩
  rw [KdbType.bytes, KVal.encode, ← hbytes, ← hlen]
  exact congrArg (fun hdr => some (hdr ++ _)) (vecHdrBytes_toNat rfl attr ary.length)

theorem bytesAll_toJsAll {vals : List KVal}
    (h : forall v, v ∈ vals -> forall {x : KdbType}, toJs v = some x ->
      x.bytes = some v.encode) :
    forall {ary : List KdbType}, toJsAll vals = some ary ->
      KdbType.bytesAll ary = some (KVal.encodeAll vals) ∧ ary.length = vals.length := by
  induction vals with
  | nil =>
      intro ary hary
      cases hary
      exact ⟨rfl, rfl⟩
  | cons v vals ih =>
      intro ary hary
      rw [toJsAll] at hary
      rcases Option.bind_eq_some_iff.mp hary with ⟨x, hx, hmore⟩
      rcases Option.bind_eq_some_iff.mp hmore with ⟨ys, hys, hall⟩
      cases hall
      rcases ih (fun u hu => h u (List.mem_cons_of_mem v hu)) hys with ⟨hbytes, hlen⟩
      refine ⟨?_, congrArg Nat.succ hlen⟩
      rw [KdbType.bytesAll, h v (by simp) hx, hbytes, KVal.encodeAll_cons]
      rfl

theorem bytes_toJs (v : KVal) :
    forall {x : KdbType}, toJs v = some x -> x.bytes = some v.encode := by
  induction v with
  | atom e val =>
      intro x h
      rw [toJs] at h
      exact bytes_atomOf h
  | symbolAtom val =>
      intro x h
      rw [toJs] at h
      rcases Option.map_eq_some_iff.mp h with ⟨text, htext, rfl⟩
      rw [KVal.encode, ← symBytes_textOf htext]
      rfl
  | list attr vals ih =>
      intro x h
      rw [toJs] at h
      rcases Option.map_eq_some_iff.mp h with ⟨ary, hary, rfl⟩
      rcases bytesAll_toJsAll ih hary with ⟨hbytes, hlen⟩
      rw [KdbType.bytes, hbytes, hlen, vecHdrBytes_toNat (t := .list) rfl, KVal.encode]
      rfl
  | vector e attr vec =>
      intro x h
      rw [toJs] at h
      exact bytes_vectorOf h
  | symbolVector attr syms =>
      intro x h
      rw [toJs] at h
      exact bytes_symbolsOf h
  | table colsAttr cols valsAttr vals ih =>
      intro x h
      rw [toJs] at h
      rcases Option.bind_eq_some_iff.mp h with ⟨c, hc, hmore⟩
      rcases Option.bind_eq_some_iff.mp hmore with ⟨ary, hary, hall⟩
      cases hall
      rcases bytesAll_toJsAll ih hary with ⟨hbytes, hlen⟩
      rw [KdbType.bytes, bytes_symbolsOf hc, KdbType.bytes, hbytes, hlen,
        vecHdrBytes_toNat (t := .list) rfl, KVal.encode_table, KVal.encode]
      rfl
  | dict keys vals ihk ihv =>
      intro x h
      rw [toJs] at h
      rcases Option.bind_eq_some_iff.mp h with ⟨k, hk, hmore⟩
      rcases Option.bind_eq_some_iff.mp hmore with ⟨w, hw, hall⟩
      cases hall
      rw [KdbType.bytes, ihk hk, ihv hw, KVal.encode]
      rfl
  | exception msg =>
      intro x h
      rw [toJs] at h
      cases h
  | function text =>
      intro x h
      rw [toJs] at h
      cases h
  | primitive arity val =>
      intro x h
      rw [toJs] at h
      cases h
  | projection parts =>
      intro x h
      rw [toJs] at h
      cases h

/-!
## Equal messages
-/

theorem msgHdrBytes_msgTypOf (typ : KdbMsgType) (size : Nat) :
    msgHdrBytes (msgTypOf typ) size = KVal.msgHdr typ size := by
  cases typ <;> rfl

/--
The serialiser of the one library produces what the writer of the other leaves in its
buffers, whatever their capacities, once nothing remains to be written.  An attribute that
is missing counts as zero.
-/
theorem serialize_eq_write (typ : KdbMsgType) (v : KVal) (x : KdbType)
    (hx : toJs v = some x.withAtt) (o : KdbBase) (ho : v.Holds o)
    (w : KdbIpcMessageWriter) (hw : KdbIpcMessageWriter.new typ o = some w)
    (caps : List Nat)
    (hdone : (KdbIpcMessageWriter.producer.run w caps).2.bytesRemaining = 0) :
    serialize (msgTypOf typ) x =
      .ok (Producer.output (KdbIpcMessageWriter.producer.run w caps).1) := by
  have hbytes : x.bytes = some v.encode := by
    rw [← x.bytes_withAtt]
    exact bytes_toJs v hx
  rw [KdbIpcMessageWriter.write_all typ (KVal.bytes_of_holds v ho) hw caps hdone,
    serialize_of_bytes (msgTypOf typ) hbytes, msgHdrBytes_msgTypOf]

/-- A table with one column of dates, and its counterpart without attributes. -/
def dates : KVal :=
  .table 0 [⟨[100], by decide⟩] 0 [.vector .date 0 [0, 8036]]

def datesJs : KdbType :=
  .table (.vector .symbol [[100]] none) (.list [.vector .date [0, 8036] none] 0) none

/-- The table is written into three buffers. -/
theorem serialize_eq_write_dates :
    exists w, KdbIpcMessageWriter.new .response dates.obj = some w ∧
      serialize (msgTypOf .response) datesJs =
        .ok (Producer.output (KdbIpcMessageWriter.producer.run w [9, 20, 30]).1) :=
  ⟨_, rfl, serialize_eq_write .response dates datesJs rfl _ (KVal.holds_obj _) _ rfl
    [9, 20, 30] (by decide +kernel)⟩

end Ipcjs
end MgKdb
