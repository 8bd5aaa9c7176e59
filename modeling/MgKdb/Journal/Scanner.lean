import MgKdb.Foundation.NulText
import MgKdb.Wire.Types

/-!
# The length scanner

`KdbUtil::ipcPayloadLen` computes how long the payload at an address is, without
building it.  It answers -1 for a payload that is not complete, -2 for one it does
not know.

The remaining size travels as an unsigned number next to the address.  As long as
the address lies inside the file it is the number of bytes up to the end; when an
element claims more bytes than there are, the next address lies beyond the end and
the size wraps, so that the scanner goes on reading what it finds there.  Here such
an access ends the scan without a result, as does signed overflow.
-/

namespace MgKdb

open Foundation

/-- The outcome of a scan; `none` when its behaviour is undefined. -/
abbrev Scan := Option Int

def i32OfInt (x : Int) : Int :=
  (BitVec.ofInt 32 x).toInt

namespace KdbUtil

def isAtom (typ : UInt8) : Bool :=
  decide (KdbType.timeAtom.value <= typ.toInt8.toInt ∧
    typ.toInt8.toInt < KdbType.list.value)

def isVec (typ : UInt8) : Bool :=
  decide (KdbType.list.value < typ.toInt8.toInt ∧
    typ.toInt8.toInt <= KdbType.timeVector.value)

end KdbUtil

/-! The length field of `vec_hdr_s`; callers check the size of the header. -/

def hdrLen (src : List UInt8) : Int :=
  i32At (src.drop 2)

/-!
## The classes without parts
-/

def msgLenSymAtom (src : List UInt8) : Scan :=
  if src.length < 2 then some (-1)
  else if src.length - 1 = strnlen (src.drop 1) (src.length - 1) then some (-1)
  else some (1 + strnlen (src.drop 1) (src.length - 1) + 1)

/-- The loop of `msg_len_sym_vec`; `n` symbols are left. -/
def symVecLoop (src : List UInt8) : Nat -> Nat -> Scan
  | 0, off => some off
  | n + 1, off =>
      if src.length - off = strnlen (src.drop off) (src.length - off) then some (-1)
      else symVecLoop src n (off + (strnlen (src.drop off) (src.length - off) + 1))

def msgLenSymVec (src : List UInt8) : Scan :=
  if src.length < 6 then some (-1)
  else symVecLoop src (hdrLen src).toNat 6

def msgLenCmp (len : Int) (width rem : Nat) : Scan :=
  if len < 0 then some (-1)
  else if rem < 6 + len.toNat * width then some (-1)
  else some ((6 + len.toNat * width : Nat) : Int)

def msgLenVec (src : List UInt8) : Scan :=
  if src.length < 6 then some (-1)
  else
    match KdbType.ofI8 (src.headD 0) with
    | some .boolVector | some .byteVector | some .charVector =>
        msgLenCmp (hdrLen src) 1 src.length
    | some .shortVector => msgLenCmp (hdrLen src) 2 src.length
    | some .intVector | some .realVector | some .dateVector | some .monthVector
    | some .minuteVector | some .secondVector | some .timeVector =>
        msgLenCmp (hdrLen src) 4 src.length
    | some .longVector | some .floatVector | some .timestampVector
    | some .timespanVector => msgLenCmp (hdrLen src) 8 src.length
    | some .guidVector => msgLenCmp (hdrLen src) 16 src.length
    | _ => some (-2)

def msgLenAtom (src : List UInt8) : Scan :=
  if src.length = 0 then some (-1)
  else
    match KdbType.ofI8 (src.headD 0) with
    | some .guidAtom => some (1 + 16)
    | some .boolAtom | some .byteAtom | some .charAtom | some .unaryPrimitive
    | some .binaryPrimitive | some .ternaryPrimitive => some (1 + 1)
    | some .shortAtom => some (1 + 2)
    | some .intAtom | some .realAtom | some .dateAtom | some .monthAtom
    | some .minuteAtom | some .secondAtom | some .timeAtom => some (1 + 4)
    | some .longAtom | some .floatAtom | some .timestampAtom
    | some .timespanAtom => some (1 + 8)
    | _ => some (-2)

/-!
## Containers

`payload` is the scanner for the parts.
-/

/-- The loop of `msg_len_list`; `n` elements are left. -/
def listLoop (payload : List UInt8 -> Scan) (src : List UInt8) : Nat -> Nat -> Scan
  | 0, len => some len
  | n + 1, len =>
      if src.length < len then none
      else
        match payload (src.drop len) with
        | none => none
        | some eln =>
            if eln < 0 then some eln else listLoop payload src n (len + eln.toNat)

def msgLenList (payload : List UInt8 -> Scan) (src : List UInt8) : Scan :=
  if src.length < 6 then some (-1)
  else listLoop payload src (hdrLen src).toNat 6

/--
The two parts of a dict, behind its type.  Their lengths are kept in 32-bit numbers
and so is the sum.
-/
def dictLen (payload : List UInt8 -> Scan) (src : List UInt8) : Scan :=
  match payload src with
  | none => none
  | some l =>
      let len := i32OfInt l
      if len < 0 then some len
      else if src.length < len.toNat then none
      else
        match payload (src.drop len.toNat) with
        | none => none
        | some t =>
            let tmp := i32OfInt t
            if tmp < 0 then some tmp
            else if 2 ^ 31 <= 1 + len + tmp then none
            else some (1 + len + tmp)

/-- A table has an attribute between its type and the dict that is in it. -/
def msgLenVary (payload : List UInt8 -> Scan) : List UInt8 -> Scan
  | [] => some (-1)
  | [typ] =>
      if typ = KdbType.table.i8 then none
      else if typ = KdbType.dict.i8 ∨ typ = KdbType.stepDict.i8 then dictLen payload []
      else some (-2)
  | typ :: att :: src =>
      if typ = KdbType.table.i8 then
        (msgLenVary payload src).map (fun len => 2 + len)
      else if typ = KdbType.dict.i8 ∨ typ = KdbType.stepDict.i8 then
        dictLen payload (att :: src)
      else some (-2)

/-- `ipcPayloadLen`, given the scanner for the parts. -/
def ipcPayloadLenOf (payload : List UInt8 -> Scan) (src : List UInt8) : Scan :=
  if src.length = 0 then some (-1)
  else if src.headD 0 = KdbType.list.i8 then msgLenList payload src
  else if KdbUtil.isAtom (src.headD 0) then
    if src.headD 0 = KdbType.symbolAtom.i8 then msgLenSymAtom src else msgLenAtom src
  else if KdbUtil.isVec (src.headD 0) then
    if src.headD 0 = KdbType.symbolVector.i8 then msgLenSymVec src else msgLenVec src
  else msgLenVary payload src

def payloadLenFuel : Nat -> List UInt8 -> Scan
  | 0, _ => none
  | n + 1, src => ipcPayloadLenOf (payloadLenFuel n) src

/-- Every part starts behind the first byte of what it is a part of. -/
def ipcPayloadLen (src : List UInt8) : Scan :=
  payloadLenFuel (src.length + 1) src

/-!
## The recursion
-/

/-- Two scanners for the parts that agree on everything shorter than `n`. -/
def AgreeBelow (n : Nat) (p q : List UInt8 -> Scan) : Prop :=
  forall src, src.length < n -> p src = q src

theorem AgreeBelow.mono {m n : Nat} {p q : List UInt8 -> Scan} (h : AgreeBelow n p q)
    (hmn : m <= n) : AgreeBelow m p q :=
  fun src hlen => h src (Nat.lt_of_lt_of_le hlen hmn)

theorem listLoop_congr {p q : List UInt8 -> Scan} {src : List UInt8}
    (h : AgreeBelow src.length p q) (n : Nat) :
    forall {len : Nat}, 0 < len -> listLoop p src n len = listLoop q src n len := by
  induction n with
  | zero =>
      intro len _
      rfl
  | succ n ih =>
      intro len hlen
      rw [listLoop, listLoop]
      by_cases hsrc : src.length < len
      · rw [if_pos hsrc, if_pos hsrc]
      · have hpart : p (src.drop len) = q (src.drop len) := by
          apply h
          rw [List.length_drop]
          omega
        rw [if_neg hsrc, if_neg hsrc, hpart]
        cases q (src.drop len) with
        | none => rfl
        | some eln =>
            simp only
            split
            · rfl
            · exact ih (by omega)

theorem dictLen_congr {p q : List UInt8 -> Scan} {src : List UInt8}
    (h : AgreeBelow (src.length + 1) p q) : dictLen p src = dictLen q src := by
  unfold dictLen
  rw [h src (Nat.lt_succ_self _)]
  cases q src with
  | none => rfl
  | some l =>
      have hpart : p (src.drop (i32OfInt l).toNat) = q (src.drop (i32OfInt l).toNat) := by
        apply h
        rw [List.length_drop]
        omega
      simp only [hpart]

theorem msgLenVary_congr {p q : List UInt8 -> Scan} {src : List UInt8}
    (h : AgreeBelow src.length p q) : msgLenVary p src = msgLenVary q src := by
  fun_induction msgLenVary p src with
  | case1 => rfl
  | case2 => rfl
  | case3 typ htyp hdict =>
      rw [msgLenVary, if_neg htyp, if_pos hdict, dictLen_congr h]
  | case4 typ htyp hdict => rw [msgLenVary, if_neg htyp, if_neg hdict]
  | case5 att src ih =>
      have hih := ih (h.mono (by rw [List.length_cons, List.length_cons]; omega))
      rw [msgLenVary, if_pos rfl, hih]
  | case6 typ att src htyp hdict =>
      rw [msgLenVary, if_neg htyp, if_pos hdict, dictLen_congr h]
  | case7 typ att src htyp hdict => rw [msgLenVary, if_neg htyp, if_neg hdict]

theorem ipcPayloadLenOf_congr {p q : List UInt8 -> Scan} {src : List UInt8}
    (h : AgreeBelow src.length p q) : ipcPayloadLenOf p src = ipcPayloadLenOf q src := by
  unfold ipcPayloadLenOf msgLenList
  by_cases hsrc : src.length = 0
  · rw [if_pos hsrc, if_pos hsrc]
  · rw [listLoop_congr h _ (by omega), msgLenVary_congr h]

theorem payloadLenFuel_eq (n : Nat) :
    forall {m : Nat} {src : List UInt8}, src.length < n -> src.length < m ->
      payloadLenFuel n src = payloadLenFuel m src := by
  induction n with
  | zero =>
      intro m src hn
      omega
  | succ n ih =>
      intro m src hn hm
      cases m with
      | zero => omega
      | succ m =>
          rw [payloadLenFuel, payloadLenFuel]
          apply ipcPayloadLenOf_congr
          intro part hpart
          exact ih (by omega) (by omega)

theorem ipcPayloadLen_eq (src : List UInt8) :
    ipcPayloadLen src = ipcPayloadLenOf ipcPayloadLen src := by
  rw [ipcPayloadLen, payloadLenFuel]
  apply ipcPayloadLenOf_congr
  intro part hpart
  exact payloadLenFuel_eq _ hpart (Nat.lt_succ_self _)

end MgKdb
