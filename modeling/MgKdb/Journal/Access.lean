import MgKdb.Journal.Payload

/-!
# The accesses of the length scanner

The scanner once more, over an array, an address in it and a remaining size.  Every read
of a byte and every subtraction from a remaining size is a step of its own, which fails
when the index is not below the size of the array, or when the unsigned difference wraps.
-/

namespace MgKdb

open Foundation

inductive ScanFault where
  /-- A byte behind the end of the array is read. -/
  | read
  /-- A remaining size wraps. -/
  | wrap
  /-- The length of a dict does not fit the 32-bit sum of its parts. -/
  | overflow
  /-- The bound on the depth is used up. -/
  | depth
  deriving DecidableEq

abbrev Access := Except ScanFault

def byteAt (src : List UInt8) (i : Nat) : Access UInt8 :=
  match src[i]? with
  | none => .error .read
  | some b => .ok b

/-- The difference of two `uint64_t` numbers. -/
def minus (a b : Nat) : Access Nat :=
  if a < b then .error .wrap else .ok (a - b)

/-- `strnlen(src + off, max)` -/
def strnlenAt (src : List UInt8) : Nat -> Nat -> Access Nat
  | _, 0 => .ok 0
  | off, max + 1 => do
      let b ← byteAt src off
      if b = 0 then return 0
      return (← strnlenAt src (off + 1) max) + 1

/-- `hdr->len` of the header at `src + off`. -/
def hdrLenAt (src : List UInt8) (off : Nat) : Access Int := do
  let b0 ← byteAt src (off + 2)
  let b1 ← byteAt src (off + 3)
  let b2 ← byteAt src (off + 4)
  let b3 ← byteAt src (off + 5)
  return i32At [b0, b1, b2, b3]

/-!
## The classes without parts
-/

def msgLenSymAtomAt (src : List UInt8) (off rem : Nat) : Access Int := do
  if rem < 2 then return -1
  let max ← minus rem 1
  let len ← strnlenAt src (off + 1) max
  if max = len then return -1
  return 1 + len + 1

/-- The loop of `msg_len_sym_vec`; `n` symbols are left, and `pos` is its offset. -/
def symVecLoopAt (src : List UInt8) (off rem : Nat) : Nat -> Nat -> Access Int
  | 0, pos => return pos
  | n + 1, pos => do
      let max ← minus rem pos
      let sln ← strnlenAt src (off + pos) max
      if max = sln then return -1
      symVecLoopAt src off rem n (pos + (sln + 1))

def msgLenSymVecAt (src : List UInt8) (off rem : Nat) : Access Int := do
  if rem < 6 then return -1
  let len ← hdrLenAt src off
  symVecLoopAt src off rem len.toNat 6

def msgLenCmpAt (len : Int) (width rem : Nat) : Int :=
  if len < 0 then -1
  else if rem < 6 + len.toNat * width then -1
  else ((6 + len.toNat * width : Nat) : Int)

def msgLenVecAt (src : List UInt8) (off rem : Nat) : Access Int := do
  if rem < 6 then return -1
  let len ← hdrLenAt src off
  let typ ← byteAt src off
  match KdbType.ofI8 typ with
  | some .boolVector | some .byteVector | some .charVector => return msgLenCmpAt len 1 rem
  | some .shortVector => return msgLenCmpAt len 2 rem
  | some .intVector | some .realVector | some .dateVector | some .monthVector
  | some .minuteVector | some .secondVector | some .timeVector =>
      return msgLenCmpAt len 4 rem
  | some .longVector | some .floatVector | some .timestampVector | some .timespanVector =>
      return msgLenCmpAt len 8 rem
  | some .guidVector => return msgLenCmpAt len 16 rem
  | _ => return -2

/-- How many bytes `msg_len_atom` answers for an atom of a type, if it knows it. -/
def atomLen (typ : UInt8) : Option Nat :=
  match KdbType.ofI8 typ with
  | some .guidAtom => some (1 + 16)
  | some .boolAtom | some .byteAtom | some .charAtom | some .unaryPrimitive
  | some .binaryPrimitive | some .ternaryPrimitive => some (1 + 1)
  | some .shortAtom => some (1 + 2)
  | some .intAtom | some .realAtom | some .dateAtom | some .monthAtom | some .minuteAtom
  | some .secondAtom | some .timeAtom => some (1 + 4)
  | some .longAtom | some .floatAtom | some .timestampAtom | some .timespanAtom =>
      some (1 + 8)
  | _ => none

def msgLenAtomAt (src : List UInt8) (off rem : Nat) : Access Int := do
  if rem = 0 then return -1
  let typ ← byteAt src off
  match atomLen typ with
  | some len => return len
  | none => return -2

/-!
## Containers

`payload` is the scanner for the parts.
-/

/-- The loop of `msg_len_list`; `n` elements are left. -/
def listLoopAt (payload : Nat -> Nat -> Access Int) (off rem : Nat) :
    Nat -> Nat -> Access Int
  | 0, len => return len
  | n + 1, len => do
      let left ← minus rem len
      let eln ← payload (off + len) left
      if eln < 0 then return eln
      listLoopAt payload off rem n (len + eln.toNat)

def msgLenListAt (payload : Nat -> Nat -> Access Int) (src : List UInt8) (off rem : Nat) :
    Access Int := do
  if rem < 6 then return -1
  let cnt ← hdrLenAt src off
  listLoopAt payload off rem cnt.toNat 6

/-- The two parts of a dict, whose type is at `src + off`. -/
def dictLenAt (payload : Nat -> Nat -> Access Int) (off rem : Nat) : Access Int := do
  let left ← minus rem 1
  let len := i32OfInt (← payload (off + 1) left)
  if len < 0 then return len
  let left ← minus left len.toNat
  let tmp := i32OfInt (← payload (off + 1 + len.toNat) left)
  if tmp < 0 then return tmp
  if 2 ^ 31 <= 1 + len + tmp then .error .overflow
  else return 1 + len + tmp

def msgLenVaryAt (payload : Nat -> Nat -> Access Int) (src : List UInt8) :
    Nat -> Nat -> Access Int
  | _, 0 => return -1
  | off, 1 => do
      let typ ← byteAt src off
      -- one minus two
      if typ = KdbType.table.i8 then .error .wrap
      else if typ = KdbType.dict.i8 ∨ typ = KdbType.stepDict.i8 then dictLenAt payload off 1
      else return -2
  | off, rem + 2 => do
      let typ ← byteAt src off
      if typ = KdbType.table.i8 then return 2 + (← msgLenVaryAt payload src (off + 2) rem)
      else if typ = KdbType.dict.i8 ∨ typ = KdbType.stepDict.i8 then
        dictLenAt payload off (rem + 2)
      else return -2

/-- `ipcPayloadLen`, given the scanner for the parts. -/
def payloadLenOfAt (payload : Nat -> Nat -> Access Int) (src : List UInt8) (off rem : Nat) :
    Access Int := do
  if rem = 0 then return -1
  let typ ← byteAt src off
  if typ = KdbType.list.i8 then msgLenListAt payload src off rem
  else if KdbUtil.isAtom typ then
    if typ = KdbType.symbolAtom.i8 then msgLenSymAtomAt src off rem
    else msgLenAtomAt src off rem
  else if KdbUtil.isVec typ then
    if typ = KdbType.symbolVector.i8 then msgLenSymVecAt src off rem
    else msgLenVecAt src off rem
  else msgLenVaryAt payload src off rem

def payloadLenFuelAt (src : List UInt8) : Nat -> Nat -> Nat -> Access Int
  | 0, _, _ => .error .depth
  | n + 1, off, rem => payloadLenOfAt (payloadLenFuelAt src n) src off rem

def payloadLenAt (src : List UInt8) : Access Int :=
  payloadLenFuelAt src (src.length + 1) 0 src.length

/-- Neither does a read leave the array nor a remaining size wrap. -/
def StaysInside (src : List UInt8) : Prop :=
  payloadLenAt src ≠ .error .read ∧ payloadLenAt src ≠ .error .wrap

instance (src : List UInt8) : Decidable (StaysInside src) :=
  inferInstanceAs (Decidable (_ ∧ _))

/-!
## Reads of what is there
-/

theorem Access.ok_bind {α β : Type} (a : α) (f : α -> Access β) :
    ((Except.ok a : Access α) >>= f) = f a := rfl

/--
The two scanners answer the same, or this one has failed in a step in which the other has
no result.
-/
def Agrees : Access Int -> Scan -> Prop
  | .ok x, some y => x = y
  | .error .wrap, none | .error .overflow, none => True
  | _, _ => False

section Reads

variable {src : List UInt8} {off rem : Nat}

theorem minus_of_le {a b : Nat} (h : b <= a) : minus a b = .ok (a - b) :=
  if_neg (by omega)

theorem minus_of_lt {a b : Nat} (h : a < b) : minus a b = .error .wrap :=
  if_pos h

theorem byteAt_of_lt (h : off < src.length) :
    byteAt src off = .ok ((src.drop off).headD 0) := by
  rw [byteAt, List.getElem?_eq_getElem h, List.drop_eq_getElem_cons h]
  rfl

theorem strnlenAt_eq (max : Nat) : forall {off : Nat}, off + max <= src.length ->
    strnlenAt src off max = .ok (strnlen (src.drop off) max) := by
  induction max with
  | zero =>
      intro off _
      rw [strnlenAt, strnlen_zero]
  | succ max ih =>
      intro off hle
      have hlt : off < src.length := by omega
      rw [strnlenAt, byteAt_of_lt hlt, List.drop_eq_getElem_cons hlt, strnlen_cons,
        ih (by omega), Access.ok_bind, List.headD_cons]
      by_cases hb : src[off] = 0
      · rw [if_pos hb, if_pos hb]
        rfl
      · rw [if_neg hb, if_neg hb]
        rfl

theorem hdrLenAt_eq (h : off + 6 <= src.length) :
    hdrLenAt src off = .ok (hdrLen (src.drop off)) := by
  have hbytes : forall k, k < 6 -> byteAt src (off + k) = .ok ((src.drop off)[k]?.getD 0) := by
    intro k hk
    rw [byteAt, List.getElem?_drop, List.getElem?_eq_getElem (by omega)]
    rfl
  have hlong : 6 <= (src.drop off).length := by
    rw [List.length_drop]
    omega
  rw [hdrLenAt, hbytes 2 (by omega), hbytes 3 (by omega), hbytes 4 (by omega),
    hbytes 5 (by omega)]
  match hdr : src.drop off, hlong with
  | b0 :: b1 :: b2 :: b3 :: b4 :: b5 :: more, _ => rfl

/-!
## The classes without parts
-/

theorem msgLenSymAtomAt_agrees (h : off + rem = src.length) :
    Agrees (msgLenSymAtomAt src off rem) (msgLenSymAtom (src.drop off)) := by
  have hlen : (src.drop off).length = rem := by
    rw [List.length_drop]
    omega
  rw [msgLenSymAtomAt, msgLenSymAtom, hlen]
  by_cases hshort : rem < 2
  · rw [if_pos hshort, if_pos hshort]
    rfl
  · have hname : strnlenAt src (off + 1) (rem - 1) =
        .ok (strnlen (src.drop (off + 1)) (rem - 1)) := strnlenAt_eq _ (by omega)
    rw [if_neg hshort, if_neg hshort, minus_of_le (by omega), Access.ok_bind, hname,
      Access.ok_bind, List.drop_drop]
    split
    · rfl
    · rfl

theorem symVecLoopAt_agrees (h : off + rem = src.length) (n : Nat) :
    forall {pos : Nat}, pos <= rem ->
      Agrees (symVecLoopAt src off rem n pos) (symVecLoop (src.drop off) n pos) := by
  have hlen : (src.drop off).length = rem := by
    rw [List.length_drop]
    omega
  induction n with
  | zero =>
      intro pos _
      rfl
  | succ n ih =>
      intro pos hpos
      have hname : strnlenAt src (off + pos) (rem - pos) =
          .ok (strnlen (src.drop (off + pos)) (rem - pos)) := strnlenAt_eq _ (by omega)
      rw [symVecLoopAt, symVecLoop, hlen, minus_of_le hpos, Access.ok_bind, hname,
        Access.ok_bind, List.drop_drop]
      by_cases hend : rem - pos = strnlen (src.drop (off + pos)) (rem - pos)
      · rw [if_pos hend, if_pos hend]
        rfl
      · have hle := (strnlen_spec (src.drop (off + pos)) (rem - pos)).left
        rw [if_neg hend, if_neg hend]
        exact ih (by omega)

theorem msgLenSymVecAt_agrees (h : off + rem = src.length) :
    Agrees (msgLenSymVecAt src off rem) (msgLenSymVec (src.drop off)) := by
  have hlen : (src.drop off).length = rem := by
    rw [List.length_drop]
    omega
  rw [msgLenSymVecAt, msgLenSymVec, hlen]
  by_cases hshort : rem < 6
  · rw [if_pos hshort, if_pos hshort]
    rfl
  · rw [if_neg hshort, if_neg hshort, hdrLenAt_eq (by omega), Access.ok_bind]
    exact symVecLoopAt_agrees h _ (by omega)

theorem msgLenCmpAt_agrees (len : Int) (width rem : Nat) :
    Agrees (.ok (msgLenCmpAt len width rem)) (msgLenCmp len width rem) := by
  unfold msgLenCmpAt msgLenCmp
  split
  · rfl
  · split
    · rfl
    · rfl

theorem msgLenVecAt_agrees (h : off + rem = src.length) :
    Agrees (msgLenVecAt src off rem) (msgLenVec (src.drop off)) := by
  have hlen : (src.drop off).length = rem := by
    rw [List.length_drop]
    omega
  rw [msgLenVecAt, msgLenVec, hlen]
  by_cases hshort : rem < 6
  · rw [if_pos hshort, if_pos hshort]
    rfl
  · rw [if_neg hshort, if_neg hshort, hdrLenAt_eq (by omega), Access.ok_bind,
      byteAt_of_lt (by omega), Access.ok_bind]
    cases KdbType.ofI8 ((src.drop off).headD 0) with
    | none => rfl
    | some typ => cases typ <;> first | exact msgLenCmpAt_agrees _ _ _ | rfl

theorem msgLenAtom_eq (h : src ≠ []) : msgLenAtom src =
    match atomLen (src.headD 0) with
    | some len => some (len : Int)
    | none => some (-2) := by
  rw [msgLenAtom, if_neg (fun hnil => h (List.length_eq_zero_iff.mp hnil)), atomLen]
  cases KdbType.ofI8 (src.headD 0) with
  | none => rfl
  | some typ => cases typ <;> rfl

theorem msgLenAtomAt_agrees (h : off + rem = src.length) :
    Agrees (msgLenAtomAt src off rem) (msgLenAtom (src.drop off)) := by
  rw [msgLenAtomAt]
  by_cases hnone : rem = 0
  · rw [if_pos hnone, List.drop_eq_nil_of_le (by omega)]
    rfl
  · have hne : src.drop off ≠ [] := by
      rw [ne_eq, List.drop_eq_nil_iff]
      omega
    rw [if_neg hnone, byteAt_of_lt (by omega), Access.ok_bind, msgLenAtom_eq hne]
    cases atomLen ((src.drop off).headD 0) with
    | none => rfl
    | some len => rfl

/-!
## Containers
-/

/-- The two scanners for the parts agree wherever fewer than `n` bytes remain. -/
def AgreeAtBelow (src : List UInt8) (n : Nat) (pa : Nat -> Nat -> Access Int)
    (p : List UInt8 -> Scan) : Prop :=
  forall off rem, off + rem = src.length -> rem < n -> Agrees (pa off rem) (p (src.drop off))

variable {pa : Nat -> Nat -> Access Int} {p : List UInt8 -> Scan}

theorem Agrees.eq_ok {x : Access Int} {n : Int} (h : Agrees x (some n)) : x = .ok n := by
  cases x with
  | ok m => exact congrArg Except.ok h
  | error e => cases e <;> cases h

theorem Agrees.bind_none {x : Access Int} (h : Agrees x none) (f : Int -> Access Int) :
    Agrees (x >>= f) none := by
  cases x with
  | ok m => cases h
  | error e => exact h

theorem listLoopAt_agrees (h : off + rem = src.length) (hp : AgreeAtBelow src rem pa p)
    (n : Nat) : forall {len : Nat}, 0 < len ->
      Agrees (listLoopAt pa off rem n len) (listLoop p (src.drop off) n len) := by
  have hlen : (src.drop off).length = rem := by
    rw [List.length_drop]
    omega
  induction n with
  | zero =>
      intro len _
      rfl
  | succ n ih =>
      intro len hpos
      rw [listLoopAt, listLoop, hlen]
      by_cases hend : rem < len
      · rw [if_pos hend, minus_of_lt hend]
        trivial
      · rw [if_neg hend, minus_of_le (by omega), Access.ok_bind, List.drop_drop]
        have hpart := hp (off + len) (rem - len) (by omega) (by omega)
        cases hy : p (src.drop (off + len)) with
        | none =>
            rw [hy] at hpart
            exact hpart.bind_none _
        | some eln =>
            rw [hy] at hpart
            rw [hpart.eq_ok, Access.ok_bind]
            simp only
            by_cases heln : eln < 0
            · rw [if_pos heln, if_pos heln]
              rfl
            · rw [if_neg heln, if_neg heln]
              exact ih (by omega)

theorem dictLenAt_agrees (h : off + rem = src.length) (hpos : 0 < rem)
    (hp : AgreeAtBelow src rem pa p) :
    Agrees (dictLenAt pa off rem) (dictLen p (src.drop (off + 1))) := by
  have hlen : (src.drop (off + 1)).length = rem - 1 := by
    rw [List.length_drop]
    omega
  have hkeys := hp (off + 1) (rem - 1) (by omega) (by omega)
  rw [dictLenAt, dictLen, minus_of_le (by omega), Access.ok_bind, hlen]
  cases hl : p (src.drop (off + 1)) with
  | none =>
      rw [hl] at hkeys
      exact hkeys.bind_none _
  | some l =>
      rw [hl] at hkeys
      rw [hkeys.eq_ok, Access.ok_bind]
      simp only
      by_cases hneg : i32OfInt l < 0
      · rw [if_pos hneg, if_pos hneg]
        rfl
      · rw [if_neg hneg, if_neg hneg]
        by_cases hend : rem - 1 < (i32OfInt l).toNat
        · rw [if_pos hend, minus_of_lt hend]
          trivial
        · have hvals := hp (off + 1 + (i32OfInt l).toNat) (rem - 1 - (i32OfInt l).toNat)
            (by omega) (by omega)
          rw [if_neg hend, minus_of_le (by omega), Access.ok_bind, List.drop_drop]
          cases ht : p (src.drop (off + 1 + (i32OfInt l).toNat)) with
          | none =>
              rw [ht] at hvals
              exact hvals.bind_none _
          | some t =>
              rw [ht] at hvals
              rw [hvals.eq_ok, Access.ok_bind]
              simp only
              by_cases hneg : i32OfInt t < 0
              · rw [if_pos hneg, if_pos hneg]
                rfl
              · rw [if_neg hneg, if_neg hneg]
                by_cases hbig : 2 ^ 31 <= 1 + i32OfInt l + i32OfInt t
                · rw [if_pos hbig, if_pos hbig]
                  trivial
                · rw [if_neg hbig, if_neg hbig]
                  rfl

theorem msgLenVaryAt_agrees (hp : AgreeAtBelow src rem pa p) (n : Nat) :
    forall {off : Nat}, n <= rem -> off + n = src.length ->
      Agrees (msgLenVaryAt pa src off n) (msgLenVary p (src.drop off)) := by
  induction n using Nat.twoStepInduction with
  | zero =>
      intro off _ h
      rw [List.drop_eq_nil_of_le (by omega)]
      rfl
  | one =>
      intro off hle h
      have hlt : off < src.length := by omega
      have hnil : src.drop (off + 1) = [] := List.drop_eq_nil_of_le (by omega)
      have hdict := dictLenAt_agrees h (by omega) (fun o r ho hr => hp o r ho (by omega))
      rw [hnil] at hdict
      rw [msgLenVaryAt, byteAt_of_lt hlt, Access.ok_bind, List.drop_eq_getElem_cons hlt, hnil,
        msgLenVary, List.headD_cons]
      split
      · trivial
      · split
        · exact hdict
        · rfl
  | more n ih _ =>
      intro off hle h
      have hlt : off < src.length := by omega
      have hnext : off + 1 < src.length := by omega
      have hdict := dictLenAt_agrees h (by omega) (fun o r ho hr => hp o r ho (by omega))
      rw [msgLenVaryAt, byteAt_of_lt hlt, Access.ok_bind, List.drop_eq_getElem_cons hlt,
        List.headD_cons]
      rw [List.drop_eq_getElem_cons hnext] at hdict ⊢
      rw [msgLenVary]
      split
      · have hnested := @ih (off + 2) (by omega) (by omega)
        cases hy : msgLenVary p (src.drop (off + 1 + 1)) with
        | none =>
            rw [hy] at hnested
            exact hnested.bind_none _
        | some len =>
            rw [hy] at hnested
            rw [hnested.eq_ok]
            rfl
      · split
        · exact hdict
        · rfl

theorem payloadLenOfAt_agrees (h : off + rem = src.length) (hp : AgreeAtBelow src rem pa p) :
    Agrees (payloadLenOfAt pa src off rem) (ipcPayloadLenOf p (src.drop off)) := by
  have hlen : (src.drop off).length = rem := by
    rw [List.length_drop]
    omega
  rw [payloadLenOfAt, ipcPayloadLenOf, hlen]
  by_cases hnone : rem = 0
  · rw [if_pos hnone, if_pos hnone]
    rfl
  · rw [if_neg hnone, if_neg hnone, byteAt_of_lt (by omega), Access.ok_bind]
    by_cases hlist : (src.drop off).headD 0 = KdbType.list.i8
    · rw [if_pos hlist, if_pos hlist, msgLenListAt, msgLenList, hlen]
      by_cases hshort : rem < 6
      · rw [if_pos hshort, if_pos hshort]
        rfl
      · rw [if_neg hshort, if_neg hshort, hdrLenAt_eq (by omega), Access.ok_bind]
        exact listLoopAt_agrees h hp _ (by omega)
    · rw [if_neg hlist, if_neg hlist]
      split
      · split
        · exact msgLenSymAtomAt_agrees h
        · exact msgLenAtomAt_agrees h
      · split
        · split
          · exact msgLenSymVecAt_agrees h
          · exact msgLenVecAt_agrees h
        · exact msgLenVaryAt_agrees hp _ (Nat.le_refl _) h

theorem payloadLenFuelAt_agrees (n : Nat) : forall {off rem : Nat},
    off + rem = src.length -> rem < n ->
      Agrees (payloadLenFuelAt src n off rem) (ipcPayloadLen (src.drop off)) := by
  induction n with
  | zero =>
      intro off rem _ hn
      omega
  | succ n ih =>
      intro off rem h hn
      rw [payloadLenFuelAt, ipcPayloadLen_eq]
      exact payloadLenOfAt_agrees h (fun o r ho hr => ih ho (by omega))

end Reads

/--
The scanner with its accesses is the scanner: it answers what the scanner answers, and
where the scanner has no result it is a remaining size that wraps, or a dict of
`2^31` bytes or more.  So no read leaves the array as long as no remaining size wraps.
-/
theorem payloadLenAt_agrees (src : List UInt8) :
    Agrees (payloadLenAt src) (ipcPayloadLen src) :=
  payloadLenFuelAt_agrees (src.length + 1) (Nat.zero_add _) (Nat.lt_succ_self _)

end MgKdb
