import MgKdb.Reader.Resume

/-!
# Reading objects

`newInstance` allocates an object from its header and `read` fills it.
A `read` that runs out of bytes leaves the object half read; the next call
passes over what the object already holds and goes on from there.
-/

namespace MgKdb

open Foundation

/-- The outcome of an allocation: an object, or the code of the failure. -/
abbrev NewOut := Except ReadResult KdbBase × ReadBuf

/-!
## Allocation
-/

def newAtomFromType (b : ReadBuf) (o : KdbBase) : NewOut :=
  (.ok o, b.readI8.2)

/-- A negative count becomes a capacity beyond `max_size()`, which throws. -/
def newVec32 (b : ReadBuf) (mk : Nat -> UInt8 -> KdbBase) : NewOut :=
  if b.canRead 6 = false then (.error .incomplete, b)
  else
    let b1 := b.readI8.2
    let att := b1.readI8
    let len := att.2.readI32
    if len.1 < 0 then (.error (.trap .lengthError), len.2)
    else (.ok (mk len.1.toNat att.1), len.2)

def KdbTable.alloc (b : ReadBuf) : NewOut :=
  if b.canRead 3 = false then (.error .incomplete, b)
  else (.ok (.table none none), b.readI8.2.readI8.2.readI8.2)

def KdbFunction.alloc (b : ReadBuf) : NewOut :=
  if b.cursorActive then
    if b.canRead 8 = false then (.error .incomplete, b)
    else
      let b2 := b.readI8.2.readI8.2
      let ctyp := b2.readI8
      let len := ctyp.2.readI8.2.readI32
      if KdbType.ofI8 ctyp.1 ≠ some .charVector ∨ len.1 < 0 then
        (.error .errIpc, len.2)
      else (.ok (.function len.1.toNat []), len.2)
  else
    -- answers RD_OK without setting the pointer
    (.error (.trap .badPointer), b.ffwd 8)

def KdbProjection.alloc (b : ReadBuf) : NewOut :=
  if b.canRead 5 = false then (.error .incomplete, b)
  else
    let len := b.readI8.2.readI32
    if len.1 < 0 then (.error .errIpc, len.2)
    else (.ok (.projection len.1.toNat []), len.2)

/-- The switch of `newInstance` on the type byte. -/
def newInstanceOf (t : Option KdbType) (b : ReadBuf) : NewOut :=
  match t with
  | some .exception => newAtomFromType b (.exception [])
  | some .timeAtom => newAtomFromType b (.atom .time 0)
  | some .secondAtom => newAtomFromType b (.atom .second 0)
  | some .minuteAtom => newAtomFromType b (.atom .minute 0)
  | some .timespanAtom => newAtomFromType b (.atom .timespan 0)
  | some .dateAtom => newAtomFromType b (.atom .date 0)
  | some .monthAtom => newAtomFromType b (.atom .month 0)
  | some .timestampAtom => newAtomFromType b (.atom .timestamp 0)
  | some .symbolAtom => newAtomFromType b (.symbolAtom [])
  | some .charAtom => newAtomFromType b (.atom .char 0)
  | some .floatAtom => newAtomFromType b (.atom .float 0)
  | some .realAtom => newAtomFromType b (.atom .real 0)
  | some .longAtom => newAtomFromType b (.atom .long 0)
  | some .intAtom => newAtomFromType b (.atom .int 0)
  | some .shortAtom => newAtomFromType b (.atom .short 0)
  | some .byteAtom => newAtomFromType b (.atom .byte 0)
  | some .guidAtom => newAtomFromType b (.atom .guid 0)
  | some .boolAtom => newAtomFromType b (.atom .bool 0)
  | some .list => newVec32 b (fun cap att => .list cap att [])
  | some .boolVector => newVec32 b (fun cap att => .vector .bool cap att [])
  | some .guidVector => newVec32 b (fun cap att => .vector .guid cap att [])
  | some .byteVector => newVec32 b (fun cap att => .vector .byte cap att [])
  | some .shortVector => newVec32 b (fun cap att => .vector .short cap att [])
  | some .intVector => newVec32 b (fun cap att => .vector .int cap att [])
  | some .longVector => newVec32 b (fun cap att => .vector .long cap att [])
  | some .realVector => newVec32 b (fun cap att => .vector .real cap att [])
  | some .floatVector => newVec32 b (fun cap att => .vector .float cap att [])
  | some .charVector => newVec32 b (fun cap att => .vector .char cap att [])
  | some .symbolVector =>
      newVec32 b (fun cap att => .symbolVector cap att [] [])
  | some .timestampVector =>
      newVec32 b (fun cap att => .vector .timestamp cap att [])
  | some .monthVector => newVec32 b (fun cap att => .vector .month cap att [])
  | some .dateVector => newVec32 b (fun cap att => .vector .date cap att [])
  | some .timespanVector =>
      newVec32 b (fun cap att => .vector .timespan cap att [])
  | some .minuteVector => newVec32 b (fun cap att => .vector .minute cap att [])
  | some .secondVector => newVec32 b (fun cap att => .vector .second cap att [])
  | some .timeVector => newVec32 b (fun cap att => .vector .time cap att [])
  | some .table => KdbTable.alloc b
  | some .dict => newAtomFromType b (.dict none none)
  | some .function => KdbFunction.alloc b
  | some .unaryPrimitive => newAtomFromType b (.primitive .unary 0)
  | some .binaryPrimitive => newAtomFromType b (.primitive .binary 0)
  | some .ternaryPrimitive => newAtomFromType b (.primitive .ternary 0)
  | some .projection => KdbProjection.alloc b
  | some .stepDict => newAtomFromType b (.dict none none)
  | some .datetimeAtom | some .datetimeVector | none => (.error .errLogic, b)

def newInstance (b : ReadBuf) : NewOut :=
  if b.cursorActive then
    if b.canRead 1 = false then (.error .incomplete, b)
    else newInstanceOf (KdbType.ofI8 b.peekI8) b
  else
    -- every caller passes the address of an uninitialised pointer
    (.error (.trap .badPointer), b)

/-!
## The classes without parts

Each reads its header test first; what follows the test is a definition of its
own.
-/

def readTextData (str : List UInt8) (b : ReadBuf) : ReadOut (List UInt8) :=
  if b.cursorActive then b.readSym str
  else (.ok, str, b.ffwd (str.length + 1))

/-- `KdbException::read` and `KdbSymbolAtom::read`. -/
def readText (str : List UInt8) (b : ReadBuf) : ReadOut (List UInt8) :=
  readTextData str (b.skipHdr 1)

def readIntAtomData (e : Elem) (val : BitVec (8 * e.width)) (b : ReadBuf) :
    ReadOut (BitVec (8 * e.width)) :=
  if b.cursorActive then
    if b.remaining < e.width then (.incomplete, val, b)
    else (.ok, (b.readWord e.width).1, (b.readWord e.width).2)
  else (.ok, val, b.ffwd e.width)

def readIntAtom (e : Elem) (val : BitVec (8 * e.width)) (b : ReadBuf) :
    ReadOut (BitVec (8 * e.width)) :=
  readIntAtomData e val (b.skipHdr 1)

def readIntVectorData (w cap : Nat) (vec : List (BitVec (8 * w))) (b : ReadBuf) :
    ReadOut (List (BitVec (8 * w))) :=
  let b1 := b.ffwd (w * vec.length)
  if vec.length = cap then (.ok, vec, b1)
  else
    let elm := min (cap - vec.length) (b1.remaining / w)
    if 0 < elm then
      let got := b1.readVec w elm
      if elm ≠ got.1.1 then (.incomplete, vec ++ got.1.2, got.2)
      else
        (if cap = (vec ++ got.1.2).length then .ok else .incomplete,
          vec ++ got.1.2, got.2)
    else (if cap = vec.length then .ok else .incomplete, vec, b1)

def readIntVector (w cap : Nat) (vec : List (BitVec (8 * w))) (b : ReadBuf) :
    ReadOut (List (BitVec (8 * w))) :=
  readIntVectorData w cap vec (b.skipHdr 6)

def readSymbolVectorData (cap : Nat) (locs : List LocInfo) (data : List UInt8)
    (b : ReadBuf) : ReadOut (List LocInfo × List UInt8) :=
  let b1 := b.ffwd data.length
  if locs.length = cap then (.ok, (locs, data), b1)
  else b1.readSyms (cap - locs.length) locs data

/-- `KdbSymbolVector::read`. -/
def readSymbolVector (cap : Nat) (locs : List LocInfo) (data : List UInt8)
    (b : ReadBuf) : ReadOut (List LocInfo × List UInt8) :=
  readSymbolVectorData cap locs data (b.skipHdr 6)

def readFunctionText (cap : Nat) (vec : List UInt8) (b : ReadBuf) :
    ReadOut (List UInt8) :=
  let b1 := b.ffwd vec.length
  if vec.length = cap then (.ok, vec, b1)
  else
    let rqd := cap - vec.length
    let elm := min rqd b1.remaining
    if 0 < elm then
      -- elm is at most remaining(), so read() copies elm elements and says so
      (if rqd = elm then .ok else .incomplete,
        vec ++ b1.rest.take elm, b1.adj elm)
    else (.incomplete, vec, b1)

/-- `KdbFunction::read`. -/
def readFunction (cap : Nat) (vec : List UInt8) (b : ReadBuf) :
    ReadOut (List UInt8) :=
  readFunctionText cap vec (b.skipHdr 8)

def readPrimitiveData (val : UInt8) (b : ReadBuf) : ReadOut UInt8 :=
  if b.cursorActive then
    if b.canRead 1 = false then (.incomplete, val, b)
    else (.ok, b.readI8.1, b.readI8.2)
  else (.ok, val, b.ffwd 1)

/-- `KdbPrimitive<T>::read`. -/
def readPrimitive (val : UInt8) (b : ReadBuf) : ReadOut UInt8 :=
  readPrimitiveData val (b.skipHdr 1)

/-!
## The containers
-/

section Containers

variable (rd : KdbBase -> ReadBuf -> ReadOut KdbBase)

def readVals : List KdbBase -> ReadBuf -> ReadOut (List KdbBase)
  | [], b => (.ok, [], b)
  | o :: os, b =>
      match rd o b with
      | (.ok, o', b1) =>
          let more := readVals os b1
          (more.1, o' :: more.2.1, more.2.2)
      | (rr, o', b1) => (rr, o' :: os, b1)

/-- The second loop of a list: allocate and read the elements up to the capacity. -/
def readNew : Nat -> ReadBuf -> ReadOut (List KdbBase)
  | 0, b => (.ok, [], b)
  | n + 1, b =>
      match newInstance b with
      | (.error rr, b1) => (rr, [], b1)
      | (.ok o, b1) =>
          match rd o b1 with
          | (.ok, o', b2) =>
              let more := readNew n b2
              (more.1, o' :: more.2.1, more.2.2)
          | (rr, o', b2) => (rr, [o'], b2)

/-- Both loops of `KdbList::read` and `KdbProjection::read`. -/
def readItems (cap : Nat) (vals : List KdbBase) (b : ReadBuf) :
    ReadOut (List KdbBase) :=
  match readVals rd vals b with
  | (.ok, vals', b1) =>
      let more := readNew rd (cap - vals.length) b1
      (more.1, vals' ++ more.2.1, more.2.2)
  | (rr, vals', b1) => (rr, vals', b1)

/-- One part of a dict or a table: allocate it when the cursor is active, then read. -/
def readPart (accepts : KdbType -> Bool) (part : Option KdbBase) (b : ReadBuf) :
    ReadOut (Option KdbBase) :=
  if b.cursorActive then
    match newInstance b with
    | (.error rr, b1) => (rr, part, b1)
    | (.ok o, b1) =>
        if accepts o.typ then
          let r := rd o b1
          (r.1, some r.2.1, r.2.2)
        else (.errIpc, part, b1)
  else
    match part with
    | none => (.trap .badPointer, none, b)
    | some o =>
        let r := rd o b
        (r.1, some r.2.1, r.2.2)

/-- `KdbDict::read` and `KdbTable::read`: two parts, one after the other. -/
def readParts (hdr : Nat) (acceptsFst acceptsSnd : KdbType -> Bool)
    (fst snd : Option KdbBase) (b : ReadBuf) :
    ReadOut (Option KdbBase × Option KdbBase) :=
  match readPart rd acceptsFst fst (b.skipHdr hdr) with
  | (.ok, fst', b1) =>
      let r := readPart rd acceptsSnd snd b1
      (r.1, (fst', r.2.1), r.2.2)
  | (rr, fst', b1) => (rr, (fst', snd), b1)

end Containers

/-- `read`, with a bound on the depth of the recursion. -/
def readFuel : Nat -> KdbBase -> ReadBuf -> ReadOut KdbBase
  | 0, o, b => (.trap .outOfFuel, o, b)
  | n + 1, o, b =>
      match o with
      | .exception msg =>
          let r := readText msg b
          (r.1, .exception r.2.1, r.2.2)
      | .atom e val =>
          let r := readIntAtom e val b
          (r.1, .atom e r.2.1, r.2.2)
      | .symbolAtom val =>
          let r := readText val b
          (r.1, .symbolAtom r.2.1, r.2.2)
      | .list cap attr vals =>
          let r := readItems (readFuel n) cap vals (b.skipHdr 6)
          (r.1, .list cap attr r.2.1, r.2.2)
      | .vector e cap attr vec =>
          let r := readIntVector e.width cap vec b
          (r.1, .vector e cap attr r.2.1, r.2.2)
      | .symbolVector cap attr locs data =>
          let r := readSymbolVector cap locs data b
          (r.1, .symbolVector cap attr r.2.1.1 r.2.1.2, r.2.2)
      | .table cols vals =>
          let r := readParts (readFuel n) 3 (fun t => t == .symbolVector)
            (fun t => t == .list) cols vals b
          (r.1, .table r.2.1.1 r.2.1.2, r.2.2)
      | .dict keys vals =>
          let r := readParts (readFuel n) 1 (fun _ => true) (fun _ => true)
            keys vals b
          (r.1, .dict r.2.1.1 r.2.1.2, r.2.2)
      | .function cap vec =>
          let r := readFunction cap vec b
          (r.1, .function cap r.2.1, r.2.2)
      | .primitive arity val =>
          let r := readPrimitive val b
          (r.1, .primitive arity r.2.1, r.2.2)
      | .projection cap vec =>
          let r := readItems (readFuel n) cap vec (b.skipHdr 5)
          (r.1, .projection cap r.2.1, r.2.2)

namespace KdbBase

mutual

/-- How deeply an object is nested; an object without parts has height zero. -/
def height : KdbBase -> Nat
  | list _ _ vals => heightAll vals
  | table cols vals => max (heightPtr cols) (heightPtr vals)
  | dict keys vals => max (heightPtr keys) (heightPtr vals)
  | projection _ vec => heightAll vec
  | exception _ | atom _ _ | symbolAtom _ | vector _ _ _ _
  | symbolVector _ _ _ _ | function _ _ | primitive _ _ => 0

def heightAll : List KdbBase -> Nat
  | [] => 0
  | o :: os => max (height o + 1) (heightAll os)

def heightPtr : Option KdbBase -> Nat
  | none => 0
  | some o => height o + 1

end

@[simp] theorem heightAll_nil : heightAll [] = 0 := rfl

@[simp] theorem heightAll_cons (o : KdbBase) (os : List KdbBase) :
    heightAll (o :: os) = max (height o + 1) (heightAll os) := rfl

@[simp] theorem heightPtr_none : heightPtr none = 0 := rfl

@[simp] theorem heightPtr_some (o : KdbBase) :
    heightPtr (some o) = height o + 1 := rfl

@[simp] theorem height_list (cap : Nat) (attr : UInt8) (vals : List KdbBase) :
    height (list cap attr vals) = heightAll vals := rfl

@[simp] theorem height_table (cols vals : Option KdbBase) :
    height (table cols vals) = max (heightPtr cols) (heightPtr vals) := rfl

@[simp] theorem height_dict (keys vals : Option KdbBase) :
    height (dict keys vals) = max (heightPtr keys) (heightPtr vals) := rfl

@[simp] theorem height_projection (cap : Nat) (vec : List KdbBase) :
    height (projection cap vec) = heightAll vec := rfl

/--
`read`.  Every level of recursion below the levels the object already has
consumes the type byte of a new object, so this bound is never reached.
-/
def read (o : KdbBase) (b : ReadBuf) : ReadOut KdbBase :=
  readFuel (o.height + b.remaining + 1) o b

end KdbBase

end MgKdb
