import MgKdb.Writer.Buf

/-!
# Writing objects

Every `write` starts with a header that is stored as a whole or not at all, or
passed over when an earlier call stored it.  Arrays behind a header are stored as
far as there is room.
-/

namespace MgKdb

open Foundation

/-- Go on after `WR_OK`; any other result is returned at once. -/
def WriteOut.andThen (out : WriteOut) (next : WriteBuf -> WriteOut) : WriteOut :=
  match out.1 with
  | .ok => next out.2
  | _ => out

namespace WriteBuf

def whenRoom (bytes : Nat) (f : WriteBuf -> Bool × WriteBuf) (b : WriteBuf) :
    Bool × WriteBuf :=
  if b.canWrite bytes = false then (false, b) else (true, (f b).2)

/-- The head of every `write`: store `bytes` bytes or step over them. -/
def writeHead (bytes : Nat) (f : WriteBuf -> Bool × WriteBuf) (b : WriteBuf) :
    WriteOut :=
  if b.cursorActive then
    if (f b).1 = false then (.incomplete, (f b).2) else (.ok, (f b).2)
  else (.ok, b.ffwd bytes)

/-- How many of `n` bytes earlier calls have stored. -/
def skip (b : WriteBuf) (n : Nat) : Nat :=
  if b.csr < 0 then min (-b.csr).toNat n else 0

end WriteBuf

/-!
## The classes without parts
-/

/-- `KdbException::write` and `KdbSymbolAtom::write`. -/
def writeText (t : KdbType) (str : List UInt8) (b : WriteBuf) : WriteOut :=
  b.writeHead (1 + str.length + 1)
    (WriteBuf.whenRoom (1 + str.length + 1) fun b => (b.writeTyp t).2.writeSym str)

def writeIntAtom (e : Elem) (val : BitVec (8 * e.width)) (b : WriteBuf) : WriteOut :=
  b.writeHead (1 + e.width)
    (WriteBuf.whenRoom (1 + e.width) fun b =>
      (b.writeTyp e.atomTyp).2.write (wordBytes e.width val))

/--
The elements of a vector behind its header; `ary` is the memory of the array.
-/
def writeElems (w : Nat) (ary : List UInt8) (b : WriteBuf) : WriteOut :=
  let skp := b.skip (ary.length / w * w) / w
  let b1 := b.ffwd (skp * w)
  if skp < ary.length / w then
    let wrt := b1.writeAry w ary skp
    if skp + wrt.1 < ary.length / w then (.incomplete, wrt.2) else (.ok, wrt.2)
  else (.ok, b1)

def writeVecHdr (t : KdbType) (attr : UInt8) (size : Nat) (b : WriteBuf) : WriteOut :=
  b.writeHead 6 (WriteBuf.writeHdr t attr size)

def writeIntVector (e : Elem) (attr : UInt8) (vec : List (BitVec (8 * e.width)))
    (b : WriteBuf) : WriteOut :=
  (writeVecHdr e.vectorTyp attr vec.length b).andThen
    (writeElems e.width (wordsBytes e.width vec))

def KdbSymbolVector.write (attr : UInt8) (locs : List LocInfo) (data : List UInt8)
    (b : WriteBuf) : WriteOut :=
  (writeVecHdr .symbolVector attr locs.length b).andThen (writeElems 1 data)

/--
The constructor of a function fills the storage up to its capacity with zeros, and
`write` stores that much of it.
-/
def KdbFunction.writeData (cap : Nat) (vec : List UInt8) (b : WriteBuf) : WriteOut :=
  let skp := b.skip vec.length
  let wrt := (b.ffwd skp).writeAry 1 (vec ++ List.replicate (cap - vec.length) 0) skp
  if skp + wrt.1 = vec.length then (.ok, wrt.2) else (.incomplete, wrt.2)

def KdbFunction.write (cap : Nat) (vec : List UInt8) (b : WriteBuf) : WriteOut :=
  (b.writeHead 8 (WriteBuf.whenRoom 8 fun b =>
    ((b.writeTyp .function).2.writeAtt 0).2.writeHdr .charVector 0 vec.length)).andThen
    (KdbFunction.writeData cap vec)

def KdbPrimitive.write (arity : Arity) (val : UInt8) (b : WriteBuf) : WriteOut :=
  b.writeHead 2
    (WriteBuf.whenRoom 2 fun b => (b.writeTyp arity.typ).2.write [val])

/-!
## All classes
-/

namespace KdbBase

mutual

def write : KdbBase -> WriteBuf -> WriteOut
  | exception msg, b => writeText .exception msg b
  | atom e val, b => writeIntAtom e val b
  | symbolAtom val, b => writeText .symbolAtom val b
  | list _ attr vals, b =>
      (writeVecHdr .list attr vals.length b).andThen (writeVals vals)
  | vector e _ attr vec, b => writeIntVector e attr vec b
  | symbolVector _ attr locs data, b => KdbSymbolVector.write attr locs data b
  | table cols vals, b =>
      ((b.writeHead 3 (WriteBuf.whenRoom 3 fun b =>
        ((b.writeTyp .table).2.writeAtt 0).2.writeTyp .dict)).andThen
        (writePtr cols)).andThen (writePtr vals)
  | dict keys vals, b =>
      ((b.writeHead 1 (WriteBuf.writeTyp .dict)).andThen (writePtr keys)).andThen
        (writePtr vals)
  | function cap vec, b => KdbFunction.write cap vec b
  | primitive arity val, b => KdbPrimitive.write arity val b
  | projection _ vec, b =>
      (b.writeHead 5 (WriteBuf.whenRoom 5 fun b =>
        (b.writeTyp .projection).2.writeI32 vec.length)).andThen (writeVals vec)

def writeVals : List KdbBase -> WriteBuf -> WriteOut
  | [], b => (.ok, b)
  | o :: os, b => (write o b).andThen (writeVals os)

def writePtr : Option KdbBase -> WriteBuf -> WriteOut
  | none, b => (.trap .badPointer, b)
  | some o, b => write o b

end

end KdbBase

end MgKdb
