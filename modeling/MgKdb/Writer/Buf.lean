import MgKdb.Wire.Object

/-!
# The write buffer

A buffer keeps the bytes stored so far, which never exceed its capacity, and the
cursor.  As in reading, the cursor starts at minus the number of bytes that
earlier calls wrote; objects move it forward over these and store bytes only once
it is active.
-/

namespace MgKdb

open Foundation

/-- `WriteBuf`; `m_off` is the number of bytes stored. -/
structure WriteBuf where
  cap : Nat
  out : List UInt8
  csr : Int
  fits : out.length <= cap

/-- The outcome of a write: a result code and the buffer it leaves. -/
abbrev WriteOut := WriteResult × WriteBuf

namespace WriteBuf

def new (cap : Nat) (csr : Int) : WriteBuf where
  cap := cap
  out := []
  csr := csr
  fits := Nat.zero_le cap

def off (b : WriteBuf) : Nat :=
  b.out.length

def remaining (b : WriteBuf) : Nat :=
  b.cap - b.off

def canWrite (b : WriteBuf) (bytes : Nat) : Bool :=
  decide (b.off + bytes <= b.cap)

def cursorActive (b : WriteBuf) : Bool :=
  decide (0 <= b.csr)

def ffwd (b : WriteBuf) (bytes : Nat) : WriteBuf :=
  { b with csr := b.csr + bytes }

def store (b : WriteBuf) (xs : List UInt8) (h : xs.length <= b.remaining) :
    WriteBuf where
  cap := b.cap
  out := b.out ++ xs
  csr := b.csr + xs.length
  fits := by
    have hfits := b.fits
    unfold remaining off at h
    rw [List.length_append]
    omega

/-- `write<T>`, for a value with the given bytes. -/
def write (xs : List UInt8) (b : WriteBuf) : Bool × WriteBuf :=
  if h : xs.length <= b.remaining then (true, b.store xs h) else (false, b)

def writeTyp (t : KdbType) (b : WriteBuf) : Bool × WriteBuf :=
  b.write [t.i8]

def writeAtt (att : UInt8) (b : WriteBuf) : Bool × WriteBuf :=
  b.write [att]

/-- `write<int32_t>` of a size, which keeps its low four bytes. -/
def writeI32 (n : Nat) (b : WriteBuf) : Bool × WriteBuf :=
  b.write (leBytes 4 n)

def writeHdr (t : KdbType) (att : UInt8) (len : Nat) (b : WriteBuf) :
    Bool × WriteBuf :=
  if b.remaining < 6 then (false, b)
  else (true, (((b.writeTyp t).2.writeAtt att).2.writeI32 len).2)

def writeSym (sv : List UInt8) (b : WriteBuf) : Bool × WriteBuf :=
  b.write (sv ++ [0])

theorem writeAry_fits (b : WriteBuf) (w n : Nat) (ary : List UInt8) :
    (ary.take (min n (b.remaining / w) * w)).length <= b.remaining := by
  have hmul : min n (b.remaining / w) * w <= b.remaining / w * w :=
    Nat.mul_le_mul_right w (Nat.min_le_right _ _)
  have hdiv := Nat.div_mul_le_self b.remaining w
  rw [List.length_take]
  omega

/--
`ary` is the memory of an array of `w`-byte elements; whole elements are
stored from element `off` on, as many as there is room for.
-/
def writeAry (w : Nat) (ary : List UInt8) (off : Nat) (b : WriteBuf) :
    Nat × WriteBuf :=
  if ary.length / w <= off then (0, b)
  else
    (min (ary.length / w - off) (b.remaining / w),
      b.store ((ary.drop (off * w)).take
        (min (ary.length / w - off) (b.remaining / w) * w)) (b.writeAry_fits _ _ _))

/-!
## What is stored
-/

/-- `b'` is `b` moved over `k` bytes and with the bytes `xs` stored. -/
structure Stored (b b' : WriteBuf) (k : Nat) (xs : List UInt8) : Prop where
  cap : b'.cap = b.cap
  out : b'.out = b.out ++ xs
  csr : b'.csr = b.csr + k + xs.length

theorem Stored.remaining {b b' : WriteBuf} {k : Nat} {xs : List UInt8}
    (h : Stored b b' k xs) : b'.remaining = b.remaining - xs.length := by
  rw [WriteBuf.remaining, WriteBuf.remaining, off, off, h.cap, h.out,
    List.length_append]
  omega

theorem Stored.off_eq {b b' : WriteBuf} {k : Nat} {xs : List UInt8}
    (h : Stored b b' k xs) : b'.off = b.off + xs.length := by
  rw [off, off, h.out, List.length_append]

theorem Stored.trans {a b c : WriteBuf} {k l : Nat} {xs ys : List UInt8}
    (hab : Stored a b k xs) (hbc : Stored b c l ys) :
    Stored a c (k + l) (xs ++ ys) where
  cap := hbc.cap.trans hab.cap
  out := by rw [hbc.out, hab.out, List.append_assoc]
  csr := by
    rw [hbc.csr, hab.csr, List.length_append]
    push_cast
    omega

theorem stored_ffwd (b : WriteBuf) (k : Nat) : Stored b (b.ffwd k) k [] :=
  ⟨rfl, (List.append_nil _).symm, (Int.add_zero _).symm⟩

theorem stored_store (b : WriteBuf) (xs : List UInt8) (h : xs.length <= b.remaining) :
    Stored b (b.store xs h) 0 xs :=
  ⟨rfl, rfl, by rw [Nat.cast_zero, Int.add_zero]; rfl⟩

/-- With enough room `f` stores the bytes `xs`. -/
def Appends (f : WriteBuf -> Bool × WriteBuf) (xs : List UInt8) : Prop :=
  forall b, xs.length <= b.remaining -> Stored b (f b).2 0 xs

/-- `f` stores the bytes `xs`, or says that there is no room for them. -/
structure Puts (f : WriteBuf -> Bool × WriteBuf) (xs : List UInt8) : Prop where
  appends : Appends f xs
  success : forall b, xs.length <= b.remaining -> (f b).1 = true
  failure : forall b, b.remaining < xs.length -> f b = (false, b)

theorem Appends.then {f g : WriteBuf -> Bool × WriteBuf} {xs ys : List UInt8}
    (hf : Appends f xs) (hg : Appends g ys) :
    Appends (fun b => g (f b).2) (xs ++ ys) := by
  intro b hroom
  rw [List.length_append] at hroom
  have hfirst := hf b (by omega)
  have hrem := hfirst.remaining
  exact hfirst.trans (hg (f b).2 (by omega))

theorem puts_write (xs : List UInt8) : Puts (write xs) xs where
  appends := by
    intro b hroom
    rw [write, dif_pos hroom]
    exact stored_store b xs hroom
  success := by
    intro b hroom
    rw [write, dif_pos hroom]
  failure := by
    intro b hroom
    rw [write, dif_neg (by omega)]

theorem puts_of_appends {f g : WriteBuf -> Bool × WriteBuf} {xs : List UInt8}
    (hf : Appends f xs)
    (hg : forall b, g b = if b.remaining < xs.length then (false, b) else (true, (f b).2)) :
    Puts g xs where
  appends := by
    intro b hroom
    rw [hg, if_neg (by omega)]
    exact hf b hroom
  success := by
    intro b hroom
    rw [hg, if_neg (by omega)]
  failure := by
    intro b hroom
    rw [hg, if_pos hroom]

theorem puts_writeTyp (t : KdbType) : Puts (writeTyp t) [t.i8] :=
  puts_write _

theorem puts_writeAtt (att : UInt8) : Puts (writeAtt att) [att] :=
  puts_write _

theorem puts_writeI32 (n : Nat) : Puts (writeI32 n) (leBytes 4 n) :=
  puts_write _

theorem puts_writeSym (sv : List UInt8) : Puts (writeSym sv) (sv ++ [0]) :=
  puts_write _

theorem puts_writeHdr (t : KdbType) (att : UInt8) (len : Nat) :
    Puts (writeHdr t att len) (KVal.vecHdr t att len) := by
  have happends := ((puts_writeTyp t).appends.then (puts_writeAtt att).appends).then
    (puts_writeI32 len).appends
  refine puts_of_appends happends ?_
  intro b
  simp [writeHdr]

theorem canWrite_eq (b : WriteBuf) (bytes : Nat) :
    b.canWrite bytes = decide (bytes <= b.remaining) := by
  have hfits := b.fits
  unfold canWrite remaining off
  rw [decide_eq_decide]
  omega

end WriteBuf

end MgKdb
