import MgKdb.Reader.Object

/-!
# The recursion bound of the reader

Reading never gives bytes back, and allocating an object consumes at least its
type byte.  So the height of an object together with the bytes that remain
bounds the depth of the recursion, and every larger bound gives the same result.
-/

namespace MgKdb

open Foundation

/-!
## Reading never gives bytes back
-/

def Shrinks (rd : KdbBase -> ReadBuf -> ReadOut KdbBase) : Prop :=
  forall o b, (rd o b).2.2.Ahead b

namespace ReadBuf

theorem readSym_ahead (str : List UInt8) (b : ReadBuf) :
    (b.readSym str).2.2.Ahead b := by
  unfold readSym
  split
  · split
    · exact ReadBuf.Ahead.refl _
    · simp
  · exact ReadBuf.Ahead.refl _

theorem readSymsLoop_ahead (n : Nat) :
    forall (locs : List LocInfo) (data : List UInt8) (b : ReadBuf),
      (readSymsLoop n locs data b).2.2.Ahead b := by
  induction n with
  | zero =>
      intro locs data b
      exact ReadBuf.Ahead.refl _
  | succ n ih =>
      intro locs data b
      unfold readSymsLoop
      split
      · exact ReadBuf.Ahead.refl _
      · refine ReadBuf.Ahead.trans (ih _ _ _) ?_
        simp

theorem readVec_ahead (w count : Nat) (b : ReadBuf) :
    (b.readVec w count).2.Ahead b := by
  unfold readVec
  split
  · exact ReadBuf.Ahead.refl _
  · simp

end ReadBuf

theorem readText_ahead (str : List UInt8) (b : ReadBuf) :
    (readText str b).2.2.Ahead b := by
  unfold readText readTextData
  split
  · refine ReadBuf.Ahead.trans (ReadBuf.readSym_ahead _ _) ?_
    simp
  · simp

theorem readIntAtom_ahead (e : Elem) (val : BitVec (8 * e.width))
    (b : ReadBuf) : (readIntAtom e val b).2.2.Ahead b := by
  unfold readIntAtom readIntAtomData
  split
  · split
    · simp
    · simp [ReadBuf.readWord]
  · simp

theorem readIntVector_ahead (w cap : Nat) (vec : List (BitVec (8 * w)))
    (b : ReadBuf) : (readIntVector w cap vec b).2.2.Ahead b := by
  have hread := ReadBuf.readVec_ahead w
    (min (cap - vec.length)
      (((b.skipHdr 6).ffwd (w * vec.length)).remaining / w))
    ((b.skipHdr 6).ffwd (w * vec.length))
  simp only [ReadBuf.ffwd_remaining, ReadBuf.skipHdr_remaining,
    ReadBuf.ahead_of_ffwd, ReadBuf.ahead_of_skipHdr] at hread
  unfold readIntVector readIntVectorData
  simp only
  split
  · simp
  · split
    · split
      · simpa using hread
      · simpa using hread
    · simp

theorem readSymbolVector_ahead (cap : Nat) (locs : List LocInfo)
    (data : List UInt8) (b : ReadBuf) :
    (readSymbolVector cap locs data b).2.2.Ahead b := by
  unfold readSymbolVector readSymbolVectorData ReadBuf.readSyms
  simp only
  split
  · simp
  · split
    · refine ReadBuf.Ahead.trans (ReadBuf.readSymsLoop_ahead _ _ _ _) ?_
      simp
    · simp

theorem readFunction_ahead (cap : Nat) (vec : List UInt8) (b : ReadBuf) :
    (readFunction cap vec b).2.2.Ahead b := by
  unfold readFunction readFunctionText
  simp only
  split
  · simp
  · split
    · simp
    · simp

theorem readPrimitive_ahead (val : UInt8) (b : ReadBuf) :
    (readPrimitive val b).2.2.Ahead b := by
  unfold readPrimitive readPrimitiveData
  split
  · split
    · simp
    · simp [ReadBuf.readI8]
  · simp

/-!
## Allocation consumes a byte
-/

/--
A successful allocation is of a flat object and consumes a byte or more; a failed
one says so.
-/
structure Allocates (b : ReadBuf) (out : NewOut) : Prop where
  ahead : out.2.Ahead b
  flat : forall o, out.1 = .ok o ->
    o.height = 0 ∧ out.2.remaining < b.remaining
  fails : forall rr, out.1 = .error rr -> rr ≠ .ok

theorem allocates_error {b b1 : ReadBuf} {rr : ReadResult} (hrr : rr ≠ .ok)
    (h : b1.Ahead b) : Allocates b (.error rr, b1) where
  ahead := h
  flat := by
    intro o ho
    cases ho
  fails := by
    intro rr' hrr'
    cases hrr'
    exact hrr

theorem allocates_ok {b b1 : ReadBuf} {o : KdbBase}
    (hahead : b1.Ahead b) (h : b1.remaining < b.remaining)
    (hflat : o.height = 0) : Allocates b (.ok o, b1) where
  ahead := hahead
  flat := by
    intro o' ho
    cases ho
    exact ⟨hflat, h⟩
  fails := by
    intro rr hrr
    cases hrr

theorem newAtomFromType_allocates {b : ReadBuf} {o : KdbBase}
    (hb : 1 <= b.remaining) (hflat : o.height = 0) :
    Allocates b (newAtomFromType b o) := by
  refine allocates_ok (by simp [ReadBuf.readI8]) ?_ hflat
  simp only [ReadBuf.readI8, ReadBuf.adj_remaining]
  omega

theorem newVec32_allocates (b : ReadBuf) {mk : Nat -> UInt8 -> KdbBase}
    (hflat : forall cap att, (mk cap att).height = 0) :
    Allocates b (newVec32 b mk) := by
  unfold newVec32
  split
  · exact allocates_error (by simp) (ReadBuf.Ahead.refl _)
  · rename_i hread
    have hsix : 6 <= b.remaining := by simpa [ReadBuf.canRead] using hread
    simp only
    split
    · exact allocates_error (by simp)
        (by simp [ReadBuf.readI8, ReadBuf.readI32, ReadBuf.adj_adj])
    · refine allocates_ok (by simp [ReadBuf.readI8, ReadBuf.readI32, ReadBuf.adj_adj]) ?_
        (hflat _ _)
      simp only [ReadBuf.readI8, ReadBuf.readI32, ReadBuf.adj_remaining]
      omega

theorem tableAlloc_allocates (b : ReadBuf) : Allocates b (KdbTable.alloc b) := by
  unfold KdbTable.alloc
  split
  · exact allocates_error (by simp) (ReadBuf.Ahead.refl _)
  · rename_i hread
    have hthree : 3 <= b.remaining := by simpa [ReadBuf.canRead] using hread
    refine allocates_ok (by simp [ReadBuf.readI8, ReadBuf.adj_adj]) ?_
      rfl
    simp only [ReadBuf.readI8, ReadBuf.adj_remaining]
    omega

theorem functionAlloc_allocates (b : ReadBuf) :
    Allocates b (KdbFunction.alloc b) := by
  unfold KdbFunction.alloc
  split
  · split
    · exact allocates_error (by simp) (ReadBuf.Ahead.refl _)
    · rename_i hread
      have hprologue : 8 <= b.remaining := by simpa [ReadBuf.canRead] using hread
      simp only
      split
      · exact allocates_error (by simp)
          (by simp [ReadBuf.readI8, ReadBuf.readI32, ReadBuf.adj_adj])
      · refine allocates_ok
          (by simp [ReadBuf.readI8, ReadBuf.readI32, ReadBuf.adj_adj]) ?_
          rfl
        simp only [ReadBuf.readI8, ReadBuf.readI32, ReadBuf.adj_remaining]
        omega
  · exact allocates_error (by simp) (ReadBuf.Ahead.refl _)

theorem projectionAlloc_allocates (b : ReadBuf) :
    Allocates b (KdbProjection.alloc b) := by
  unfold KdbProjection.alloc
  split
  · exact allocates_error (by simp) (ReadBuf.Ahead.refl _)
  · rename_i hread
    have hfive : 5 <= b.remaining := by simpa [ReadBuf.canRead] using hread
    simp only
    split
    · exact allocates_error (by simp)
        (by simp [ReadBuf.readI8, ReadBuf.readI32, ReadBuf.adj_adj])
    · refine allocates_ok (by simp [ReadBuf.readI8, ReadBuf.readI32, ReadBuf.adj_adj]) ?_
        rfl
      simp only [ReadBuf.readI8, ReadBuf.readI32, ReadBuf.adj_remaining]
      omega

theorem newInstanceOf_allocates {t : Option KdbType} {b : ReadBuf}
    (hone : 1 <= b.remaining) : Allocates b (newInstanceOf t b) := by
  cases t with
  | none => exact allocates_error (by simp) (ReadBuf.Ahead.refl _)
  | some t =>
      cases t <;> simp only [newInstanceOf] <;>
        first
        | exact newVec32_allocates b (by intro cap att; rfl)
        | exact tableAlloc_allocates b
        | exact functionAlloc_allocates b
        | exact projectionAlloc_allocates b
        | exact newAtomFromType_allocates hone (by rfl)
        | exact allocates_error (by simp) (ReadBuf.Ahead.refl _)

theorem newInstance_allocates (b : ReadBuf) : Allocates b (newInstance b) := by
  unfold newInstance
  split
  · split
    · exact allocates_error (by simp) (ReadBuf.Ahead.refl _)
    · rename_i hread
      have hone : 1 <= b.remaining := by
        simp only [ReadBuf.canRead, decide_eq_false_iff_not] at hread
        omega
      exact newInstanceOf_allocates hone
  · exact allocates_error (by simp) (ReadBuf.Ahead.refl _)

/-!
## The loops and parts
-/

section Containers

variable {rd rd' : KdbBase -> ReadBuf -> ReadOut KdbBase}

theorem readVals_ahead (hrd : Shrinks rd) (os : List KdbBase) :
    forall b, (readVals rd os b).2.2.Ahead b := by
  induction os with
  | nil =>
      intro b
      exact ReadBuf.Ahead.refl _
  | cons o os ih =>
      intro b
      have ho := hrd o b
      unfold readVals
      split
      · rename_i o' b1 hout
        rw [hout] at ho
        exact ReadBuf.Ahead.trans (ih b1) ho
      · rename_i rr o' b1 _hne hout
        rw [hout] at ho
        exact ho

theorem readNew_ahead (hrd : Shrinks rd) (n : Nat) :
    forall b, (readNew rd n b).2.2.Ahead b := by
  induction n with
  | zero =>
      intro b
      exact ReadBuf.Ahead.refl _
  | succ n ih =>
      intro b
      have hnew := (newInstance_allocates b).ahead
      unfold readNew
      split
      · rename_i rr b1 hout
        rw [hout] at hnew
        exact hnew
      · rename_i o b1 hout
        rw [hout] at hnew
        have ho := hrd o b1
        split
        · rename_i o' b2 hread
          rw [hread] at ho
          exact ReadBuf.Ahead.trans (ih b2) (ReadBuf.Ahead.trans ho hnew)
        · rename_i rr o' b2 _hne hread
          rw [hread] at ho
          exact ReadBuf.Ahead.trans ho hnew

theorem readItems_ahead (hrd : Shrinks rd) (cap : Nat) (os : List KdbBase)
    (b : ReadBuf) : (readItems rd cap os b).2.2.Ahead b := by
  have hvals := readVals_ahead hrd os b
  unfold readItems
  split
  · rename_i os' b1 hout
    rw [hout] at hvals
    exact ReadBuf.Ahead.trans (readNew_ahead hrd _ b1) hvals
  · rename_i rr os' b1 _hne hout
    rw [hout] at hvals
    exact hvals

theorem readPart_ahead (hrd : Shrinks rd) (accepts : KdbType -> Bool)
    (part : Option KdbBase) (b : ReadBuf) :
    (readPart rd accepts part b).2.2.Ahead b := by
  have hnew := (newInstance_allocates b).ahead
  unfold readPart
  split
  · split
    · rename_i rr b1 hout
      rw [hout] at hnew
      exact hnew
    · rename_i o b1 hout
      rw [hout] at hnew
      split
      · exact ReadBuf.Ahead.trans (hrd o b1) hnew
      · exact hnew
  · split
    · exact ReadBuf.Ahead.refl _
    · exact hrd _ b

theorem readParts_ahead (hrd : Shrinks rd) (hdr : Nat)
    (p q : KdbType -> Bool) (fst snd : Option KdbBase) (b : ReadBuf) :
    (readParts rd hdr p q fst snd b).2.2.Ahead b := by
  have hfst := readPart_ahead hrd p fst (b.skipHdr hdr)
  rw [ReadBuf.ahead_of_skipHdr] at hfst
  unfold readParts
  split
  · rename_i fst' b1 hout
    rw [hout] at hfst
    exact ReadBuf.Ahead.trans (readPart_ahead hrd q snd b1) hfst
  · rename_i rr fst' b1 _hne hout
    rw [hout] at hfst
    exact hfst

end Containers

theorem readFuel_shrinks (n : Nat) : Shrinks (readFuel n) := by
  induction n with
  | zero =>
      intro o b
      exact ReadBuf.Ahead.refl _
  | succ n ih =>
      intro o b
      cases o with
      | exception msg => exact readText_ahead msg b
      | atom e val => exact readIntAtom_ahead e val b
      | symbolAtom val => exact readText_ahead val b
      | list cap attr vals =>
          have h := readItems_ahead ih cap vals (b.skipHdr 6)
          rwa [ReadBuf.ahead_of_skipHdr] at h
      | vector e cap attr vec => exact readIntVector_ahead e.width cap vec b
      | symbolVector cap attr locs data =>
          exact readSymbolVector_ahead cap locs data b
      | table cols vals => exact readParts_ahead ih 3 _ _ cols vals b
      | dict keys vals => exact readParts_ahead ih 1 _ _ keys vals b
      | function cap vec => exact readFunction_ahead cap vec b
      | primitive arity val => exact readPrimitive_ahead val b
      | projection cap vec =>
          have h := readItems_ahead ih cap vec (b.skipHdr 5)
          rwa [ReadBuf.ahead_of_skipHdr] at h

/-!
## Adequacy of the bound
-/

section Agreement

variable {rd rd' : KdbBase -> ReadBuf -> ReadOut KdbBase} {n : Nat}

/-- Two readers that agree on every object and buffer small enough together. -/
def Agree (rd rd' : KdbBase -> ReadBuf -> ReadOut KdbBase) (n : Nat) : Prop :=
  forall o b, o.height + b.remaining < n -> rd o b = rd' o b

theorem readVals_congr (hagree : Agree rd rd' n) (hrd : Shrinks rd)
    (os : List KdbBase) :
    forall b, KdbBase.heightAll os + b.remaining <= n ->
      readVals rd os b = readVals rd' os b := by
  induction os with
  | nil =>
      intro b _h
      rfl
  | cons o os ih =>
      intro b h
      rw [KdbBase.heightAll_cons] at h
      have ho : rd o b = rd' o b := hagree o b (by omega)
      have hle := (hrd o b).left
      unfold readVals
      rw [← ho]
      split
      · rename_i o' b1 hout
        rw [hout] at hle
        simp only at hle
        rw [ih b1 (by omega)]
      · rfl

theorem readNew_congr (hagree : Agree rd rd' n) (hrd : Shrinks rd) (k : Nat) :
    forall b, b.remaining <= n -> readNew rd k b = readNew rd' k b := by
  induction k with
  | zero =>
      intro b _h
      rfl
  | succ k ih =>
      intro b h
      have halloc := newInstance_allocates b
      unfold readNew
      split
      · rfl
      · rename_i o b1 hout
        rw [hout] at halloc
        rcases halloc.flat o rfl with ⟨hflat, hlt⟩
        simp only at hlt
        have ho : rd o b1 = rd' o b1 := hagree o b1 (by omega)
        have hle := (hrd o b1).left
        rw [← ho]
        split
        · rename_i o' b2 hread
          rw [hread] at hle
          simp only at hle
          rw [ih b2 (by omega)]
        · rfl

theorem readItems_congr (hagree : Agree rd rd' n) (hrd : Shrinks rd) (cap : Nat)
    (os : List KdbBase) (b : ReadBuf)
    (h : KdbBase.heightAll os + b.remaining <= n) :
    readItems rd cap os b = readItems rd' cap os b := by
  have hle := (readVals_ahead hrd os b).left
  unfold readItems
  rw [← readVals_congr hagree hrd os b h]
  split
  · rename_i os' b1 hout
    rw [hout] at hle
    simp only at hle
    rw [readNew_congr hagree hrd _ b1 (by omega)]
  · rfl

theorem readPart_congr (hagree : Agree rd rd' n) (accepts : KdbType -> Bool)
    (part : Option KdbBase) (b : ReadBuf)
    (h : KdbBase.heightPtr part + b.remaining <= n) :
    readPart rd accepts part b = readPart rd' accepts part b := by
  have halloc := newInstance_allocates b
  unfold readPart
  split
  · split
    · rfl
    · rename_i o b1 hout
      rw [hout] at halloc
      rcases halloc.flat o rfl with ⟨hflat, hlt⟩
      simp only at hlt
      rw [hagree o b1 (by omega)]
  · split
    · rfl
    · rename_i o
      rw [KdbBase.heightPtr_some] at h
      rw [hagree o b (by omega)]

theorem readParts_congr (hagree : Agree rd rd' n) (hrd : Shrinks rd) (hdr : Nat)
    (p q : KdbType -> Bool) (fst snd : Option KdbBase) (b : ReadBuf)
    (h : max (KdbBase.heightPtr fst) (KdbBase.heightPtr snd) + b.remaining <= n) :
    readParts rd hdr p q fst snd b = readParts rd' hdr p q fst snd b := by
  have hle := (readPart_ahead hrd p fst (b.skipHdr hdr)).left
  unfold readParts
  rw [← readPart_congr hagree p fst (b.skipHdr hdr) (by
    rw [ReadBuf.skipHdr_remaining]
    omega)]
  split
  · rename_i fst' b1 hout
    rw [hout] at hle
    simp only [ReadBuf.skipHdr_remaining] at hle
    rw [readPart_congr hagree q snd b1 (by omega)]
  · rfl

end Agreement

theorem readFuel_agree (n : Nat) :
    forall m, n <= m -> Agree (readFuel n) (readFuel m) n := by
  induction n with
  | zero =>
      intro m _hle o b h
      omega
  | succ n ih =>
      intro m hle o b h
      cases m with
      | zero => omega
      | succ m =>
          have hagree := ih m (by omega)
          have hrd := readFuel_shrinks n
          cases o with
          | exception msg => rfl
          | atom e val => rfl
          | symbolAtom val => rfl
          | list cap attr vals =>
              rw [KdbBase.height_list] at h
              simp only [readFuel]
              rw [readItems_congr hagree hrd cap vals (b.skipHdr 6)
                (by rw [ReadBuf.skipHdr_remaining]; omega)]
          | vector e cap attr vec => rfl
          | symbolVector cap attr locs data => rfl
          | table cols vals =>
              rw [KdbBase.height_table] at h
              simp only [readFuel]
              rw [readParts_congr hagree hrd 3 _ _ cols vals b (by omega)]
          | dict keys vals =>
              rw [KdbBase.height_dict] at h
              simp only [readFuel]
              rw [readParts_congr hagree hrd 1 _ _ keys vals b (by omega)]
          | function cap vec => rfl
          | primitive arity val => rfl
          | projection cap vec =>
              rw [KdbBase.height_projection] at h
              simp only [readFuel]
              rw [readItems_congr hagree hrd cap vec (b.skipHdr 5)
                (by rw [ReadBuf.skipHdr_remaining]; omega)]

theorem read_eq_readFuel {n : Nat} {o : KdbBase} {b : ReadBuf}
    (h : o.height + b.remaining < n) : o.read b = readFuel n o b :=
  readFuel_agree (o.height + b.remaining + 1) n h o b (Nat.lt_succ_self _)

theorem agree_read (n : Nat) : Agree (readFuel n) KdbBase.read n := by
  intro o b h
  exact (read_eq_readFuel h).symm

theorem read_shrinks : Shrinks KdbBase.read := by
  intro o b
  exact readFuel_shrinks _ o b

/-!
## The recursion equations

With an adequate bound `read` is its own recursive caller, as in the source.
-/

namespace KdbBase

@[simp] theorem read_exception (msg : List UInt8) (b : ReadBuf) :
    (exception msg).read b =
      ((readText msg b).1, .exception (readText msg b).2.1,
        (readText msg b).2.2) := rfl

@[simp] theorem read_atom (e : Elem) (val : BitVec (8 * e.width)) (b : ReadBuf) :
    (atom e val).read b =
      ((readIntAtom e val b).1, .atom e (readIntAtom e val b).2.1,
        (readIntAtom e val b).2.2) := rfl

@[simp] theorem read_symbolAtom (val : List UInt8) (b : ReadBuf) :
    (symbolAtom val).read b =
      ((readText val b).1, .symbolAtom (readText val b).2.1,
        (readText val b).2.2) := rfl

@[simp] theorem read_vector (e : Elem) (cap : Nat) (attr : UInt8)
    (vec : List (BitVec (8 * e.width))) (b : ReadBuf) :
    (vector e cap attr vec).read b =
      ((readIntVector e.width cap vec b).1,
        .vector e cap attr (readIntVector e.width cap vec b).2.1,
        (readIntVector e.width cap vec b).2.2) := rfl

@[simp] theorem read_symbolVector (cap : Nat) (attr : UInt8)
    (locs : List LocInfo) (data : List UInt8) (b : ReadBuf) :
    (symbolVector cap attr locs data).read b =
      ((readSymbolVector cap locs data b).1,
        .symbolVector cap attr (readSymbolVector cap locs data b).2.1.1
          (readSymbolVector cap locs data b).2.1.2,
        (readSymbolVector cap locs data b).2.2) := rfl

@[simp] theorem read_function (cap : Nat) (vec : List UInt8) (b : ReadBuf) :
    (function cap vec).read b =
      ((readFunction cap vec b).1, .function cap (readFunction cap vec b).2.1,
        (readFunction cap vec b).2.2) := rfl

@[simp] theorem read_primitive (arity : Arity) (val : UInt8) (b : ReadBuf) :
    (primitive arity val).read b =
      ((readPrimitive val b).1, .primitive arity (readPrimitive val b).2.1,
        (readPrimitive val b).2.2) := rfl

@[simp] theorem read_list (cap : Nat) (attr : UInt8) (vals : List KdbBase)
    (b : ReadBuf) :
    (list cap attr vals).read b =
      ((readItems read cap vals (b.skipHdr 6)).1,
        .list cap attr (readItems read cap vals (b.skipHdr 6)).2.1,
        (readItems read cap vals (b.skipHdr 6)).2.2) := by
  have hitems := readItems_congr (agree_read (heightAll vals + b.remaining))
    (readFuel_shrinks _) cap vals (b.skipHdr 6)
    (by rw [ReadBuf.skipHdr_remaining])
  rw [← hitems]
  rfl

@[simp] theorem read_projection (cap : Nat) (vec : List KdbBase) (b : ReadBuf) :
    (projection cap vec).read b =
      ((readItems read cap vec (b.skipHdr 5)).1,
        .projection cap (readItems read cap vec (b.skipHdr 5)).2.1,
        (readItems read cap vec (b.skipHdr 5)).2.2) := by
  have hitems := readItems_congr (agree_read (heightAll vec + b.remaining))
    (readFuel_shrinks _) cap vec (b.skipHdr 5)
    (by rw [ReadBuf.skipHdr_remaining])
  rw [← hitems]
  rfl

/-- `KdbTable::read`: the parts must be a symbol vector and a list. -/
def readTableParts (cols vals : Option KdbBase) (b : ReadBuf) :
    ReadOut (Option KdbBase × Option KdbBase) :=
  readParts read 3 (fun t => t == .symbolVector) (fun t => t == .list) cols vals b

/-- `KdbDict::read`: the parts may be anything. -/
def readDictParts (keys vals : Option KdbBase) (b : ReadBuf) :
    ReadOut (Option KdbBase × Option KdbBase) :=
  readParts read 1 (fun _ => true) (fun _ => true) keys vals b

@[simp] theorem read_table (cols vals : Option KdbBase) (b : ReadBuf) :
    (table cols vals).read b =
      ((readTableParts cols vals b).1,
        .table (readTableParts cols vals b).2.1.1
          (readTableParts cols vals b).2.1.2,
        (readTableParts cols vals b).2.2) := by
  have hparts := readParts_congr
    (agree_read (max (heightPtr cols) (heightPtr vals) + b.remaining))
    (readFuel_shrinks _) 3 (fun t => t == .symbolVector) (fun t => t == .list)
    cols vals b (Nat.le_refl _)
  rw [readTableParts, ← hparts]
  rfl

@[simp] theorem read_dict (keys vals : Option KdbBase) (b : ReadBuf) :
    (dict keys vals).read b =
      ((readDictParts keys vals b).1,
        .dict (readDictParts keys vals b).2.1.1
          (readDictParts keys vals b).2.1.2,
        (readDictParts keys vals b).2.2) := by
  have hparts := readParts_congr
    (agree_read (max (heightPtr keys) (heightPtr vals) + b.remaining))
    (readFuel_shrinks _) 1 (fun _ => true) (fun _ => true) keys vals b
    (Nat.le_refl _)
  rw [readDictParts, ← hparts]
  rfl

end KdbBase

end MgKdb
