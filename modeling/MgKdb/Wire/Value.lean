import MgKdb.Foundation.NulText
import MgKdb.Wire.Types

/-!
# K values and their encoding

A K value without any reading or writing state, and the bytes that stand for it
on the wire.  The encoding is the format itself: the readers, the writer and the
length scanner are each compared with it.
-/

namespace MgKdb

open Foundation

inductive KVal where
  | exception (msg : NulText)
  | atom (e : Elem) (val : BitVec (8 * e.width))
  | symbolAtom (val : NulText)
  | list (attr : UInt8) (vals : List KVal)
  | vector (e : Elem) (attr : UInt8) (vec : List (BitVec (8 * e.width)))
  | symbolVector (attr : UInt8) (syms : List NulText)
  | table (colsAttr : UInt8) (cols : List NulText) (valsAttr : UInt8)
      (vals : List KVal)
  | dict (keys vals : KVal)
  | function (text : List UInt8)
  | primitive (arity : Arity) (val : UInt8)
  | projection (parts : List KVal)

namespace KVal

/-- Induction on a value, with one hypothesis for each element of a container. -/
@[elab_as_elim, induction_eliminator]
theorem induct {motive : KVal -> Prop}
    (exception : forall msg, motive (.exception msg))
    (atom : forall e val, motive (.atom e val))
    (symbolAtom : forall val, motive (.symbolAtom val))
    (list : forall attr vals, (forall v, v ∈ vals -> motive v) ->
      motive (.list attr vals))
    (vector : forall e attr vec, motive (.vector e attr vec))
    (symbolVector : forall attr syms, motive (.symbolVector attr syms))
    (table : forall colsAttr cols valsAttr vals,
      (forall v, v ∈ vals -> motive v) ->
      motive (.table colsAttr cols valsAttr vals))
    (dict : forall keys vals, motive keys -> motive vals ->
      motive (.dict keys vals))
    (function : forall text, motive (.function text))
    (primitive : forall arity val, motive (.primitive arity val))
    (projection : forall parts, (forall v, v ∈ parts -> motive v) ->
      motive (.projection parts)) :
    forall v, motive v := by
  intro v
  refine KVal.rec (motive_1 := motive)
    (motive_2 := fun vs => forall v, v ∈ vs -> motive v)
    exception atom symbolAtom list vector symbolVector table dict function
    primitive projection ?_ ?_ v
  · intro v hv
    cases hv
  · intro v vs hv hvs u hu
    rcases List.mem_cons.mp hu with hhead | htail
    · rw [hhead]
      exact hv
    · exact hvs u htail

/-!
## The encoding
-/

/-- The header shared by vectors and lists: type, attribute, element count. -/
def vecHdr (t : KdbType) (attr : UInt8) (n : Nat) : List UInt8 :=
  t.i8 :: attr :: leBytes 4 n

/-- The header of a table: its type, an unused attribute, the type of a dict. -/
def tableHdr : List UInt8 :=
  [KdbType.table.i8, 0, KdbType.dict.i8]

/-- The prologue of a function: its type, an empty context, a char-vector header. -/
def functionHdr (n : Nat) : List UInt8 :=
  KdbType.function.i8 :: 0 :: vecHdr .charVector 0 n

def projectionHdr (n : Nat) : List UInt8 :=
  KdbType.projection.i8 :: leBytes 4 n

@[simp] theorem vecHdr_length (t : KdbType) (attr : UInt8) (n : Nat) :
    (vecHdr t attr n).length = 6 := by
  simp [vecHdr]

@[simp] theorem tableHdr_length : tableHdr.length = 3 := rfl

@[simp] theorem functionHdr_length (n : Nat) : (functionHdr n).length = 8 := by
  simp [functionHdr]

@[simp] theorem projectionHdr_length (n : Nat) :
    (projectionHdr n).length = 5 := by
  simp [projectionHdr]

def symsBytes (syms : List NulText) : List UInt8 :=
  syms.flatMap NulText.bytes

@[simp] theorem symsBytes_nil : symsBytes [] = [] := rfl

@[simp] theorem symsBytes_cons (s : NulText) (syms : List NulText) :
    symsBytes (s :: syms) = s.bytes ++ symsBytes syms := rfl

theorem symsBytes_append (xs ys : List NulText) :
    symsBytes (xs ++ ys) = symsBytes xs ++ symsBytes ys :=
  List.flatMap_append

mutual

def encode : KVal -> List UInt8
  | exception msg => KdbType.exception.i8 :: msg.bytes
  | atom e val => e.atomTyp.i8 :: wordBytes e.width val
  | symbolAtom val => KdbType.symbolAtom.i8 :: val.bytes
  | list attr vals => vecHdr .list attr vals.length ++ encodeAll vals
  | vector e attr vec =>
      vecHdr e.vectorTyp attr vec.length ++ wordsBytes e.width vec
  | symbolVector attr syms =>
      vecHdr .symbolVector attr syms.length ++ symsBytes syms
  | table colsAttr cols valsAttr vals =>
      tableHdr ++ ((vecHdr .symbolVector colsAttr cols.length ++ symsBytes cols) ++
        (vecHdr .list valsAttr vals.length ++ encodeAll vals))
  | dict keys vals => KdbType.dict.i8 :: (encode keys ++ encode vals)
  | function text => functionHdr text.length ++ text
  | primitive arity val => [arity.typ.i8, val]
  | projection parts => projectionHdr parts.length ++ encodeAll parts

def encodeAll : List KVal -> List UInt8
  | [] => []
  | v :: vs => encode v ++ encodeAll vs

end

@[simp] theorem encodeAll_nil : encodeAll [] = [] := by
  rw [encodeAll]

@[simp] theorem encodeAll_cons (v : KVal) (vs : List KVal) :
    encodeAll (v :: vs) = encode v ++ encodeAll vs := by
  rw [encodeAll]

theorem encode_table (colsAttr valsAttr : UInt8) (cols : List NulText)
    (vals : List KVal) :
    encode (.table colsAttr cols valsAttr vals) =
      tableHdr ++ (encode (.symbolVector colsAttr cols) ++
        encode (.list valsAttr vals)) := by
  simp only [encode]

theorem encode_pos (v : KVal) : 0 < (encode v).length := by
  cases v <;> simp [encode]

theorem length_le_encodeAll (vs : List KVal) :
    vs.length <= (encodeAll vs).length := by
  induction vs with
  | nil => simp
  | cons v vs ih =>
      have hv := encode_pos v
      simp only [encodeAll_cons, List.length_append, List.length_cons]
      omega

theorem encode_length_le_encodeAll {v : KVal} {vs : List KVal} (h : v ∈ vs) :
    (encode v).length <= (encodeAll vs).length := by
  induction vs with
  | nil => cases h
  | cons u us ih =>
      simp only [encodeAll_cons, List.length_append]
      rcases List.mem_cons.mp h with hhead | htail
      · rw [hhead]
        omega
      · have hle := ih htail
        omega

theorem length_le_symsBytes (syms : List NulText) :
    syms.length <= (symsBytes syms).length := by
  induction syms with
  | nil => simp
  | cons s syms ih =>
      simp only [symsBytes_cons, List.length_append, List.length_cons,
        NulText.bytes_length]
      omega

/-!
## Messages
-/

/-- The header of an uncompressed message with a payload of `size` bytes. -/
def msgHdr (typ : KdbMsgType) (size : Nat) : List UInt8 :=
  [1, typ.i8, 0, 0] ++ leBytes 4 (8 + size)

def message (typ : KdbMsgType) (v : KVal) : List UInt8 :=
  msgHdr typ (encode v).length ++ encode v

@[simp] theorem msgHdr_length (typ : KdbMsgType) (size : Nat) :
    (msgHdr typ size).length = 8 := by
  simp [msgHdr]

/-!
## Counts

Element counts are 32-bit signed fields of the format.
-/

mutual

def CountsFit : KVal -> Prop
  | list _ vals => vals.length < 2 ^ 31 ∧ CountsFitAll vals
  | vector _ _ vec => vec.length < 2 ^ 31
  | symbolVector _ syms => syms.length < 2 ^ 31
  | table _ cols _ vals =>
      cols.length < 2 ^ 31 ∧ vals.length < 2 ^ 31 ∧ CountsFitAll vals
  | dict keys vals => CountsFit keys ∧ CountsFit vals
  | function text => text.length < 2 ^ 31
  | projection parts => parts.length < 2 ^ 31 ∧ CountsFitAll parts
  | exception _ | atom _ _ | symbolAtom _ | primitive _ _ => True

def CountsFitAll : List KVal -> Prop
  | [] => True
  | v :: vs => CountsFit v ∧ CountsFitAll vs

end

theorem countsFitAll_iff {vs : List KVal} :
    CountsFitAll vs <-> forall v, v ∈ vs -> CountsFit v := by
  induction vs with
  | nil => simp [CountsFitAll]
  | cons v vs ih => simp [CountsFitAll, ih]

theorem countsFit_of_length_lt (v : KVal) :
    (encode v).length < 2 ^ 31 -> CountsFit v := by
  induction v with
  | exception msg => simp [CountsFit]
  | atom e val => simp [CountsFit]
  | symbolAtom val => simp [CountsFit]
  | primitive arity val => simp [CountsFit]
  | list attr vals ih =>
      intro h
      simp only [encode, List.length_append] at h
      have hcount := length_le_encodeAll vals
      refine ⟨by omega, countsFitAll_iff.mpr ?_⟩
      intro v hv
      have hle := encode_length_le_encodeAll hv
      exact ih v hv (by omega)
  | vector e attr vec =>
      intro h
      simp only [encode, List.length_append, wordsBytes_length] at h
      have hw := e.width_pos
      have hcount : vec.length <= e.width * vec.length :=
        Nat.le_mul_of_pos_left _ hw
      simp only [CountsFit]
      omega
  | symbolVector attr syms =>
      intro h
      simp only [encode, List.length_append] at h
      have hcount := length_le_symsBytes syms
      simp only [CountsFit]
      omega
  | table colsAttr cols valsAttr vals ih =>
      intro h
      simp only [encode, List.length_append] at h
      have hcols := length_le_symsBytes cols
      have hvals := length_le_encodeAll vals
      refine ⟨by omega, by omega, countsFitAll_iff.mpr ?_⟩
      intro v hv
      have hle := encode_length_le_encodeAll hv
      exact ih v hv (by omega)
  | dict keys vals ihk ihv =>
      intro h
      simp only [encode, List.length_cons, List.length_append] at h
      exact ⟨ihk (by omega), ihv (by omega)⟩
  | function text =>
      intro h
      simp only [encode, List.length_append] at h
      simp only [CountsFit]
      omega
  | projection parts ih =>
      intro h
      simp only [encode, List.length_append] at h
      have hcount := length_le_encodeAll parts
      refine ⟨by omega, countsFitAll_iff.mpr ?_⟩
      intro v hv
      have hle := encode_length_le_encodeAll hv
      exact ih v hv (by omega)

end KVal

end MgKdb
