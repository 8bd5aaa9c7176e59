import MgKdb.Wire.Value

/-!
# K objects in memory

The objects of the library's class hierarchy.  Unlike a K value, an object may be
half read: a vector knows its capacity as well as its elements, and the parts of
a dict or a table are pointers that start out null.
-/

namespace MgKdb

open Foundation

/-- Where one symbol lies in the data of a symbol vector; the length counts the NUL. -/
structure LocInfo where
  off : UInt32
  len : UInt32
  deriving DecidableEq, Repr

/--
An object.  `cap` is the capacity of the `std::vector` that holds the
elements; `none` is a null pointer.
-/
inductive KdbBase where
  | exception (msg : List UInt8)
  | atom (e : Elem) (val : BitVec (8 * e.width))
  | symbolAtom (val : List UInt8)
  | list (cap : Nat) (attr : UInt8) (vals : List KdbBase)
  | vector (e : Elem) (cap : Nat) (attr : UInt8)
      (vec : List (BitVec (8 * e.width)))
  | symbolVector (cap : Nat) (attr : UInt8) (locs : List LocInfo)
      (data : List UInt8)
  | table (cols vals : Option KdbBase)
  | dict (keys vals : Option KdbBase)
  | function (cap : Nat) (vec : List UInt8)
  | primitive (arity : Arity) (val : UInt8)
  | projection (cap : Nat) (vec : List KdbBase)

namespace KdbBase

/-- The constant `m_typ`; a step dict is read into a plain dict. -/
def typ : KdbBase -> KdbType
  | exception _ => .exception
  | atom e _ => e.atomTyp
  | symbolAtom _ => .symbolAtom
  | list _ _ _ => .list
  | vector e _ _ _ => e.vectorTyp
  | symbolVector _ _ _ _ => .symbolVector
  | table _ _ => .table
  | dict _ _ => .dict
  | function _ _ => .function
  | primitive arity _ => arity.typ
  | projection _ _ => .projection

/-- Induction on an object, with one hypothesis for each part. -/
@[elab_as_elim, induction_eliminator]
theorem induct {motive : KdbBase -> Prop}
    (exception : forall msg, motive (.exception msg))
    (atom : forall e val, motive (.atom e val))
    (symbolAtom : forall val, motive (.symbolAtom val))
    (list : forall cap attr vals, (forall o, o ∈ vals -> motive o) ->
      motive (.list cap attr vals))
    (vector : forall e cap attr vec, motive (.vector e cap attr vec))
    (symbolVector : forall cap attr locs data,
      motive (.symbolVector cap attr locs data))
    (table : forall cols vals, (forall o, o ∈ cols -> motive o) ->
      (forall o, o ∈ vals -> motive o) -> motive (.table cols vals))
    (dict : forall keys vals, (forall o, o ∈ keys -> motive o) ->
      (forall o, o ∈ vals -> motive o) -> motive (.dict keys vals))
    (function : forall cap vec, motive (.function cap vec))
    (primitive : forall arity val, motive (.primitive arity val))
    (projection : forall cap vec, (forall o, o ∈ vec -> motive o) ->
      motive (.projection cap vec)) :
    forall o, motive o := by
  intro o
  refine KdbBase.rec (motive_1 := motive)
    (motive_2 := fun os => forall o, o ∈ os -> motive o)
    (motive_3 := fun p => forall o, o ∈ p -> motive o)
    exception atom symbolAtom list vector symbolVector table dict function
    primitive projection ?_ ?_ ?_ ?_ o
  · intro o ho
    cases ho
  · intro o os ho hos u hu
    rcases List.mem_cons.mp hu with hhead | htail
    · rw [hhead]
      exact ho
    · exact hos u htail
  · intro o ho
    cases ho
  · intro o ho u hu
    rw [← Option.mem_some.mp hu]
    exact ho

mutual

/-- `wireSz`; it follows the part pointers of dicts and tables unchecked. -/
def wireSz : KdbBase -> Option Nat
  | exception msg => some (1 + msg.length + 1)
  | atom e _ => some (1 + e.width)
  | symbolAtom val => some (1 + val.length + 1)
  | list _ _ vals => (wireSzAll vals).map (fun n => 6 + n)
  | vector e _ _ vec => some (6 + vec.length * e.width)
  | symbolVector _ _ _ data => some (6 + data.length)
  | table cols vals =>
      (wireSzPtr cols).bind fun n => (wireSzPtr vals).map fun m => 1 + 1 + 1 + n + m
  | dict keys vals =>
      (wireSzPtr keys).bind fun n => (wireSzPtr vals).map fun m => 1 + n + m
  | function _ vec => some (1 + 1 + 6 + vec.length)
  | primitive _ _ => some (1 + 1)
  | projection _ vec => (wireSzAll vec).map (fun n => 1 + 4 + n)

def wireSzAll : List KdbBase -> Option Nat
  | [] => some 0
  | o :: os => (wireSz o).bind fun n => (wireSzAll os).map fun m => n + m

def wireSzPtr : Option KdbBase -> Option Nat
  | none => none
  | some o => wireSz o

end

mutual

/--
The bytes that stand for an object on the wire, if it is complete: no part is
missing, and the text of a function fills its storage.
-/
def bytes : KdbBase -> Option (List UInt8)
  | exception msg => some (KdbType.exception.i8 :: (msg ++ [0]))
  | atom e val => some (e.atomTyp.i8 :: wordBytes e.width val)
  | symbolAtom val => some (KdbType.symbolAtom.i8 :: (val ++ [0]))
  | list _ attr vals =>
      (bytesAll vals).map (fun xs => KVal.vecHdr .list attr vals.length ++ xs)
  | vector e _ attr vec =>
      some (KVal.vecHdr e.vectorTyp attr vec.length ++ wordsBytes e.width vec)
  | symbolVector _ attr locs data =>
      some (KVal.vecHdr .symbolVector attr locs.length ++ data)
  | table cols vals =>
      (bytesPtr cols).bind fun xs => (bytesPtr vals).map fun ys =>
        KVal.tableHdr ++ xs ++ ys
  | dict keys vals =>
      (bytesPtr keys).bind fun xs => (bytesPtr vals).map fun ys =>
        [KdbType.dict.i8] ++ xs ++ ys
  | function cap vec =>
      if cap = vec.length then some (KVal.functionHdr vec.length ++ vec) else none
  | primitive arity val => some [arity.typ.i8, val]
  | projection _ vec =>
      (bytesAll vec).map (fun xs => KVal.projectionHdr vec.length ++ xs)

def bytesAll : List KdbBase -> Option (List UInt8)
  | [] => some []
  | o :: os => (bytes o).bind fun xs => (bytesAll os).map fun ys => xs ++ ys

def bytesPtr : Option KdbBase -> Option (List UInt8)
  | none => none
  | some o => bytes o

end

theorem bytesAll_cons {o : KdbBase} {os : List KdbBase} {xs : List UInt8}
    (h : bytesAll (o :: os) = some xs) :
    exists ys zs, o.bytes = some ys ∧ bytesAll os = some zs ∧ xs = ys ++ zs := by
  rw [bytesAll] at h
  rcases Option.bind_eq_some_iff.mp h with ⟨ys, hys, hmap⟩
  rcases Option.map_eq_some_iff.mp hmap with ⟨zs, hzs, rfl⟩
  exact ⟨ys, zs, hys, hzs, rfl⟩

theorem bytesPtr_eq_some {p : Option KdbBase} {xs : List UInt8}
    (h : bytesPtr p = some xs) : exists o, p = some o ∧ o.bytes = some xs := by
  cases p with
  | none => cases h
  | some o => exact ⟨o, rfl, h⟩

theorem bytesPtr_pair {p q : Option KdbBase} {hdr xs : List UInt8}
    (h : ((bytesPtr p).bind fun ys => (bytesPtr q).map fun zs => hdr ++ ys ++ zs) =
      some xs) :
    exists o o' ys zs, p = some o ∧ q = some o' ∧ o.bytes = some ys ∧
      o'.bytes = some zs ∧ xs = hdr ++ ys ++ zs := by
  rcases Option.bind_eq_some_iff.mp h with ⟨ys, hys, hmap⟩
  rcases Option.map_eq_some_iff.mp hmap with ⟨zs, hzs, rfl⟩
  rcases bytesPtr_eq_some hys with ⟨o, ho, hoys⟩
  rcases bytesPtr_eq_some hzs with ⟨o', ho', hozs⟩
  exact ⟨o, o', ys, zs, ho, ho', hoys, hozs, rfl⟩

theorem wireSzAll_of_bytesAll {os : List KdbBase}
    (h : forall o, o ∈ os -> forall {xs : List UInt8}, o.bytes = some xs ->
      o.wireSz = some xs.length) :
    forall {xs : List UInt8}, bytesAll os = some xs ->
      wireSzAll os = some xs.length := by
  induction os with
  | nil =>
      intro xs hxs
      rw [bytesAll] at hxs
      cases hxs
      rw [wireSzAll]
      rfl
  | cons o os ih =>
      intro xs hxs
      rcases bytesAll_cons hxs with ⟨ys, zs, hys, hzs, rfl⟩
      have ho := h o (by simp) hys
      have hos := ih (fun u hu => h u (List.mem_cons_of_mem o hu)) hzs
      rw [wireSzAll, ho, hos]
      simp

theorem wireSz_of_bytes (o : KdbBase) :
    forall {xs : List UInt8}, o.bytes = some xs -> o.wireSz = some xs.length := by
  induction o with
  | exception msg =>
      intro xs h
      rw [bytes] at h
      cases h
      simp [wireSz]
      omega
  | atom e val =>
      intro xs h
      rw [bytes] at h
      cases h
      simp [wireSz]
      omega
  | symbolAtom val =>
      intro xs h
      rw [bytes] at h
      cases h
      simp [wireSz]
      omega
  | list cap attr vals ih =>
      intro xs h
      rw [bytes] at h
      rcases Option.map_eq_some_iff.mp h with ⟨ys, hys, rfl⟩
      rw [wireSz, wireSzAll_of_bytesAll (fun o ho => ih o ho) hys]
      simp
  | vector e cap attr vec =>
      intro xs h
      rw [bytes] at h
      cases h
      simp [wireSz, Nat.mul_comm]
  | symbolVector cap attr locs data =>
      intro xs h
      rw [bytes] at h
      cases h
      simp [wireSz]
  | table cols vals ihc ihv =>
      intro xs h
      rw [bytes] at h
      rcases bytesPtr_pair h with ⟨o, o', ys, zs, rfl, rfl, hys, hzs, rfl⟩
      simp only [wireSz, wireSzPtr, ihc o rfl hys, ihv o' rfl hzs]
      simp [Nat.add_assoc]
  | dict keys vals ihk ihv =>
      intro xs h
      rw [bytes] at h
      rcases bytesPtr_pair h with ⟨o, o', ys, zs, rfl, rfl, hys, hzs, rfl⟩
      simp only [wireSz, wireSzPtr, ihk o rfl hys, ihv o' rfl hzs]
      simp
      omega
  | function cap vec =>
      intro xs h
      rw [bytes] at h
      by_cases hcap : cap = vec.length
      · rw [if_pos hcap] at h
        cases h
        simp [wireSz]
      · rw [if_neg hcap] at h
        cases h
  | primitive arity val =>
      intro xs h
      rw [bytes] at h
      cases h
      simp [wireSz]
  | projection cap vec ih =>
      intro xs h
      rw [bytes] at h
      rcases Option.map_eq_some_iff.mp h with ⟨ys, hys, rfl⟩
      rw [wireSz, wireSzAll_of_bytesAll (fun o ho => ih o ho) hys]
      simp

end KdbBase

/-!
## Objects that hold a value
-/

def locsFrom : Nat -> List NulText -> List LocInfo
  | _, [] => []
  | off, s :: ss =>
      ⟨UInt32.ofNat off, UInt32.ofNat (s.text.length + 1)⟩ ::
        locsFrom (off + s.bytes.length) ss

@[simp] theorem locsFrom_length (off : Nat) (ss : List NulText) :
    (locsFrom off ss).length = ss.length := by
  induction ss generalizing off with
  | nil => rfl
  | cons s ss ih => simp [locsFrom, ih]

theorem locsFrom_append (off : Nat) (xs ys : List NulText) :
    locsFrom off (xs ++ ys) =
      locsFrom off xs ++ locsFrom (off + (KVal.symsBytes xs).length) ys := by
  induction xs generalizing off with
  | nil => simp [locsFrom]
  | cons x xs ih =>
      simp [locsFrom, ih, Nat.add_assoc]

namespace KVal

mutual

/-- The object that reading a value builds: every capacity is the element count. -/
def obj : KVal -> KdbBase
  | exception msg => .exception msg.text
  | atom e val => .atom e val
  | symbolAtom val => .symbolAtom val.text
  | list attr vals => .list vals.length attr (objAll vals)
  | vector e attr vec => .vector e vec.length attr vec
  | symbolVector attr syms =>
      .symbolVector syms.length attr (locsFrom 0 syms) (symsBytes syms)
  | table colsAttr cols valsAttr vals =>
      .table
        (some (.symbolVector cols.length colsAttr (locsFrom 0 cols) (symsBytes cols)))
        (some (.list vals.length valsAttr (objAll vals)))
  | dict keys vals => .dict (some (obj keys)) (some (obj vals))
  | function text => .function text.length text
  | primitive arity val => .primitive arity val
  | projection parts => .projection parts.length (objAll parts)

def objAll : List KVal -> List KdbBase
  | [] => []
  | v :: vs => obj v :: objAll vs

end

theorem objAll_eq_map (vs : List KVal) : objAll vs = vs.map obj := by
  induction vs with
  | nil => rw [objAll, List.map_nil]
  | cons v vs ih => rw [objAll, ih, List.map_cons]

mutual

/--
`Holds v o`: the object `o` is complete and its content is `v`.
Capacities are free, except that the text of a function fills its storage.
-/
def Holds : KVal -> KdbBase -> Prop
  | exception msg, o => o = .exception msg.text
  | atom e val, o => o = .atom e val
  | symbolAtom val, o => o = .symbolAtom val.text
  | list attr vals, o => exists cap os, o = .list cap attr os ∧ HoldsAll vals os
  | vector e attr vec, o => exists cap, o = .vector e cap attr vec
  | symbolVector attr syms, o =>
      exists cap, o = .symbolVector cap attr (locsFrom 0 syms) (symsBytes syms)
  | table colsAttr cols valsAttr vals, o =>
      exists capCols capVals os,
        o = .table
          (some (.symbolVector capCols colsAttr (locsFrom 0 cols) (symsBytes cols)))
          (some (.list capVals valsAttr os)) ∧ HoldsAll vals os
  | dict keys vals, o =>
      exists k w, o = .dict (some k) (some w) ∧ Holds keys k ∧ Holds vals w
  | function text, o => o = .function text.length text
  | primitive arity val, o => o = .primitive arity val
  | projection parts, o =>
      exists cap os, o = .projection cap os ∧ HoldsAll parts os

def HoldsAll : List KVal -> List KdbBase -> Prop
  | [], os => os = []
  | v :: vs, os => exists o os', os = o :: os' ∧ Holds v o ∧ HoldsAll vs os'

end

theorem holdsAll_nil {os : List KdbBase} : HoldsAll [] os <-> os = [] :=
  Iff.rfl

theorem holdsAll_cons {v : KVal} {vs : List KVal} {os : List KdbBase} :
    HoldsAll (v :: vs) os <->
      exists o os', os = o :: os' ∧ Holds v o ∧ HoldsAll vs os' :=
  Iff.rfl

theorem holdsAll_length {vs : List KVal} :
    forall {os : List KdbBase}, HoldsAll vs os -> os.length = vs.length := by
  induction vs with
  | nil =>
      intro os h
      rw [holdsAll_nil.mp h]
      rfl
  | cons v vs ih =>
      intro os h
      rcases holdsAll_cons.mp h with ⟨o, os', hos, _ho, hos'⟩
      rw [hos, List.length_cons, ih hos', List.length_cons]

theorem holdsAll_map_obj {vs : List KVal}
    (h : forall v, v ∈ vs -> Holds v (obj v)) : HoldsAll vs (vs.map obj) := by
  induction vs with
  | nil => exact holdsAll_nil.mpr rfl
  | cons v vs ih =>
      refine holdsAll_cons.mpr ⟨obj v, vs.map obj, rfl, h v (by simp), ?_⟩
      exact ih (fun u hu => h u (List.mem_cons_of_mem v hu))

theorem typ_of_holds {v : KVal} {o : KdbBase} (h : Holds v o) : o.typ = v.obj.typ := by
  cases v with
  | list attr vals =>
      rw [Holds] at h
      rcases h with ⟨cap, os, rfl, _⟩
      rw [obj]
      rfl
  | vector e attr vec =>
      rw [Holds] at h
      rcases h with ⟨cap, rfl⟩
      rw [obj]
      rfl
  | symbolVector attr syms =>
      rw [Holds] at h
      rcases h with ⟨cap, rfl⟩
      rw [obj]
      rfl
  | table colsAttr cols valsAttr vals =>
      rw [Holds] at h
      rcases h with ⟨capCols, capVals, os, rfl, _⟩
      rw [obj]
      rfl
  | dict keys vals =>
      rw [Holds] at h
      rcases h with ⟨k, w, rfl, _, _⟩
      rw [obj]
      rfl
  | projection parts =>
      rw [Holds] at h
      rcases h with ⟨cap, os, rfl, _⟩
      rw [obj]
      rfl
  | _ =>
      rw [Holds] at h
      rw [h, obj]

theorem typ_ne_list {v : KVal} {o : KdbBase} (h : Holds v o)
    (hv : forall attr vals, v ≠ .list attr vals) : o.typ ≠ .list := by
  rw [typ_of_holds h]
  cases v with
  | list attr vals => exact absurd rfl (hv attr vals)
  | atom e val =>
      rw [obj]
      cases e <;> exact fun heq => by cases heq
  | vector e attr vec =>
      rw [obj]
      cases e <;> exact fun heq => by cases heq
  | primitive arity val =>
      rw [obj]
      cases arity <;> exact fun heq => by cases heq
  | _ =>
      rw [obj]
      exact fun heq => by cases heq

theorem holds_obj (v : KVal) : Holds v (obj v) := by
  induction v with
  | exception msg => simp [Holds, obj]
  | atom e val => simp [Holds, obj]
  | symbolAtom val => simp [Holds, obj]
  | list attr vals ih =>
      rw [Holds]
      exact ⟨_, _, by rw [obj], by
        rw [objAll_eq_map]
        exact holdsAll_map_obj ih⟩
  | vector e attr vec =>
      rw [Holds]
      exact ⟨_, by rw [obj]⟩
  | symbolVector attr syms =>
      rw [Holds]
      exact ⟨_, by rw [obj]⟩
  | table colsAttr cols valsAttr vals ih =>
      rw [Holds]
      exact ⟨_, _, _, by rw [obj], by
        rw [objAll_eq_map]
        exact holdsAll_map_obj ih⟩
  | dict keys vals ihk ihv =>
      rw [Holds]
      exact ⟨_, _, by rw [obj], ihk, ihv⟩
  | function text => simp [Holds, obj]
  | primitive arity val => simp [Holds, obj]
  | projection parts ih =>
      rw [Holds]
      exact ⟨_, _, by rw [obj], by
        rw [objAll_eq_map]
        exact holdsAll_map_obj ih⟩

theorem bytesAll_of_holdsAll {vs : List KVal}
    (h : forall v, v ∈ vs -> forall {o : KdbBase}, Holds v o ->
      o.bytes = some (encode v)) :
    forall {os : List KdbBase}, HoldsAll vs os ->
      KdbBase.bytesAll os = some (encodeAll vs) := by
  induction vs with
  | nil =>
      intro os hos
      rw [holdsAll_nil.mp hos, encodeAll_nil, KdbBase.bytesAll]
  | cons v vs ih =>
      intro os hos
      rcases holdsAll_cons.mp hos with ⟨o, os', hcons, ho, hos'⟩
      have hv := h v (by simp) ho
      have hvs := ih (fun u hu => h u (List.mem_cons_of_mem v hu)) hos'
      rw [hcons, KdbBase.bytesAll, hv, hvs, encodeAll_cons]
      rfl

theorem bytes_of_holds (v : KVal) :
    forall {o : KdbBase}, Holds v o -> o.bytes = some (encode v) := by
  induction v with
  | exception msg =>
      intro o h
      rw [Holds] at h
      rw [h, KdbBase.bytes, encode]
      rfl
  | atom e val =>
      intro o h
      rw [Holds] at h
      rw [h, KdbBase.bytes, encode]
  | symbolAtom val =>
      intro o h
      rw [Holds] at h
      rw [h, KdbBase.bytes, encode]
      rfl
  | list attr vals ih =>
      intro o h
      rw [Holds] at h
      rcases h with ⟨cap, os, rfl, hos⟩
      rw [KdbBase.bytes, bytesAll_of_holdsAll (fun v hv => ih v hv) hos,
        holdsAll_length hos, encode]
      rfl
  | vector e attr vec =>
      intro o h
      rw [Holds] at h
      rcases h with ⟨cap, rfl⟩
      rw [KdbBase.bytes, encode]
  | symbolVector attr syms =>
      intro o h
      rw [Holds] at h
      rcases h with ⟨cap, rfl⟩
      rw [KdbBase.bytes, encode, locsFrom_length]
  | table colsAttr cols valsAttr vals ih =>
      intro o h
      rw [Holds] at h
      rcases h with ⟨capCols, capVals, os, rfl, hos⟩
      simp only [KdbBase.bytes, KdbBase.bytesPtr,
        bytesAll_of_holdsAll (fun v hv => ih v hv) hos, holdsAll_length hos,
        locsFrom_length, encode]
      simp
  | dict keys vals ihk ihv =>
      intro o h
      rw [Holds] at h
      rcases h with ⟨k, w, rfl, hk, hw⟩
      simp only [KdbBase.bytes, KdbBase.bytesPtr, ihk hk, ihv hw, encode]
      simp
  | function text =>
      intro o h
      rw [Holds] at h
      rw [h, KdbBase.bytes, if_pos rfl, encode]
  | primitive arity val =>
      intro o h
      rw [Holds] at h
      rw [h, KdbBase.bytes, encode]
  | projection parts ih =>
      intro o h
      rw [Holds] at h
      rcases h with ⟨cap, os, rfl, hos⟩
      rw [KdbBase.bytes, bytesAll_of_holdsAll (fun v hv => ih v hv) hos,
        holdsAll_length hos, encode]
      rfl

theorem wireSz_of_holds (v : KVal) {o : KdbBase} (h : Holds v o) :
    o.wireSz = some (encode v).length :=
  KdbBase.wireSz_of_bytes o (bytes_of_holds v h)

end KVal

end MgKdb
