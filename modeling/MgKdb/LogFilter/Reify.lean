import MgKdb.LogFilter.Relevance

/-!
# Evaluating messages

A message of interest is made an object of q and evaluated.  The scanner that builds the
object is another one than the scanner that measures the message.  What it calls to build
objects belongs to q.
-/

namespace MgKdb

open Foundation

/-- A K object: the fields of `k0` that its type has, with the elements as they lie in
memory. -/
inductive KObj where
  | atom (t : UInt8) (val : List UInt8)
  | symbol (s : List UInt8)
  | vector (t a : UInt8) (g : List UInt8)
  | symbols (a : UInt8) (s : List (List UInt8))
  | list (a : UInt8) (k : List KObj)
  | dict (keys vals : KObj)
  | table (k : KObj)

namespace KObj

def setVal (val : List UInt8) : KObj -> Option KObj
  | atom t _ => some (atom t val)
  | _ => none

/-- `vec->a = att` -/
def setAttr (att : UInt8) : KObj -> KObj
  | vector t _ g => vector t att g
  | symbols _ s => symbols att s
  | list _ k => list att k
  | obj => obj

/-- `memcpy` to the elements of a vector, which must have room. -/
def copyIn (xs : List UInt8) : KObj -> Option KObj
  | vector t a g =>
      if xs.length <= g.length then some (vector t a (xs ++ g.drop xs.length)) else none
  | _ => none

/-- `kS(vec)[i] = s` -/
def setSymbol (i : Nat) (text : List UInt8) : KObj -> Option KObj
  | symbols a s => if i < s.length then some (symbols a (s.set i text)) else none
  | _ => none

/-- `kK(lst)[i] = elem` -/
def setElem (lst : KObj) (i : Nat) (elem : KObj) : Option KObj :=
  match lst with
  | list a k => if i < k.length then some (list a (k.set i elem)) else none
  | _ => none

end KObj

structure KApi where
  ka : UInt8 -> KObj
  ku : List UInt8 -> KObj
  ks : List UInt8 -> KObj
  ss : List UInt8 -> List UInt8
  ktn : UInt8 -> Nat -> KObj
  xT : KObj -> KObj
  xD : KObj -> KObj -> KObj

/-- What the manual says of them.  The values of a new atom and the elements of a new vector
or list are not set. -/
structure KApi.Documented (api : KApi) : Prop where
  ka : forall e : LogElem, exists val, api.ka e.atomTyp.i8 = .atom e.atomTyp.i8 val
  ku : forall g, api.ku g = .atom KdbType.guidAtom.i8 g
  ks : forall s, api.ks s = .symbol s
  ss : forall s, api.ss s = s
  ktn_elems : forall (e : LogElem) (n : Nat), exists a g,
    api.ktn e.vectorTyp.i8 n = .vector e.vectorTyp.i8 a g ∧ g.length = n * e.width
  ktn_symbols : forall n : Nat, exists a s,
    api.ktn KdbType.symbolVector.i8 n = .symbols a s ∧ s.length = n
  ktn_list : forall n : Nat, exists a k,
    api.ktn KdbType.list.i8 n = .list a k ∧ k.length = n
  xT : forall keys vals, api.xT (.dict keys vals) = .table (.dict keys vals)
  xD : forall keys vals, api.xD keys vals = .dict keys vals

/-- The length, and the object; `none` is an abort or worse. -/
abbrev ReifyOut := Option (Nat × KObj)

section Reify

variable (api : KApi)

/-- The readers of atoms, of which the value has `width` bytes. -/
def mgReadAtom (width : Nat) (typ : UInt8) (src : List UInt8) : ReifyOut :=
  if src.length < width then none
  else ((api.ka typ).setVal (src.take width)).map (fun obj => (width, obj))

def mgReadI8Atom : UInt8 -> List UInt8 -> ReifyOut :=
  mgReadAtom api 1

def mgReadI16Atom : UInt8 -> List UInt8 -> ReifyOut :=
  mgReadAtom api 2

def mgReadI32Atom : UInt8 -> List UInt8 -> ReifyOut :=
  mgReadAtom api 4

def mgReadI64Atom : UInt8 -> List UInt8 -> ReifyOut :=
  mgReadAtom api 8

def mgReadUuidAtom (src : List UInt8) : ReifyOut :=
  if src.length < 16 then none else some (16, api.ku (src.take 16))

def mgCopyTo (width : Nat) (src : List UInt8) (vec : KObj) : ReifyOut :=
  match mgCopy width src with
  | none => none
  | some off =>
      (vec.copyIn ((src.drop 5).take ((i32At (src.drop 1)).toNat * width))).map
        (fun vec => (off, vec))

/-- The loop over the symbols of a vector, of which `n` are left from `i` on. -/
def mgSymLoopTo (src : List UInt8) : Nat -> Nat -> Nat -> KObj -> ReifyOut
  | 0, _, off, vec => some (off, vec)
  | n + 1, i, off, vec =>
      match stringView (src.drop off) with
      | none => none
      | some s =>
          match vec.setSymbol i (api.ss s) with
          | none => none
          | some vec => mgSymLoopTo src n (i + 1) (off + (s.length + 1)) vec

/-- `mg_read_vec`; `ktn` is not asked for a negative number of elements. -/
def mgReadVec (typ : UInt8) (src : List UInt8) : ReifyOut :=
  if src.length < 5 ∨ i32At (src.drop 1) < 0 then none
  else
    let vec := (api.ktn typ (i32At (src.drop 1)).toNat).setAttr (src.headD 0)
    match KdbType.ofI8 typ with
    | some .timeVector | some .secondVector | some .minuteVector | some .dateVector
    | some .monthVector | some .realVector | some .intVector => mgCopyTo 4 src vec
    | some .timespanVector | some .datetimeVector | some .timestampVector
    | some .floatVector | some .longVector => mgCopyTo 8 src vec
    | some .shortVector => mgCopyTo 2 src vec
    | some .charVector | some .byteVector | some .boolVector => mgCopyTo 1 src vec
    | some .guidVector => mgCopyTo 16 src vec
    | some .symbolVector => mgSymLoopTo api src (i32At (src.drop 1)).toNat 0 5 vec
    | _ => some (5, vec)

section Parts

variable (reify : List UInt8 -> ReifyOut)

/-- The loop over the elements of a list, of which `n` are left from `i` on. -/
def mgReifyList (src : List UInt8) : Nat -> Nat -> Nat -> KObj -> ReifyOut
  | 0, _, off, lst => some (off, lst)
  | n + 1, i, off, lst =>
      match reify (src.drop off) with
      | none => none
      | some elem =>
          match lst.setElem i elem.2 with
          | none => none
          | some lst => mgReifyList src n (i + 1) (off + elem.1) lst

def mgReifyDict (src : List UInt8) : ReifyOut :=
  match reify (src.drop 1) with
  | none => none
  | some kys =>
      match reify (src.drop (1 + kys.1)) with
      | none => none
      | some vls => some (1 + kys.1 + vls.1, api.xD kys.2 vls.2)

/-- `mg_reify_msg` -/
def mgReifyOf (src : List UInt8) : ReifyOut :=
  match src with
  | [] => none
  | typ :: rest =>
      match KdbType.ofI8 typ with
      | some .timeAtom | some .secondAtom | some .minuteAtom | some .dateAtom
      | some .monthAtom | some .realAtom | some .intAtom =>
          (mgReadI32Atom api typ rest).map (fun out => (1 + out.1, out.2))
      | some .timespanAtom | some .datetimeAtom | some .timestampAtom | some .floatAtom
      | some .longAtom => (mgReadI64Atom api typ rest).map (fun out => (1 + out.1, out.2))
      | some .shortAtom => (mgReadI16Atom api typ rest).map (fun out => (1 + out.1, out.2))
      | some .charAtom | some .byteAtom | some .boolAtom =>
          (mgReadI8Atom api typ rest).map (fun out => (1 + out.1, out.2))
      | some .guidAtom => (mgReadUuidAtom api rest).map (fun out => (1 + out.1, out.2))
      | some .symbolAtom =>
          (stringView rest).map (fun pos => (1 + pos.length + 1, api.ks pos))
      | some .list =>
          if rest.length < 5 ∨ i32At (rest.drop 1) < 0 then none
          else
            mgReifyList reify src (i32At (rest.drop 1)).toNat 0 6
              ((api.ktn typ (i32At (rest.drop 1)).toNat).setAttr (rest.headD 0))
      | some .boolVector | some .charVector | some .byteVector | some .shortVector
      | some .intVector | some .realVector | some .monthVector | some .dateVector
      | some .minuteVector | some .secondVector | some .timeVector | some .longVector
      | some .floatVector | some .timestampVector | some .datetimeVector
      | some .timespanVector | some .symbolVector =>
          (mgReadVec api typ rest).map (fun out => (1 + out.1, out.2))
      | some .table => (reify (src.drop 2)).map (fun dct => (2 + dct.1, api.xT dct.2))
      | some .dict => mgReifyDict api reify src
      | _ => none

end Parts

/-- Every part starts behind the first byte of what it is a part of. -/
def mgReifyFuel : Nat -> List UInt8 -> ReifyOut
  | 0, _ => none
  | n + 1, src => mgReifyOf api (mgReifyFuel n) src

def mgReifyMsg (src : List UInt8) : ReifyOut :=
  mgReifyFuel api (src.length + 1) src

end Reify

/-!
## The object of a value
-/

namespace LogVal

mutual

/-- The object that holds a value of a supported type.  The attribute of a table is not kept;
`xT` makes a table of its columns. -/
def kObj : LogVal -> KObj
  | atom e val => .atom e.atomTyp.i8 (wordBytes e.width val)
  | symbolAtom val => .symbol val.text
  | vector e attr vec => .vector e.vectorTyp.i8 attr (wordsBytes e.width vec)
  | symbolVector attr syms => .symbols attr (syms.map NulText.text)
  | list attr parts => .list attr (kObjs parts)
  | dict keys vals => .dict (kObj keys) (kObj vals)
  | table _ cols vals => .table (.dict (kObj cols) (kObj vals))
  | other typ _ body => .atom typ body

def kObjs : List LogVal -> List KObj
  | [] => []
  | p :: ps => kObj p :: kObjs ps

end

end LogVal

/-!
## Vectors
-/

section Vectors

theorem mgCopyTo_eq {width n : Nat} {src : List UInt8} (hcount : i32At (src.drop 1) = n)
    (t a : UInt8) {g : List UInt8} (hg : g.length = n * width) :
    GivesWhen (n * width < 2 ^ 31 ∧ 5 + n * width <= src.length)
      (5 + n * width, KObj.vector t a ((src.drop 5).take (n * width)))
      (mgCopyTo width src (.vector t a g)) := by
  have hcopy := mgCopy_eq width src
  rw [hcount, Int.toNat_natCast] at hcopy
  rw [mgCopyTo, hcount, Int.toNat_natCast]
  constructor
  · intro h
    have hlen : ((src.drop 5).take (n * width)).length = n * width := by
      rw [List.length_take, List.length_drop]
      omega
    have hrest : g.drop (n * width) = [] := List.drop_of_length_le (by omega)
    rw [hcopy.gives h]
    simp only
    rw [KObj.copyIn, if_pos (by omega), Option.map_some, hlen, hrest, List.append_nil]
  · intro h
    rw [hcopy.denies h]

theorem mgReadVec_elems (api : KApi) (e : LogElem) {src : List UInt8}
    (hlong : 5 <= src.length) (hcount : 0 <= i32At (src.drop 1)) :
    mgReadVec api e.vectorTyp.i8 src =
      mgCopyTo e.width src
        ((api.ktn e.vectorTyp.i8 (i32At (src.drop 1)).toNat).setAttr (src.headD 0)) := by
  rw [mgReadVec, if_neg (by omega), KdbType.ofI8_i8]
  cases e with
  | elem e => cases e <;> rfl
  | datetime => rfl

theorem mgReadVec_eq {api : KApi} (hapi : api.Documented) (e : LogElem) {src : List UInt8}
    {n : Nat} (hlong : 5 <= src.length) (hcount : i32At (src.drop 1) = n) :
    GivesWhen (n * e.width < 2 ^ 31 ∧ 5 + n * e.width <= src.length)
      (5 + n * e.width,
        KObj.vector e.vectorTyp.i8 (src.headD 0) ((src.drop 5).take (n * e.width)))
      (mgReadVec api e.vectorTyp.i8 src) := by
  rw [mgReadVec_elems api e hlong (by omega), hcount, Int.toNat_natCast]
  rcases hapi.ktn_elems e n with ⟨a, g, hktn, hg⟩
  rw [hktn]
  exact mgCopyTo_eq hcount _ _ hg

theorem mgReadVecOld_eq (e : LogElem) {src : List UInt8} {n : Nat} (hlong : 5 <= src.length)
    (hcount : i32At (src.drop 1) = n) :
    GivesWhen (n * e.width < 2 ^ 31 ∧ 5 + n * e.width <= src.length) (5 + n * e.width)
      (mgReadVecOld e.vectorTyp.i8 src) := by
  have hcopy := mgCopy_eq e.width src
  rw [hcount, Int.toNat_natCast] at hcopy
  rw [mgReadVecOld_vector e hlong (by omega)]
  exact hcopy

end Vectors

/-!
## The scanner
-/

theorem take_set_succ {γ : Type} {l : List γ} {i : Nat} (h : i < l.length) (x : γ) :
    (l.set i x).take (i + 1) = l.take i ++ [x] := by
  rw [List.take_add_one, List.take_set_of_le (Nat.le_refl i), List.getElem?_set_self h]
  rfl

theorem mgSymLoopTo_eq {api : KApi} (src : List UInt8) (a : UInt8) (n : Nat) :
    forall {i off : Nat} {l : List (List UInt8)}, l.length = i + n ->
      mgSymLoopTo api src n i off (.symbols a l) =
        (readAll (readSym (fun text acc => acc ++ [api.ss text])) src n off (l.take i)).map
          (fun out => (out.1, KObj.symbols a out.2)) := by
  induction n with
  | zero =>
      intro i off l hl
      rw [mgSymLoopTo, readAll, Option.map_some, List.take_of_length_le (by omega)]
  | succ n ih =>
      intro i off l hl
      rw [mgSymLoopTo, readAll, readSym]
      cases stringView (src.drop off) with
      | none => rfl
      | some text =>
          have hi : i < l.length := by omega
          have hstore : (KObj.symbols a l).setSymbol i (api.ss text) =
              some (.symbols a (l.set i (api.ss text))) := if_pos hi
          simp only [Option.map_some]
          rw [hstore, <- take_set_succ hi]
          exact ih (by rw [List.length_set]; omega)

def reifyPart (reify : List UInt8 -> ReifyOut) (src : List UInt8) (acc : List KObj) :
    Option (Nat × List KObj) :=
  (reify src).map (fun elem => (elem.1, acc ++ [elem.2]))

theorem mgReifyList_eq (reify : List UInt8 -> ReifyOut) (src : List UInt8) (a : UInt8)
    (n : Nat) :
    forall {i off : Nat} {l : List KObj}, l.length = i + n ->
      mgReifyList reify src n i off (.list a l) =
        (readAll (reifyPart reify) src n off (l.take i)).map
          (fun out => (out.1, KObj.list a out.2)) := by
  induction n with
  | zero =>
      intro i off l hl
      rw [mgReifyList, readAll, Option.map_some, List.take_of_length_le (by omega)]
  | succ n ih =>
      intro i off l hl
      rw [mgReifyList, readAll, reifyPart]
      cases reify (src.drop off) with
      | none => rfl
      | some elem =>
          have hi : i < l.length := by omega
          have hstore : (KObj.list a l).setElem i elem.2 =
              some (.list a (l.set i elem.2)) := if_pos hi
          simp only [Option.map_some]
          rw [hstore, <- take_set_succ hi]
          exact ih (by rw [List.length_set]; omega)

theorem mgReifyDict_eq (api : KApi) (reify : List UInt8 -> ReifyOut) (src : List UInt8) :
    mgReifyDict api reify src =
      (reify (src.drop 1)).bind (fun kys =>
        (reify (src.drop (1 + kys.1))).map
          (fun vls => (1 + kys.1 + vls.1, api.xD kys.2 vls.2))) := by
  rw [mgReifyDict]
  cases reify (src.drop 1) with
  | none => rfl
  | some kys =>
      rw [Option.bind_some]
      simp only
      cases reify (src.drop (1 + kys.1)) with
      | none => rfl
      | some vls => rfl

/-! Which branch a type takes. -/

theorem mgReadAtom_eq {api : KApi} (hapi : api.Documented) (e : LogElem) (src : List UInt8) :
    GivesWhen (e.width <= src.length) (e.width, KObj.atom e.atomTyp.i8 (src.take e.width))
      (mgReadAtom api e.width e.atomTyp.i8 src) := by
  rcases hapi.ka e with ⟨val, hka⟩
  rw [mgReadAtom, hka]
  split
  next h => exact GivesWhen.none_of (by omega)
  next h => exact GivesWhen.some_of (by omega)

theorem mgReifyOf_atom {api : KApi} (hapi : api.Documented) (e : LogElem)
    (reify : List UInt8 -> ReifyOut) (rest : List UInt8) :
    GivesWhen (e.width <= rest.length)
      (1 + e.width, KObj.atom e.atomTyp.i8 (rest.take e.width))
      (mgReifyOf api reify (e.atomTyp.i8 :: rest)) := by
  have hatom := (mgReadAtom_eq hapi e rest).map (fun out => (1 + out.1, out.2))
  cases e with
  | datetime => exact hatom
  | elem e =>
      cases e with
      | guid =>
          have hbranch : mgReifyOf api reify (KdbType.guidAtom.i8 :: rest) =
              (mgReadUuidAtom api rest).map (fun out => (1 + out.1, out.2)) := rfl
          have hread : GivesWhen (16 <= rest.length)
              (16, KObj.atom KdbType.guidAtom.i8 (rest.take 16)) (mgReadUuidAtom api rest) := by
            rw [mgReadUuidAtom, hapi.ku]
            split
            next h => exact GivesWhen.none_of (by omega)
            next h => exact GivesWhen.some_of (by omega)
          exact hread.map (fun out => (1 + out.1, out.2))
      | _ => exact hatom

theorem mgReifyOf_vector {e : LogElem} (he : e ≠ .elem .guid) (api : KApi)
    (reify : List UInt8 -> ReifyOut) (rest : List UInt8) :
    mgReifyOf api reify (e.vectorTyp.i8 :: rest) =
      (mgReadVec api e.vectorTyp.i8 rest).map (fun out => (1 + out.1, out.2)) := by
  cases e with
  | elem e =>
      cases e with
      | guid => exact absurd rfl he
      | _ => rfl
  | datetime => rfl

theorem mgReifyOf_other {typ : UInt8} (h : foreignTyp typ = true) (api : KApi)
    (reify : List UInt8 -> ReifyOut) (rest : List UInt8) :
    mgReifyOf api reify (typ :: rest) = none := by
  rw [mgReifyOf]
  rw [foreignTyp] at h
  split at h
  all_goals first | rename_i heq; rw [heq] | cases h

theorem foldl_append {β γ : Type} (f : β -> γ) (bs : List β) :
    forall acc : List γ, bs.foldl (fun acc b => acc ++ [f b]) acc = acc ++ bs.map f := by
  induction bs with
  | nil => exact fun acc => (List.append_nil acc).symm
  | cons b bs ih =>
      intro acc
      rw [List.foldl_cons, ih, List.append_assoc, List.map_cons, List.singleton_append]

namespace LogVal

def Reifies (api : KApi) (n : Nat) (p : LogVal) : Prop :=
  forall src rest : List UInt8, src <+: p.bytes ++ rest -> src.length < n ->
    GivesWhen (p.Accepted ∧ p.bytes.length <= src.length) (p.bytes.length, p.kObj)
      (mgReifyFuel api n src)

section Reifies

variable {api : KApi} {n : Nat}

theorem kObjs_eq_map (ps : List LogVal) : kObjs ps = ps.map kObj := by
  induction ps with
  | nil => rw [kObjs, List.map_nil]
  | cons p ps ih => rw [kObjs, ih, List.map_cons]

theorem Reifies.part {p : LogVal} (h : p.Reifies api n) :
    whole.Reads (reifyPart (mgReifyFuel api n)) (fun p acc => acc ++ [p.kObj]) n p :=
  fun src rest acc hpre hlt =>
    (h src rest hpre hlt).map (fun elem => (elem.1, acc ++ [elem.2]))

theorem reifies_parts (acc : List KObj) (ps : List LogVal)
    (hparts : forall p, p ∈ ps -> p.Reifies api n) {src rest : List UInt8} {off : Nat}
    (hpos : 0 < off) (hoff : off <= src.length) (hlt : src.length < n + 1)
    (hpre : src.drop off <+: bytesAll ps ++ rest) :
    GivesWhen ((forall p, p ∈ ps -> p.Accepted) ∧ off + (bytesAll ps).length <= src.length)
      (off + (bytesAll ps).length, acc ++ kObjs ps)
      (readAll (reifyPart (mgReifyFuel api n)) src ps.length off acc) := by
  have hdrop : (src.drop off).length = src.length - off := List.length_drop
  rw [<- whole_encAll] at hpre ⊢
  rw [kObjs_eq_map, <- foldl_append]
  refine (Coding.readAll_front ps acc (fun p hp => (hparts p hp).part) (by omega) hoff
    (by omega) hpre).of_iff ?_
  rw [Coding.AllReadable, whole_lastSlack]
  exact Iff.rfl

theorem not_shown_nil (p : LogVal) :
    ¬ (p.Accepted ∧ p.bytes.length <= ([] : List UInt8).length) := by
  rintro ⟨_, hle⟩
  have hpos := p.bytes_pos
  rw [List.length_nil] at hle
  omega

theorem reifies_list (hapi : api.Documented) (attr : UInt8) (parts : List LogVal)
    (hcount : parts.length < 2 ^ 31) (hparts : forall p, p ∈ parts -> p.Reifies api n) :
    (list attr parts).Reifies api (n + 1) := by
  intro src rest hpre hlt
  rw [bytes, List.append_assoc] at hpre
  rcases front_vecHdr hcount .list attr hpre with rfl | ⟨tail, rfl, htail⟩
  · exact GivesWhen.none_of (not_shown_nil _)
  · have hbranch : mgReifyFuel api (n + 1) (KdbType.list.i8 :: tail) =
        if tail.length < 5 ∨ i32At (tail.drop 1) < 0 then none
        else mgReifyList (mgReifyFuel api n) (KdbType.list.i8 :: tail)
          (i32At (tail.drop 1)).toNat 0 6
          ((api.ktn KdbType.list.i8 (i32At (tail.drop 1)).toNat).setAttr (tail.headD 0)) := rfl
    have hobj : (list attr parts).kObj = .list attr (kObjs parts) := rfl
    rw [hbranch, bytes_list_length, accepted_list, hobj]
    by_cases hlong : 5 <= tail.length
    · rcases htail hlong with ⟨hlen, hbody, hattr⟩
      rcases hapi.ktn_list parts.length with ⟨a, l, hktn, hl⟩
      have hloop := (reifies_parts [] parts hparts (Nat.succ_pos 5)
        (by rw [List.length_cons]; omega) hlt
        (show (KdbType.list.i8 :: tail).drop 6 <+: bytesAll parts ++ rest from hbody)).map
        (fun out => (out.1, KObj.list attr out.2))
      rw [if_neg (by omega), hlen, Int.toNat_natCast, hktn, hattr, KObj.setAttr,
        mgReifyList_eq _ _ _ _ (by omega), List.take_zero]
      exact hloop
    · rw [if_pos (by omega)]
      refine GivesWhen.none_of ?_
      rw [List.length_cons]
      omega

theorem reifies_dict (hapi : api.Documented) (keys vals : LogVal)
    (hkeys : keys.Reifies api n) (hvals : vals.Reifies api n) :
    (dict keys vals).Reifies api (n + 1) := by
  intro src rest hpre hlt
  cases src with
  | nil => exact GivesWhen.none_of (not_shown_nil _)
  | cons typ tail =>
      rw [bytes] at hpre
      rcases List.cons_prefix_cons.mp hpre with ⟨rfl, htail⟩
      change tail <+: keys.bytes ++ vals.bytes ++ rest at htail
      rw [List.append_assoc] at htail
      rw [List.length_cons] at hlt
      have hbranch : mgReifyFuel api (n + 1) (KdbType.dict.i8 :: tail) =
          mgReifyDict api (mgReifyFuel api n) (KdbType.dict.i8 :: tail) := rfl
      have hobj : (dict keys vals).kObj = .dict keys.kObj vals.kObj := rfl
      have hk := hkeys tail _ htail (by omega)
      rw [hbranch, bytes_dict_length, accepted_dict, hobj, mgReifyDict_eq, List.drop_one,
        List.tail_cons, List.length_cons]
      by_cases hshown : keys.Accepted ∧ keys.bytes.length <= tail.length
      · have hbody := htail.drop keys.bytes.length
        rw [List.drop_left] at hbody
        have hv := (hvals _ rest hbody (by rw [List.length_drop]; omega)).map
          (fun vls => (1 + keys.bytes.length + vls.1, api.xD keys.kObj vls.2))
        rw [hk.gives hshown, Option.bind_some]
        simp only
        rw [Nat.add_comm 1 keys.bytes.length, List.drop_succ_cons,
          Nat.add_comm keys.bytes.length 1, <- hapi.xD]
        refine hv.of_iff ?_
        rw [List.length_drop]
        constructor
        · rintro ⟨⟨_, hok⟩, hle⟩
          exact ⟨hok, by omega⟩
        · rintro ⟨hok, hle⟩
          exact ⟨⟨hshown.left, hok⟩, by omega⟩
      · rw [hk.denies hshown, Option.bind_none]
        refine GivesWhen.none_of ?_
        rintro ⟨⟨hok, _⟩, hle⟩
        exact hshown ⟨hok, by omega⟩

theorem reifies_table (hapi : api.Documented) (attr : UInt8) (cols vals : LogVal)
    (hdict : (dict cols vals).Reifies api n) : (table attr cols vals).Reifies api (n + 1) := by
  intro src rest hpre hlt
  cases src with
  | nil => exact GivesWhen.none_of (not_shown_nil _)
  | cons typ tail =>
      rw [bytes] at hpre
      rcases List.cons_prefix_cons.mp hpre with ⟨rfl, htail⟩
      have hbranch : mgReifyFuel api (n + 1) (KdbType.table.i8 :: tail) =
          (mgReifyFuel api n (tail.drop 1)).map (fun dct => (2 + dct.1, api.xT dct.2)) := rfl
      have hbody : tail.drop 1 <+: (dict cols vals).bytes ++ rest := by
        have h := htail.drop 1
        rwa [bytes]
      rw [List.length_cons] at hlt
      have hshort : (tail.drop 1).length < n := by
        rw [List.length_drop]
        omega
      have hdct := (hdict _ rest hbody hshort).map (fun dct => (2 + dct.1, api.xT dct.2))
      have hpos := (dict cols vals).bytes_pos
      have hobj : (table attr cols vals).kObj = api.xT (dict cols vals).kObj :=
        (hapi.xT cols.kObj vals.kObj).symm
      rw [hbranch, bytes_table_length, accepted_table, hobj]
      refine hdct.of_iff ?_
      rw [List.length_drop, List.length_cons]
      constructor
      · rintro ⟨hok, hle⟩
        exact ⟨hok, by omega⟩
      · rintro ⟨hok, hle⟩
        exact ⟨hok, by omega⟩

theorem reifies_atom (hapi : api.Documented) (e : LogElem) (val : BitVec (8 * e.width)) :
    (atom e val).Reifies api (n + 1) := by
  intro src rest hpre hlt
  cases src with
  | nil => exact GivesWhen.none_of (not_shown_nil _)
  | cons typ tail =>
      have hout := bytes_atom_length e val
      have hobj : (atom e val).kObj = .atom e.atomTyp.i8 (wordBytes e.width val) := rfl
      rw [bytes] at hpre
      rcases List.cons_prefix_cons.mp hpre with ⟨rfl, htail⟩
      have hatom := mgReifyOf_atom hapi e (mgReifyFuel api n) tail
      rw [hout, hobj, mgReifyFuel]
      constructor
      · rintro ⟨_, hle⟩
        rw [List.length_cons] at hle
        have htake := take_of_front htail (by rw [wordBytes_length]; omega)
        rw [wordBytes_length] at htake
        rw [hatom.gives (by omega), htake]
      · intro hno
        refine hatom.denies (fun hle => hno ⟨accepted_atom e val, ?_⟩)
        rw [List.length_cons]
        omega

theorem reifies_symbolAtom (hapi : api.Documented) (val : NulText) :
    (symbolAtom val).Reifies api (n + 1) := by
  intro src rest hpre hlt
  cases src with
  | nil => exact GivesWhen.none_of (not_shown_nil _)
  | cons typ tail =>
      have hout : (symbolAtom val).bytes.length = 1 + val.text.length + 1 := by
        rw [bytes_symbolAtom_length, NulText.bytes_length, Nat.add_assoc]
      have hobj : (symbolAtom val).kObj = api.ks val.text := (hapi.ks val.text).symm
      rw [bytes] at hpre
      rcases List.cons_prefix_cons.mp hpre with ⟨rfl, htail⟩
      have hbranch : mgReifyFuel api (n + 1) (KdbType.symbolAtom.i8 :: tail) =
          (stringView tail).map (fun pos => (1 + pos.length + 1, api.ks pos)) := rfl
      have hview := (stringView_front val htail).map
        (fun pos => (1 + pos.length + 1, api.ks pos))
      rw [hbranch, hout, hobj]
      refine hview.of_iff ?_
      rw [List.length_cons, NulText.bytes_length]
      exact ⟨fun h => by omega, fun h => ⟨accepted_symbolAtom val, by omega⟩⟩

theorem reifies_vector (hapi : api.Documented) (e : LogElem) (attr : UInt8)
    (vec : List (BitVec (8 * e.width))) (hcount : vec.length < 2 ^ 31) :
    (vector e attr vec).Reifies api (n + 1) := by
  intro src rest hpre hlt
  have hout := bytes_vector_length e attr vec
  have hwords : (wordsBytes e.width vec).length = vec.length * e.width := by
    rw [wordsBytes_length, Nat.mul_comm]
  rw [bytes, List.append_assoc] at hpre
  rcases front_vecHdr hcount e.vectorTyp attr hpre with rfl | ⟨tail, rfl, htail⟩
  · exact GivesWhen.none_of (not_shown_nil _)
  · have hobj : (vector e attr vec).kObj =
        .vector e.vectorTyp.i8 attr (wordsBytes e.width vec) := rfl
    rw [accepted_vector, hout, hobj, mgReifyFuel]
    by_cases he : e = .elem .guid
    · subst he
      exact GivesWhen.none_of (fun h => h.left.left rfl)
    · rw [mgReifyOf_vector he]
      by_cases hlong : 5 <= tail.length
      · rcases htail hlong with ⟨hlen, hbody, hattr⟩
        have hread := (mgReadVec_eq hapi e hlong hlen).map (fun out => (1 + out.1, out.2))
        rw [hattr, <- Nat.add_assoc] at hread
        constructor
        · rintro ⟨⟨_, hfit⟩, hle⟩
          rw [List.length_cons] at hle
          have htake := take_of_front hbody (by rw [hwords, List.length_drop]; omega)
          rw [hwords] at htake
          rw [hread.gives ⟨hfit, by omega⟩, htake]
        · intro hno
          refine hread.denies (fun h => hno ⟨⟨he, h.left⟩, ?_⟩)
          rw [List.length_cons]
          omega
      · rw [mgReadVec, if_pos (by omega)]
        refine GivesWhen.none_of ?_
        rw [List.length_cons]
        omega

theorem reifies_symbolVector (hapi : api.Documented) (attr : UInt8) (syms : List NulText)
    (hcount : syms.length < 2 ^ 31) : (symbolVector attr syms).Reifies api (n + 1) := by
  intro src rest hpre hlt
  have hout := bytes_symbolVector_length attr syms
  rw [bytes, List.append_assoc] at hpre
  rcases front_vecHdr hcount .symbolVector attr hpre with rfl | ⟨tail, rfl, htail⟩
  · exact GivesWhen.none_of (not_shown_nil _)
  · have hbranch : mgReifyFuel api (n + 1) (KdbType.symbolVector.i8 :: tail) =
        (if tail.length < 5 ∨ i32At (tail.drop 1) < 0 then none
          else mgSymLoopTo api tail (i32At (tail.drop 1)).toNat 0 5
            ((api.ktn KdbType.symbolVector.i8 (i32At (tail.drop 1)).toNat).setAttr
              (tail.headD 0))).map (fun out => (1 + out.1, out.2)) := rfl
    have hobj : (symbolVector attr syms).kObj = .symbols attr (syms.map NulText.text) := rfl
    rw [hbranch, hout, hobj]
    by_cases hlong : 5 <= tail.length
    · rcases htail hlong with ⟨hlen, hbody, hattr⟩
      rcases hapi.ktn_symbols syms.length with ⟨a, l, hktn, hl⟩
      have hfold : syms.foldl (fun acc sym => acc ++ [api.ss sym.text]) [] =
          syms.map NulText.text := by
        rw [foldl_append (fun sym : NulText => api.ss sym.text), List.nil_append]
        exact List.map_congr_left (fun sym _ => hapi.ss sym.text)
      have hloop := ((readAll_symbols (fun text acc => acc ++ [api.ss text]) syms [] hlong
        hbody).map (fun out => (out.1, KObj.symbols attr out.2))).map
        (fun out => (1 + out.1, out.2))
      rw [hfold, <- Nat.add_assoc] at hloop
      rw [if_neg (by omega), hlen, Int.toNat_natCast, hktn, hattr, KObj.setAttr,
        mgSymLoopTo_eq _ _ _ (by omega), List.take_zero]
      refine hloop.of_iff ?_
      rw [List.length_cons]
      exact ⟨fun h => by omega, fun h => ⟨accepted_symbolVector attr syms, by omega⟩⟩
    · rw [if_pos (by omega)]
      refine GivesWhen.none_of ?_
      rw [List.length_cons]
      omega

theorem reifies_other (typ : UInt8) (h : foreignTyp typ = true) (body : List UInt8) :
    (other typ h body).Reifies api (n + 1) := by
  intro src rest hpre hlt
  have hno : ¬ (other typ h body).Accepted := not_accepted_other typ h body
  cases src with
  | nil => exact GivesWhen.none_of (fun h => hno h.left)
  | cons t tail =>
      rw [bytes] at hpre
      rcases List.cons_prefix_cons.mp hpre with ⟨rfl, _⟩
      rw [mgReifyFuel, mgReifyOf_other h]
      exact GivesWhen.none_of (fun h => hno h.left)

theorem reifies_of_succ {p : LogVal} (h : forall n, p.Reifies api (n + 1)) (n : Nat) :
    p.Reifies api n := by
  cases n with
  | zero => exact fun _ _ _ hlt => absurd hlt (Nat.not_lt_zero _)
  | succ n => exact h n

theorem reifies (hapi : api.Documented) (p : LogVal) :
    p.WellFormed -> forall n, p.Reifies api n := by
  induction p with
  | atom e val => exact fun _ => reifies_of_succ (fun _ => reifies_atom hapi e val)
  | symbolAtom val => exact fun _ => reifies_of_succ (fun _ => reifies_symbolAtom hapi val)
  | vector e attr vec =>
      exact fun hwf => reifies_of_succ (fun _ => reifies_vector hapi e attr vec hwf)
  | symbolVector attr syms =>
      exact fun hwf => reifies_of_succ (fun _ => reifies_symbolVector hapi attr syms hwf)
  | list attr parts ih =>
      rintro ⟨hcount, hwf⟩
      rw [everywhereAll_iff] at hwf
      exact reifies_of_succ
        (fun n => reifies_list hapi attr parts hcount (fun p hp => ih p hp (hwf p hp) n))
  | dict keys vals ihk ihv =>
      rintro ⟨_, hkeys, hvals⟩
      exact reifies_of_succ (fun n => reifies_dict hapi keys vals (ihk hkeys n) (ihv hvals n))
  | table attr cols vals ihc ihv =>
      rintro ⟨_, hcols, hvals⟩
      have hdict := reifies_of_succ
        (fun n => reifies_dict hapi cols vals (ihc hcols n) (ihv hvals n))
      exact reifies_of_succ (fun n => reifies_table hapi attr cols vals (hdict n))
  | other typ h body => exact fun _ => reifies_of_succ (fun _ => reifies_other typ h body)

end Reifies

end LogVal

theorem mgReifyMsg_value {api : KApi} (hapi : api.Documented) (p : LogVal)
    (hwf : p.WellFormed) (rest : List UInt8) :
    GivesWhen p.Accepted (p.bytes.length, p.kObj) (mgReifyMsg api (p.bytes ++ rest)) := by
  refine (LogVal.reifies hapi p hwf _ (p.bytes ++ rest) rest List.prefix_rfl
    (Nat.lt_succ_self _)).of_iff ⟨fun h => ⟨h, ?_⟩, fun h => h.left⟩
  rw [List.length_append]
  exact Nat.le_add_right _ _

end MgKdb
