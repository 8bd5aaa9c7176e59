import MgKdb.Wire.Value

/-!
# Spellings

The readers accept more than the encodings of values: the attribute of a table, the
type behind it, the context of a function and the attribute of its text may be any byte,
and a dict may be a step dict.  A spelling is a value together with these bytes.
-/

namespace MgKdb

open Foundation

inductive Spelling where
  | exception (msg : NulText)
  | atom (e : Elem) (val : BitVec (8 * e.width))
  | symbolAtom (val : NulText)
  | list (attr : UInt8) (parts : List Spelling)
  | vector (e : Elem) (attr : UInt8) (vec : List (BitVec (8 * e.width)))
  | symbolVector (attr : UInt8) (syms : List NulText)
  | table (attr typ colsAttr : UInt8) (cols : List NulText) (valsAttr : UInt8)
      (parts : List Spelling)
  | dict (step : Bool) (keys vals : Spelling)
  | function (ctx attr : UInt8) (text : List UInt8)
  | primitive (arity : Arity) (val : UInt8)
  | projection (parts : List Spelling)

namespace Spelling

/-- Induction on a spelling, with one hypothesis for each part of a container. -/
@[elab_as_elim, induction_eliminator]
theorem induct {motive : Spelling -> Prop}
    (exception : forall msg, motive (.exception msg))
    (atom : forall e val, motive (.atom e val))
    (symbolAtom : forall val, motive (.symbolAtom val))
    (list : forall attr parts, (forall s, s ∈ parts -> motive s) ->
      motive (.list attr parts))
    (vector : forall e attr vec, motive (.vector e attr vec))
    (symbolVector : forall attr syms, motive (.symbolVector attr syms))
    (table : forall attr typ colsAttr cols valsAttr parts,
      (forall s, s ∈ parts -> motive s) ->
      motive (.table attr typ colsAttr cols valsAttr parts))
    (dict : forall step keys vals, motive keys -> motive vals ->
      motive (.dict step keys vals))
    (function : forall ctx attr text, motive (.function ctx attr text))
    (primitive : forall arity val, motive (.primitive arity val))
    (projection : forall parts, (forall s, s ∈ parts -> motive s) ->
      motive (.projection parts)) :
    forall s, motive s := by
  intro s
  refine Spelling.rec (motive_1 := motive)
    (motive_2 := fun ss => forall s, s ∈ ss -> motive s)
    exception atom symbolAtom list vector symbolVector table dict function
    primitive projection ?_ ?_ s
  · intro s hs
    cases hs
  · intro s ss hs hss t ht
    rcases List.mem_cons.mp ht with hhead | htail
    · rw [hhead]
      exact hs
    · exact hss t htail

mutual

def bytes : Spelling -> List UInt8
  | exception msg => KdbType.exception.i8 :: msg.bytes
  | atom e val => e.atomTyp.i8 :: wordBytes e.width val
  | symbolAtom val => KdbType.symbolAtom.i8 :: val.bytes
  | list attr parts => KVal.vecHdr .list attr parts.length ++ bytesAll parts
  | vector e attr vec =>
      KVal.vecHdr e.vectorTyp attr vec.length ++ wordsBytes e.width vec
  | symbolVector attr syms =>
      KVal.vecHdr .symbolVector attr syms.length ++ KVal.symsBytes syms
  | table attr typ colsAttr cols valsAttr parts =>
      [KdbType.table.i8, attr, typ] ++
        ((KVal.vecHdr .symbolVector colsAttr cols.length ++ KVal.symsBytes cols) ++
          (KVal.vecHdr .list valsAttr parts.length ++ bytesAll parts))
  | dict step keys vals =>
      (if step then KdbType.stepDict.i8 else KdbType.dict.i8) :: (bytes keys ++ bytes vals)
  | function ctx attr text =>
      KdbType.function.i8 :: ctx :: KVal.vecHdr .charVector attr text.length ++ text
  | primitive arity val => [arity.typ.i8, val]
  | projection parts => KVal.projectionHdr parts.length ++ bytesAll parts

def bytesAll : List Spelling -> List UInt8
  | [] => []
  | s :: ss => bytes s ++ bytesAll ss

end

mutual

def value : Spelling -> KVal
  | exception msg => .exception msg
  | atom e val => .atom e val
  | symbolAtom val => .symbolAtom val
  | list attr parts => .list attr (valueAll parts)
  | vector e attr vec => .vector e attr vec
  | symbolVector attr syms => .symbolVector attr syms
  | table _ _ colsAttr cols valsAttr parts =>
      .table colsAttr cols valsAttr (valueAll parts)
  | dict _ keys vals => .dict (value keys) (value vals)
  | function _ _ text => .function text
  | primitive arity val => .primitive arity val
  | projection parts => .projection (valueAll parts)

def valueAll : List Spelling -> List KVal
  | [] => []
  | s :: ss => value s :: valueAll ss

end

mutual

/--
Spelled as the writer does: a table with attribute zero and a plain dict, no step dict, a
function with an empty context and attribute zero.
-/
def Plain : Spelling -> Prop
  | exception _ | atom _ _ | symbolAtom _ | vector _ _ _ | symbolVector _ _
  | primitive _ _ => True
  | list _ parts | projection parts => PlainAll parts
  | table attr typ _ _ _ parts => attr = 0 ∧ typ = KdbType.dict.i8 ∧ PlainAll parts
  | dict step keys vals => step = false ∧ Plain keys ∧ Plain vals
  | function ctx attr _ => ctx = 0 ∧ attr = 0

def PlainAll : List Spelling -> Prop
  | [] => True
  | s :: ss => Plain s ∧ PlainAll ss

end

theorem valueAll_length (ss : List Spelling) : (valueAll ss).length = ss.length := by
  induction ss with
  | nil => rw [valueAll]; rfl
  | cons s ss ih => rw [valueAll, List.length_cons, ih, List.length_cons]

/-- The value has as many bytes, and the same ones only when spelled plainly. -/
def Respelled (s : Spelling) : Prop :=
  s.value.encode.length = s.bytes.length ∧ (s.value.encode = s.bytes <-> s.Plain)

theorem append_inj_iff {xs xs' ys ys' : List UInt8} (h : xs.length = xs'.length) :
    xs ++ ys = xs' ++ ys' <-> xs = xs' ∧ ys = ys' := by
  constructor
  · exact fun heq => List.append_inj heq h
  · rintro ⟨rfl, rfl⟩
    rfl

theorem respelledAll {ss : List Spelling} (h : forall s, s ∈ ss -> s.Respelled) :
    (KVal.encodeAll (valueAll ss)).length = (bytesAll ss).length ∧
      (KVal.encodeAll (valueAll ss) = bytesAll ss <-> PlainAll ss) := by
  induction ss with
  | nil => simp [valueAll, bytesAll, PlainAll]
  | cons s ss ih =>
      rcases h s List.mem_cons_self with ⟨hlen, hplain⟩
      rcases ih (fun t ht => h t (List.mem_cons_of_mem s ht)) with ⟨hlens, hplains⟩
      rw [valueAll, KVal.encodeAll_cons, bytesAll, PlainAll]
      refine ⟨by rw [List.length_append, List.length_append, hlen, hlens], ?_⟩
      rw [← hplain, ← hplains]
      exact append_inj_iff hlen

theorem respelled (s : Spelling) : s.Respelled := by
  induction s with
  | exception msg => simp [Respelled, value, bytes, Plain, KVal.encode]
  | atom e val => simp [Respelled, value, bytes, Plain, KVal.encode]
  | symbolAtom val => simp [Respelled, value, bytes, Plain, KVal.encode]
  | vector e attr vec => simp [Respelled, value, bytes, Plain, KVal.encode]
  | symbolVector attr syms => simp [Respelled, value, bytes, Plain, KVal.encode]
  | primitive arity val => simp [Respelled, value, bytes, Plain, KVal.encode]
  | list attr parts ih =>
      rcases respelledAll ih with ⟨hlen, hplain⟩
      rw [Respelled, value, bytes, Plain, KVal.encode, valueAll_length, ← hplain]
      simp [hlen]
  | projection parts ih =>
      rcases respelledAll ih with ⟨hlen, hplain⟩
      rw [Respelled, value, bytes, Plain, KVal.encode, valueAll_length, ← hplain]
      simp [hlen]
  | dict step keys vals ihk ihv =>
      rcases ihk with ⟨hklen, hkplain⟩
      rcases ihv with ⟨hvlen, hvplain⟩
      rw [Respelled, value, bytes, Plain, KVal.encode, ← hkplain, ← hvplain,
        List.cons.injEq, append_inj_iff hklen]
      refine ⟨by simp [hklen, hvlen], ?_⟩
      cases step
      · simp
      · simp only [if_true, Bool.true_eq_false, false_and, iff_false]
        exact fun h => absurd h.left (by decide)
  | table attr typ colsAttr cols valsAttr parts ih =>
      rcases respelledAll ih with ⟨hlen, hplain⟩
      rw [Respelled, value, bytes, Plain, KVal.encode, valueAll_length, ← hplain]
      refine ⟨by simp [hlen]; omega, ?_⟩
      have hhdr : KVal.tableHdr.length = [KdbType.table.i8, attr, typ].length := rfl
      rw [append_inj_iff hhdr, List.append_cancel_left_eq, List.append_cancel_left_eq,
        KVal.tableHdr]
      simp [eq_comm, and_assoc]
  | function ctx attr text =>
      rw [Respelled, value, bytes, Plain, KVal.encode]
      refine ⟨by simp; omega, ?_⟩
      rw [append_inj_iff (by simp), KVal.functionHdr, KVal.vecHdr, KVal.vecHdr]
      simp [eq_comm]

mutual

def plain : KVal -> Spelling
  | .exception msg => .exception msg
  | .atom e val => .atom e val
  | .symbolAtom val => .symbolAtom val
  | .list attr vals => .list attr (plainAll vals)
  | .vector e attr vec => .vector e attr vec
  | .symbolVector attr syms => .symbolVector attr syms
  | .table colsAttr cols valsAttr vals =>
      .table 0 KdbType.dict.i8 colsAttr cols valsAttr (plainAll vals)
  | .dict keys vals => .dict false (plain keys) (plain vals)
  | .function text => .function 0 0 text
  | .primitive arity val => .primitive arity val
  | .projection parts => .projection (plainAll parts)

def plainAll : List KVal -> List Spelling
  | [] => []
  | v :: vs => plain v :: plainAll vs

end

/-- Spelled plainly, a value is itself and its bytes are its encoding. -/
def Renders (v : KVal) : Prop :=
  (plain v).value = v ∧ (plain v).bytes = v.encode

theorem plainAll_renders {vs : List KVal} (h : forall v, v ∈ vs -> Renders v) :
    valueAll (plainAll vs) = vs ∧ bytesAll (plainAll vs) = KVal.encodeAll vs ∧
      (plainAll vs).length = vs.length := by
  induction vs with
  | nil =>
      rw [plainAll, valueAll, bytesAll, KVal.encodeAll_nil]
      exact ⟨rfl, rfl, rfl⟩
  | cons v vs ih =>
      rcases h v List.mem_cons_self with ⟨hvalue, hbytes⟩
      rcases ih (fun u hu => h u (List.mem_cons_of_mem v hu)) with ⟨hvalues, hall, hlen⟩
      rw [plainAll, valueAll, bytesAll, KVal.encodeAll_cons, hvalue, hbytes, hvalues, hall,
        List.length_cons, List.length_cons, hlen]
      exact ⟨rfl, rfl, rfl⟩

theorem plain_renders (v : KVal) : Renders v := by
  induction v with
  | exception msg => exact ⟨rfl, rfl⟩
  | atom e val => exact ⟨rfl, rfl⟩
  | symbolAtom val => exact ⟨rfl, rfl⟩
  | vector e attr vec => exact ⟨rfl, rfl⟩
  | symbolVector attr syms => exact ⟨rfl, rfl⟩
  | primitive arity val => exact ⟨rfl, rfl⟩
  | function text => exact ⟨rfl, rfl⟩
  | list attr vals ih =>
      rcases plainAll_renders ih with ⟨hvalues, hall, hlen⟩
      rw [Renders, plain, value, bytes, KVal.encode, hvalues, hall, hlen]
      exact ⟨rfl, rfl⟩
  | projection parts ih =>
      rcases plainAll_renders ih with ⟨hvalues, hall, hlen⟩
      rw [Renders, plain, value, bytes, KVal.encode, hvalues, hall, hlen]
      exact ⟨rfl, rfl⟩
  | table colsAttr cols valsAttr vals ih =>
      rcases plainAll_renders ih with ⟨hvalues, hall, hlen⟩
      rw [Renders, plain, value, bytes, KVal.encode, hvalues, hall, hlen]
      exact ⟨rfl, rfl⟩
  | dict keys vals ihk ihv =>
      rw [Renders, plain, value, bytes, KVal.encode, ihk.left, ihk.right, ihv.left,
        ihv.right]
      exact ⟨rfl, rfl⟩

/-!
## Messages
-/

def message (typ : KdbMsgType) (s : Spelling) : List UInt8 :=
  KVal.msgHdr typ s.bytes.length ++ s.bytes

theorem message_length (typ : KdbMsgType) (s : Spelling) :
    (s.message typ).length = 8 + s.bytes.length := by
  rw [message, List.length_append, KVal.msgHdr_length]

theorem message_plain (typ : KdbMsgType) (v : KVal) :
    (plain v).message typ = KVal.message typ v := by
  rw [message, (plain_renders v).right, KVal.message]

theorem bytes_pos (s : Spelling) : 0 < s.bytes.length := by
  rw [← s.respelled.left]
  exact s.value.encode_pos

theorem countsFit_of_length_lt (s : Spelling) (h : s.bytes.length < 2 ^ 31) :
    s.value.CountsFit :=
  s.value.countsFit_of_length_lt (by rwa [s.respelled.left])

/-!
## The spelling of a byte string
-/

def typ : Spelling -> KdbType
  | exception _ => .exception
  | atom e _ => e.atomTyp
  | symbolAtom _ => .symbolAtom
  | list _ _ => .list
  | vector e _ _ => e.vectorTyp
  | symbolVector _ _ => .symbolVector
  | table _ _ _ _ _ _ => .table
  | dict step _ _ => if step then .stepDict else .dict
  | function _ _ _ => .function
  | primitive arity _ => arity.typ
  | projection _ => .projection

theorem bytes_cons (s : Spelling) : exists tail, s.bytes = s.typ.i8 :: tail := by
  cases s with
  | dict step keys vals =>
      rw [bytes, typ]
      cases step <;> exact ⟨_, rfl⟩
  | _ =>
      rw [bytes, typ]
      exact ⟨_, rfl⟩

def kind : Spelling -> Nat
  | exception _ => 0
  | atom _ _ => 1
  | symbolAtom _ => 2
  | list _ _ => 3
  | vector _ _ _ => 4
  | symbolVector _ _ => 5
  | table _ _ _ _ _ _ => 6
  | dict _ _ _ => 7
  | function _ _ _ => 8
  | primitive _ _ => 9
  | projection _ => 10

def kindOf : KdbType -> Nat
  | .exception => 0
  | .symbolAtom => 2
  | .list => 3
  | .symbolVector => 5
  | .table => 6
  | .dict | .stepDict => 7
  | .function => 8
  | .unaryPrimitive | .binaryPrimitive | .ternaryPrimitive => 9
  | .projection => 10
  | .boolAtom | .guidAtom | .byteAtom | .shortAtom | .intAtom | .longAtom | .realAtom
  | .floatAtom | .charAtom | .timestampAtom | .monthAtom | .dateAtom | .timespanAtom
  | .minuteAtom | .secondAtom | .timeAtom => 1
  | _ => 4

theorem kindOf_typ (s : Spelling) : kindOf s.typ = s.kind := by
  cases s with
  | atom e val => cases e <;> rfl
  | vector e attr vec => cases e <;> rfl
  | dict step keys vals => cases step <;> rfl
  | primitive arity val => cases arity <;> rfl
  | _ => rfl

theorem typ_eq_of_append {s s' : Spelling} {xs ys : List UInt8}
    (h : s.bytes ++ xs = s'.bytes ++ ys) : s.typ = s'.typ := by
  rcases s.bytes_cons with ⟨tail, htail⟩
  rcases s'.bytes_cons with ⟨tail', htail'⟩
  rw [htail, htail', List.cons_append, List.cons_append] at h
  exact KdbType.i8_injective (List.cons.inj h).left

theorem count_append_inj {n n' : Nat} {xs ys : List UInt8} (hn : n < 2 ^ 31)
    (hn' : n' < 2 ^ 31) (h : leBytes 4 n ++ xs = leBytes 4 n' ++ ys) :
    n = n' ∧ xs = ys := by
  rcases List.append_inj h (by rw [leBytes_length, leBytes_length]) with ⟨hcount, hrest⟩
  exact ⟨leBytes_inj (by omega) (by omega) hcount, hrest⟩

theorem vecHdr_append_inj {t t' : KdbType} {attr attr' : UInt8} {n n' : Nat}
    {xs ys : List UInt8} (hn : n < 2 ^ 31) (hn' : n' < 2 ^ 31)
    (h : KVal.vecHdr t attr n ++ xs = KVal.vecHdr t' attr' n' ++ ys) :
    attr = attr' ∧ n = n' ∧ xs = ys := by
  rw [KVal.vecHdr, KVal.vecHdr, List.cons_append, List.cons_append, List.cons_append,
    List.cons_append] at h
  rcases List.cons.inj (List.cons.inj h).right with ⟨hattr, hcount⟩
  exact ⟨hattr, count_append_inj hn hn' hcount⟩

theorem symsBytes_append_inj {syms : List NulText} :
    forall {syms' : List NulText} {xs ys : List UInt8}, syms.length = syms'.length ->
      KVal.symsBytes syms ++ xs = KVal.symsBytes syms' ++ ys ->
      syms = syms' ∧ xs = ys := by
  induction syms with
  | nil =>
      intro syms' xs ys hlen h
      rw [List.eq_nil_of_length_eq_zero hlen.symm] at h ⊢
      exact ⟨rfl, h⟩
  | cons t syms ih =>
      intro syms' xs ys hlen h
      cases syms' with
      | nil => cases hlen
      | cons t' syms' =>
          rw [KVal.symsBytes_cons, KVal.symsBytes_cons, List.append_assoc,
            List.append_assoc] at h
          rcases NulText.bytes_append_inj h with ⟨rfl, htail⟩
          rcases ih (Nat.succ.inj hlen) htail with ⟨rfl, hrest⟩
          exact ⟨rfl, hrest⟩

def Unambiguous (s : Spelling) : Prop :=
  forall {s' : Spelling} {xs ys : List UInt8}, s.value.CountsFit ->
    s'.value.CountsFit -> s.bytes ++ xs = s'.bytes ++ ys -> s = s' ∧ xs = ys

theorem unambiguousAll {ss : List Spelling} (hall : forall s, s ∈ ss -> s.Unambiguous) :
    forall {ss' : List Spelling} {xs ys : List UInt8}, KVal.CountsFitAll (valueAll ss) ->
      KVal.CountsFitAll (valueAll ss') -> ss.length = ss'.length ->
      bytesAll ss ++ xs = bytesAll ss' ++ ys -> ss = ss' ∧ xs = ys := by
  induction ss with
  | nil =>
      intro ss' xs ys _ _ hlen h
      rw [List.eq_nil_of_length_eq_zero hlen.symm] at h ⊢
      rw [bytesAll] at h
      exact ⟨rfl, h⟩
  | cons s ss ih =>
      intro ss' xs ys hfit hfit' hlen h
      cases ss' with
      | nil => cases hlen
      | cons s' ss' =>
          rw [valueAll, KVal.CountsFitAll] at hfit hfit'
          rw [bytesAll, bytesAll, List.append_assoc, List.append_assoc] at h
          rcases hall s List.mem_cons_self hfit.left hfit'.left h with ⟨rfl, htail⟩
          rcases ih (fun t ht => hall t (List.mem_cons_of_mem s ht)) hfit.right
            hfit'.right (Nat.succ.inj hlen) htail with ⟨rfl, hrest⟩
          exact ⟨rfl, hrest⟩

theorem kind_eq_of_append {s s' : Spelling} {xs ys : List UInt8}
    (h : s.bytes ++ xs = s'.bytes ++ ys) : s.kind = s'.kind := by
  rw [← kindOf_typ, ← kindOf_typ, typ_eq_of_append h]

theorem unambiguous_exception (msg : NulText) : (exception msg).Unambiguous := by
  intro s' xs ys _ _ h
  have hkind := kind_eq_of_append h
  cases s' with
  | exception msg' =>
      rw [bytes, bytes] at h
      rcases NulText.bytes_append_inj (List.cons.inj h).right with ⟨rfl, hrest⟩
      exact ⟨rfl, hrest⟩
  | _ => cases hkind

theorem unambiguous_atom (e : Elem) (val : BitVec (8 * e.width)) :
    (atom e val).Unambiguous := by
  intro s' xs ys _ _ h
  have hkind := kind_eq_of_append h
  cases s' with
  | atom e' val' =>
      cases Elem.atomTyp_injective (typ_eq_of_append h)
      rw [bytes, bytes] at h
      rcases List.append_inj (List.cons.inj h).right
        (by rw [wordBytes_length, wordBytes_length]) with ⟨hval, hrest⟩
      exact ⟨by rw [wordBytes_inj hval], hrest⟩
  | _ => cases hkind

theorem unambiguous_symbolAtom (val : NulText) : (symbolAtom val).Unambiguous := by
  intro s' xs ys _ _ h
  have hkind := kind_eq_of_append h
  cases s' with
  | symbolAtom val' =>
      rw [bytes, bytes] at h
      rcases NulText.bytes_append_inj (List.cons.inj h).right with ⟨rfl, hrest⟩
      exact ⟨rfl, hrest⟩
  | _ => cases hkind

theorem unambiguous_list (attr : UInt8) {parts : List Spelling}
    (ih : forall s, s ∈ parts -> s.Unambiguous) : (list attr parts).Unambiguous := by
  intro s' xs ys hfit hfit' h
  have hkind := kind_eq_of_append h
  cases s' with
  | list attr' parts' =>
      rw [value, KVal.CountsFit, valueAll_length] at hfit hfit'
      rw [bytes, bytes, List.append_assoc, List.append_assoc] at h
      rcases vecHdr_append_inj hfit.left hfit'.left h with ⟨rfl, hcount, hparts⟩
      rcases unambiguousAll ih hfit.right hfit'.right hcount hparts with ⟨rfl, hrest⟩
      exact ⟨rfl, hrest⟩
  | _ => cases hkind

theorem unambiguous_vector (e : Elem) (attr : UInt8) (vec : List (BitVec (8 * e.width))) :
    (vector e attr vec).Unambiguous := by
  intro s' xs ys hfit hfit' h
  have hkind := kind_eq_of_append h
  cases s' with
  | vector e' attr' vec' =>
      cases Elem.vectorTyp_injective (typ_eq_of_append h)
      rw [value, KVal.CountsFit] at hfit hfit'
      rw [bytes, bytes, List.append_assoc, List.append_assoc] at h
      rcases vecHdr_append_inj hfit hfit' h with ⟨rfl, hcount, hvec⟩
      rcases wordsBytes_append_inj hcount hvec with ⟨rfl, hrest⟩
      exact ⟨rfl, hrest⟩
  | _ => cases hkind

theorem unambiguous_symbolVector (attr : UInt8) (syms : List NulText) :
    (symbolVector attr syms).Unambiguous := by
  intro s' xs ys hfit hfit' h
  have hkind := kind_eq_of_append h
  cases s' with
  | symbolVector attr' syms' =>
      rw [value, KVal.CountsFit] at hfit hfit'
      rw [bytes, bytes, List.append_assoc, List.append_assoc] at h
      rcases vecHdr_append_inj hfit hfit' h with ⟨rfl, hcount, hsyms⟩
      rcases symsBytes_append_inj hcount hsyms with ⟨rfl, hrest⟩
      exact ⟨rfl, hrest⟩
  | _ => cases hkind

theorem unambiguous_table (attr typ colsAttr : UInt8) (cols : List NulText) (valsAttr : UInt8)
    {parts : List Spelling} (ih : forall s, s ∈ parts -> s.Unambiguous) :
    (table attr typ colsAttr cols valsAttr parts).Unambiguous := by
  intro s' xs ys hfit hfit' h
  have hkind := kind_eq_of_append h
  cases s' with
  | table attr' typ' colsAttr' cols' valsAttr' parts' =>
      rw [value, KVal.CountsFit, valueAll_length] at hfit hfit'
      rcases hfit with ⟨hcols, hvals, hparts⟩
      rcases hfit' with ⟨hcols', hvals', hparts'⟩
      simp only [bytes, List.append_assoc, List.cons_append, List.nil_append,
        List.cons.injEq, true_and] at h
      rcases h with ⟨rfl, rfl, h⟩
      rcases vecHdr_append_inj hcols hcols' h with ⟨rfl, hcount, hsyms⟩
      rcases symsBytes_append_inj hcount hsyms with ⟨rfl, hlist⟩
      rcases vecHdr_append_inj hvals hvals' hlist with ⟨rfl, hcounts, hall⟩
      rcases unambiguousAll ih hparts hparts' hcounts hall with ⟨rfl, hrest⟩
      exact ⟨rfl, hrest⟩
  | _ => cases hkind

theorem unambiguous_dict (step : Bool) {keys vals : Spelling} (ihk : keys.Unambiguous)
    (ihv : vals.Unambiguous) : (dict step keys vals).Unambiguous := by
  intro s' xs ys hfit hfit' h
  have hkind := kind_eq_of_append h
  cases s' with
  | dict step' keys' vals' =>
      have hstep : step = step' := by
        have htyp := typ_eq_of_append h
        cases step <;> cases step' <;> first | rfl | cases htyp
      rw [value, KVal.CountsFit] at hfit hfit'
      rw [bytes, bytes, List.cons_append, List.cons_append, List.append_assoc,
        List.append_assoc] at h
      rcases ihk hfit.left hfit'.left (List.cons.inj h).right with ⟨rfl, hvals⟩
      rcases ihv hfit.right hfit'.right hvals with ⟨rfl, hrest⟩
      exact ⟨by rw [hstep], hrest⟩
  | _ => cases hkind

theorem unambiguous_function (ctx attr : UInt8) (text : List UInt8) :
    (function ctx attr text).Unambiguous := by
  intro s' xs ys hfit hfit' h
  have hkind := kind_eq_of_append h
  cases s' with
  | function ctx' attr' text' =>
      rw [value, KVal.CountsFit] at hfit hfit'
      simp only [bytes, List.append_assoc, List.cons_append, List.cons.injEq,
        true_and] at h
      rcases h with ⟨rfl, h⟩
      rcases vecHdr_append_inj hfit hfit' h with ⟨rfl, hcount, htext⟩
      rcases List.append_inj htext hcount with ⟨rfl, hrest⟩
      exact ⟨rfl, hrest⟩
  | _ => cases hkind

theorem unambiguous_primitive (arity : Arity) (val : UInt8) :
    (primitive arity val).Unambiguous := by
  intro s' xs ys _ _ h
  have hkind := kind_eq_of_append h
  cases s' with
  | primitive arity' val' =>
      cases Arity.typ_injective (typ_eq_of_append h)
      rw [bytes, bytes] at h
      rcases List.cons.inj (List.cons.inj h).right with ⟨rfl, hrest⟩
      exact ⟨rfl, hrest⟩
  | _ => cases hkind

theorem unambiguous_projection {parts : List Spelling}
    (ih : forall s, s ∈ parts -> s.Unambiguous) : (projection parts).Unambiguous := by
  intro s' xs ys hfit hfit' h
  have hkind := kind_eq_of_append h
  cases s' with
  | projection parts' =>
      rw [value, KVal.CountsFit, valueAll_length] at hfit hfit'
      rw [bytes, bytes, KVal.projectionHdr, KVal.projectionHdr, List.append_assoc,
        List.append_assoc, List.cons_append, List.cons_append] at h
      rcases count_append_inj hfit.left hfit'.left (List.cons.inj h).right with
        ⟨hcount, hparts⟩
      rcases unambiguousAll ih hfit.right hfit'.right hcount hparts with ⟨rfl, hrest⟩
      exact ⟨rfl, hrest⟩
  | _ => cases hkind

theorem unambiguous (s : Spelling) : s.Unambiguous := by
  induction s with
  | exception msg => exact unambiguous_exception msg
  | atom e val => exact unambiguous_atom e val
  | symbolAtom val => exact unambiguous_symbolAtom val
  | list attr parts ih => exact unambiguous_list attr ih
  | vector e attr vec => exact unambiguous_vector e attr vec
  | symbolVector attr syms => exact unambiguous_symbolVector attr syms
  | table attr typ colsAttr cols valsAttr parts ih =>
      exact unambiguous_table attr typ colsAttr cols valsAttr ih
  | dict step keys vals ihk ihv => exact unambiguous_dict step ihk ihv
  | function ctx attr text => exact unambiguous_function ctx attr text
  | primitive arity val => exact unambiguous_primitive arity val
  | projection parts ih => exact unambiguous_projection ih

end Spelling

end MgKdb
