import MgKdb.Journal.Payload
import MgKdb.Wire.Object

/-!
# Outlines

The filter for `upd` messages looks no deeper than the elements of a list.  An
outline shows that much of a payload: the elements of a list stay undivided, except
that a symbol atom shows its name.
-/

namespace MgKdb

open Foundation

instance decidableMemTables (tbl : List UInt8) (tbl_names : List (List UInt8)) :
    Decidable (tbl ∈ tbl_names) :=
  List.instDecidableMemOfLawfulBEq tbl tbl_names

/--
The names of the elements that are symbol atoms begin with `fn_name` and one of
the tables, and there is a third element.
-/
def isUpdCall (fn_name : List UInt8) (tbl_names : List (List UInt8)) :
    List (Option NulText) -> Bool
  | some fn :: some tbl :: _ :: _ =>
      decide (fn.text = fn_name ∧ tbl.text ∈ tbl_names)
  | _ => false

inductive Outline.Part where
  | symbolAtom (val : NulText)
  | other (typ : UInt8) (rest : List UInt8) (htyp : typ ≠ KdbType.symbolAtom.i8)

inductive Outline where
  | list (attr : UInt8) (parts : List Outline.Part)
  | other (typ : UInt8) (rest : List UInt8) (htyp : typ ≠ KdbType.list.i8)

namespace Outline

def Part.bytes : Part -> List UInt8
  | symbolAtom val => KdbType.symbolAtom.i8 :: val.bytes
  | other typ rest _ => typ :: rest

def Part.symbol : Part -> Option NulText
  | symbolAtom val => some val
  | other _ _ _ => none

def partsBytes (parts : List Part) : List UInt8 :=
  parts.flatMap Part.bytes

@[simp] theorem partsBytes_cons (part : Part) (parts : List Part) :
    partsBytes (part :: parts) = part.bytes ++ partsBytes parts := rfl

def bytes : Outline -> List UInt8
  | list attr parts => KVal.vecHdr .list attr parts.length ++ partsBytes parts
  | other typ rest _ => typ :: rest

def CountFits : Outline -> Prop
  | list _ parts => parts.length < 2 ^ 31
  | other _ _ _ => True

def isUpd (fn_name : List UInt8) (tbl_names : List (List UInt8)) : Outline -> Bool
  | list _ parts => isUpdCall fn_name tbl_names (parts.map Part.symbol)
  | other _ _ _ => false

theorem Part.bytes_pos (part : Part) : 0 < part.bytes.length := by
  cases part <;> simp [Part.bytes]

theorem bytes_pos (o : Outline) : 0 < o.bytes.length := by
  cases o <;> simp [bytes]

/-!
## Outlining elements

`symbol` tells which elements are symbol atoms, `bytes` how they are encoded.
-/

section Elements

variable {α : Type} (bytes : α -> List UInt8) (symbol : α -> Option NulText)

structure Outlines : Prop where
  atom : forall {a : α} {s : NulText}, symbol a = some s ->
    bytes a = KdbType.symbolAtom.i8 :: s.bytes
  other : forall {a : α}, symbol a = none -> exists typ rest,
    typ ≠ KdbType.symbolAtom.i8 ∧ bytes a = typ :: rest

variable {bytes symbol}

theorem Outlines.exists_part (h : Outlines bytes symbol) (a : α) :
    exists part : Part, part.bytes = bytes a ∧ part.symbol = symbol a := by
  cases hsym : symbol a with
  | some s => exact ⟨.symbolAtom s, (h.atom hsym).symm, rfl⟩
  | none =>
      rcases h.other hsym with ⟨typ, rest, htyp, hbytes⟩
      exact ⟨.other typ rest htyp, hbytes.symm, rfl⟩

theorem Outlines.exists_parts (h : Outlines bytes symbol) (as : List α) :
    exists parts : List Part, partsBytes parts = as.flatMap bytes ∧
      parts.map Part.symbol = as.map symbol := by
  induction as with
  | nil => exact ⟨[], rfl, rfl⟩
  | cons a as ih =>
      rcases h.exists_part a with ⟨part, hbytes, hsymbol⟩
      rcases ih with ⟨parts, hbytess, hsymbols⟩
      exact ⟨part :: parts, by rw [partsBytes_cons, hbytes, hbytess, List.flatMap_cons],
        by rw [List.map_cons, hsymbol, hsymbols, List.map_cons]⟩

theorem Outlines.exists_list (h : Outlines bytes symbol) (attr : UInt8) (as : List α) :
    exists o : Outline, o.bytes = KVal.vecHdr .list attr as.length ++ as.flatMap bytes ∧
      (as.length < 2 ^ 31 -> o.CountFits) ∧
      forall fn_name tbl_names,
        o.isUpd fn_name tbl_names = isUpdCall fn_name tbl_names (as.map symbol) := by
  rcases h.exists_parts as with ⟨parts, hbytes, hsymbols⟩
  have hlen : parts.length = as.length := by
    have h := congrArg List.length hsymbols
    rwa [List.length_map, List.length_map] at h
  refine ⟨.list attr parts, by rw [Outline.bytes, hlen, hbytes], ?_, ?_⟩
  · intro hcount
    rwa [CountFits, hlen]
  · intro fn_name tbl_names
    rw [isUpd, hsymbols]

end Elements

end Outline

/-!
## The outline of a value
-/

namespace KVal

def symbol : KVal -> Option NulText
  | symbolAtom val => some val
  | _ => none

/-- A call of `fn_name` for one of the tables, as a list of three elements or more. -/
def isUpd (fn_name : List UInt8) (tbl_names : List (List UInt8)) : KVal -> Bool
  | list _ vals => isUpdCall fn_name tbl_names (vals.map symbol)
  | _ => false

theorem encode_eq_cons (v : KVal) : v.encode = v.obj.typ.i8 :: v.encode.tail := by
  cases v <;> rw [encode] <;> rfl

theorem encodeAll_eq_flatMap (vs : List KVal) : encodeAll vs = vs.flatMap encode := by
  induction vs with
  | nil => rw [encodeAll_nil, List.flatMap_nil]
  | cons v vs ih => rw [encodeAll_cons, ih, List.flatMap_cons]

theorem outlines : Outline.Outlines encode symbol where
  atom := by
    intro v s h
    cases v with
    | symbolAtom val =>
        cases h
        rw [encode]
    | _ => cases h
  other := by
    intro v h
    refine ⟨v.obj.typ.i8, v.encode.tail, ?_, encode_eq_cons v⟩
    intro htyp
    have htyp' := KdbType.i8_injective htyp
    cases v with
    | symbolAtom val => cases h
    | atom e val => cases e <;> cases htyp'
    | vector e attr vec => cases e <;> cases htyp'
    | primitive arity val => cases arity <;> cases htyp'
    | _ => cases htyp'

theorem exists_outline (v : KVal) (hfit : v.CountsFit) :
    exists o : Outline, o.bytes = v.encode ∧ o.CountFits ∧
      forall fn_name tbl_names, o.isUpd fn_name tbl_names = v.isUpd fn_name tbl_names := by
  by_cases hlist : v.obj.typ = .list
  · cases v with
    | list attr vals =>
        rcases outlines.exists_list attr vals with ⟨o, hbytes, hcount, hupd⟩
        exact ⟨o, by rw [hbytes, encode, encodeAll_eq_flatMap], hcount hfit.left, hupd⟩
    | atom e val => cases e <;> cases hlist
    | vector e attr vec => cases e <;> cases hlist
    | primitive arity val => cases arity <;> cases hlist
    | _ => cases hlist
  · refine ⟨.other v.obj.typ.i8 v.encode.tail (fun h => hlist (KdbType.i8_injective h)),
      (encode_eq_cons v).symm, trivial, ?_⟩
    intro fn_name tbl_names
    cases v with
    | list attr vals => exact absurd rfl hlist
    | _ => rfl

end KVal

namespace Payload

def symbol : Payload -> Option NulText
  | symbolAtom val => some val
  | _ => none

/-- A call of `fn_name` for one of the tables, as a list of three elements or more. -/
def isUpd (fn_name : List UInt8) (tbl_names : List (List UInt8)) : Payload -> Bool
  | list _ parts => isUpdCall fn_name tbl_names (parts.map symbol)
  | _ => false

def typ : Payload -> KdbType
  | atom e _ => e.atomTyp
  | symbolAtom _ => .symbolAtom
  | vector e _ _ => e.vectorTyp
  | symbolVector _ _ => .symbolVector
  | list _ _ => .list
  | dict step _ _ => dictTyp step
  | table _ _ _ _ => .table

theorem bytes_eq_cons (p : Payload) : p.bytes = p.typ.i8 :: p.bytes.tail := by
  cases p <;> rw [bytes] <;> rfl

theorem outlines : Outline.Outlines bytes symbol where
  atom := by
    intro p s h
    cases p with
    | symbolAtom val =>
        cases h
        rw [bytes]
    | _ => cases h
  other := by
    intro p h
    refine ⟨p.typ.i8, p.bytes.tail, ?_, bytes_eq_cons p⟩
    intro htyp
    have htyp' := KdbType.i8_injective htyp
    cases p with
    | symbolAtom val => cases h
    | atom e val => cases e <;> cases htyp'
    | vector e attr vec => cases e <;> cases htyp'
    | dict step keys vals => cases step <;> cases htyp'
    | _ => cases htyp'

theorem exists_outline (p : Payload) (hfit : p.WellFormed) :
    exists o : Outline, o.bytes = p.bytes ∧ o.CountFits ∧
      forall fn_name tbl_names, o.isUpd fn_name tbl_names = p.isUpd fn_name tbl_names := by
  by_cases hlist : p.typ = .list
  · cases p with
    | list attr parts =>
        rcases outlines.exists_list attr parts with ⟨o, hbytes, hcount, hupd⟩
        refine ⟨o, ?_, hcount hfit.left, hupd⟩
        rw [hbytes, bytes, bytesAll_eq_flatten, List.flatMap_def]
    | atom e val => cases e <;> cases hlist
    | vector e attr vec => cases e <;> cases hlist
    | dict step keys vals => cases step <;> cases hlist
    | _ => cases hlist
  · refine ⟨.other p.typ.i8 p.bytes.tail (fun h => hlist (KdbType.i8_injective h)),
      (bytes_eq_cons p).symm, trivial, ?_⟩
    intro fn_name tbl_names
    cases p with
    | list attr parts => exact absurd rfl hlist
    | _ => rfl

end Payload

end MgKdb
