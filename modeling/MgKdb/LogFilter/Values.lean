import MgKdb.Foundation.Sequence
import MgKdb.Journal.Payload

/-!
# What a log holds

The values that a log may hold, with their encodings.  They are those of the other scanners,
with datetimes besides, and with all values of which these scanners know nothing but the
type.
-/

namespace MgKdb

open Foundation

inductive LogElem where
  | elem (e : Elem)
  | datetime
  deriving DecidableEq, Repr

namespace LogElem

def width : LogElem -> Nat
  | elem e => e.width
  | datetime => 8

def atomTyp : LogElem -> KdbType
  | elem e => e.atomTyp
  | datetime => .datetimeAtom

def vectorTyp : LogElem -> KdbType
  | elem e => e.vectorTyp
  | datetime => .datetimeVector

end LogElem

/-- A type that no other constructor of `LogVal` has. -/
def foreignTyp (typ : UInt8) : Bool :=
  match KdbType.ofI8 typ with
  | none | some .exception | some .function | some .unaryPrimitive | some .binaryPrimitive
  | some .ternaryPrimitive | some .projection | some .stepDict => true
  | _ => false

inductive LogVal where
  | atom (e : LogElem) (val : BitVec (8 * e.width))
  | symbolAtom (val : NulText)
  | vector (e : LogElem) (attr : UInt8) (vec : List (BitVec (8 * e.width)))
  | symbolVector (attr : UInt8) (syms : List NulText)
  | list (attr : UInt8) (parts : List LogVal)
  | dict (keys vals : LogVal)
  | table (attr : UInt8) (cols vals : LogVal)
  | other (typ : UInt8) (h : foreignTyp typ = true) (body : List UInt8)

namespace LogVal

/-- Induction on a value, with one hypothesis for each element of a list. -/
@[elab_as_elim, induction_eliminator]
theorem induct {motive : LogVal -> Prop}
    (atom : forall e val, motive (.atom e val))
    (symbolAtom : forall val, motive (.symbolAtom val))
    (vector : forall e attr vec, motive (.vector e attr vec))
    (symbolVector : forall attr syms, motive (.symbolVector attr syms))
    (list : forall attr parts, (forall p, p ∈ parts -> motive p) ->
      motive (.list attr parts))
    (dict : forall keys vals, motive keys -> motive vals -> motive (.dict keys vals))
    (table : forall attr cols vals, motive cols -> motive vals ->
      motive (.table attr cols vals))
    (other : forall typ h body, motive (.other typ h body)) :
    forall p, motive p := by
  intro p
  refine LogVal.rec (motive_1 := motive)
    (motive_2 := fun ps => forall p, p ∈ ps -> motive p)
    atom symbolAtom vector symbolVector list dict table other ?_ ?_ p
  · intro p hp
    cases hp
  · intro p ps hp hps q hq
    rcases List.mem_cons.mp hq with hhead | htail
    · rw [hhead]
      exact hp
    · exact hps q htail

mutual

def bytes : LogVal -> List UInt8
  | atom e val => e.atomTyp.i8 :: wordBytes e.width val
  | symbolAtom val => KdbType.symbolAtom.i8 :: val.bytes
  | vector e attr vec =>
      KVal.vecHdr e.vectorTyp attr vec.length ++ wordsBytes e.width vec
  | symbolVector attr syms =>
      KVal.vecHdr .symbolVector attr syms.length ++ KVal.symsBytes syms
  | list attr parts => KVal.vecHdr .list attr parts.length ++ bytesAll parts
  | dict keys vals => KdbType.dict.i8 :: (bytes keys ++ bytes vals)
  | table attr cols vals =>
      KdbType.table.i8 :: attr :: KdbType.dict.i8 :: (bytes cols ++ bytes vals)
  | other typ _ body => typ :: body

def bytesAll : List LogVal -> List UInt8
  | [] => []
  | p :: ps => bytes p ++ bytesAll ps

end

theorem bytesAll_eq_flatten (ps : List LogVal) : bytesAll ps = (ps.map bytes).flatten := by
  induction ps with
  | nil => rw [bytesAll, List.map_nil, List.flatten_nil]
  | cons p ps ih => rw [bytesAll, ih, List.map_cons, List.flatten_cons]

theorem bytes_pos (p : LogVal) : 0 < p.bytes.length := by
  cases p <;> simp [bytes]

/-!
## Lengths of encodings
-/

theorem bytes_atom_length (e : LogElem) (val : BitVec (8 * e.width)) :
    (atom e val).bytes.length = 1 + e.width := by
  show (wordBytes e.width val).length + 1 = 1 + e.width
  rw [wordBytes_length, Nat.add_comm]

theorem bytes_symbolAtom_length (val : NulText) :
    (symbolAtom val).bytes.length = 1 + val.bytes.length :=
  Nat.add_comm val.bytes.length 1

theorem bytes_vector_length (e : LogElem) (attr : UInt8) (vec : List (BitVec (8 * e.width))) :
    (vector e attr vec).bytes.length = 6 + vec.length * e.width := by
  show (KVal.vecHdr e.vectorTyp attr vec.length ++ wordsBytes e.width vec).length = _
  rw [List.length_append, KVal.vecHdr_length, wordsBytes_length, Nat.mul_comm]

theorem bytes_symbolVector_length (attr : UInt8) (syms : List NulText) :
    (symbolVector attr syms).bytes.length = 6 + (KVal.symsBytes syms).length := by
  show (KVal.vecHdr .symbolVector attr syms.length ++ KVal.symsBytes syms).length = _
  rw [List.length_append, KVal.vecHdr_length]

theorem bytes_list_length (attr : UInt8) (parts : List LogVal) :
    (list attr parts).bytes.length = 6 + (bytesAll parts).length := by
  show (KVal.vecHdr .list attr parts.length ++ bytesAll parts).length = _
  rw [List.length_append, KVal.vecHdr_length]

theorem bytes_dict_length (keys vals : LogVal) :
    (dict keys vals).bytes.length = 1 + keys.bytes.length + vals.bytes.length := by
  show (keys.bytes ++ vals.bytes).length + 1 = _
  rw [List.length_append]
  omega

theorem bytes_table_length (attr : UInt8) (cols vals : LogVal) :
    (table attr cols vals).bytes.length = 2 + (dict cols vals).bytes.length := by
  show (dict cols vals).bytes.length + 1 + 1 = _
  omega

/-!
## Values inside values
-/

mutual

/-- `P` holds of a value and of every value in it. -/
def Everywhere (P : LogVal -> Prop) : LogVal -> Prop
  | list attr parts => P (list attr parts) ∧ EverywhereAll P parts
  | dict keys vals => P (dict keys vals) ∧ Everywhere P keys ∧ Everywhere P vals
  | table attr cols vals => P (table attr cols vals) ∧ Everywhere P cols ∧ Everywhere P vals
  | p => P p

def EverywhereAll (P : LogVal -> Prop) : List LogVal -> Prop
  | [] => True
  | p :: ps => Everywhere P p ∧ EverywhereAll P ps

end

theorem everywhereAll_iff {P : LogVal -> Prop} {ps : List LogVal} :
    EverywhereAll P ps <-> forall p, p ∈ ps -> Everywhere P p := by
  induction ps with
  | nil => exact iff_of_true trivial (fun p hp => absurd hp List.not_mem_nil)
  | cons p ps ih =>
      rw [List.forall_mem_cons, <- ih]
      exact Iff.rfl

def CountFits : LogVal -> Prop
  | vector _ _ vec => vec.length < 2 ^ 31
  | symbolVector _ syms => syms.length < 2 ^ 31
  | list _ parts => parts.length < 2 ^ 31
  | _ => True

def WellFormed : LogVal -> Prop :=
  Everywhere CountFits

def TypHandled : LogVal -> Prop
  | vector e _ _ => e ≠ .elem .guid
  | other _ _ _ => False
  | _ => True

def Handled : LogVal -> Prop :=
  Everywhere TypHandled

def ElemsFit : LogVal -> Prop
  | vector e _ vec => vec.length * e.width < 2 ^ 31
  | _ => True

def DataFits : LogVal -> Prop :=
  Everywhere ElemsFit

def Accepted (p : LogVal) : Prop :=
  p.Handled ∧ p.DataFits

theorem accepted_vector (e : LogElem) (attr : UInt8) (vec : List (BitVec (8 * e.width))) :
    (vector e attr vec).Accepted <->
      e ≠ .elem .guid ∧ vec.length * e.width < 2 ^ 31 :=
  Iff.rfl

theorem accepted_atom (e : LogElem) (val : BitVec (8 * e.width)) : (atom e val).Accepted :=
  ⟨trivial, trivial⟩

theorem accepted_symbolAtom (val : NulText) : (symbolAtom val).Accepted :=
  ⟨trivial, trivial⟩

theorem accepted_symbolVector (attr : UInt8) (syms : List NulText) :
    (symbolVector attr syms).Accepted :=
  ⟨trivial, trivial⟩

theorem not_accepted_other (typ : UInt8) (h : foreignTyp typ = true) (body : List UInt8) :
    ¬ (other typ h body).Accepted :=
  fun hok => hok.left

theorem accepted_list (attr : UInt8) (parts : List LogVal) :
    (list attr parts).Accepted <-> forall p, p ∈ parts -> p.Accepted := by
  constructor
  · rintro ⟨⟨_, hhandled⟩, _, hfits⟩ p hp
    exact ⟨everywhereAll_iff.mp hhandled p hp, everywhereAll_iff.mp hfits p hp⟩
  · intro h
    exact ⟨⟨trivial, everywhereAll_iff.mpr (fun p hp => (h p hp).left)⟩,
      trivial, everywhereAll_iff.mpr (fun p hp => (h p hp).right)⟩

theorem accepted_dict (keys vals : LogVal) :
    (dict keys vals).Accepted <-> keys.Accepted ∧ vals.Accepted := by
  constructor
  · rintro ⟨⟨_, hkeys, hvals⟩, _, hkeys', hvals'⟩
    exact ⟨⟨hkeys, hkeys'⟩, hvals, hvals'⟩
  · rintro ⟨⟨hkeys, hkeys'⟩, hvals, hvals'⟩
    exact ⟨⟨trivial, hkeys, hvals⟩, trivial, hkeys', hvals'⟩

theorem accepted_table (attr : UInt8) (cols vals : LogVal) :
    (table attr cols vals).Accepted <-> (dict cols vals).Accepted :=
  Iff.rfl

/-!
## What the scanners look at
-/

mutual

/-- The bytes at the end that are passed over: they are those of an atom of fixed width. -/
def unread : LogVal -> Nat
  | atom e _ => e.width
  | list _ parts => unreadLast parts
  | dict _ vals => unread vals
  | table _ _ vals => unread vals
  | _ => 0

def unreadLast : List LogVal -> Nat
  | [] => 0
  | [p] => unread p
  | _ :: q :: ps => unreadLast (q :: ps)

end

theorem unreadLast_le {ps : List LogVal} (h : forall p, p ∈ ps -> p.unread < p.bytes.length) :
    unreadLast ps <= (bytesAll ps).length := by
  induction ps with
  | nil => exact Nat.zero_le _
  | cons p ps ih =>
      have hp := h p List.mem_cons_self
      have hps := ih (fun q hq => h q (List.mem_cons_of_mem p hq))
      rw [bytesAll, List.length_append]
      cases ps with
      | nil =>
          rw [unreadLast]
          omega
      | cons q ps =>
          rw [unreadLast]
          omega

theorem unread_lt (p : LogVal) : p.unread < p.bytes.length := by
  induction p with
  | atom e val =>
      rw [unread, bytes_atom_length]
      omega
  | list attr parts ih =>
      have hlast := unreadLast_le ih
      rw [unread, bytes_list_length]
      omega
  | dict keys vals ihk ihv =>
      rw [unread, bytes_dict_length]
      omega
  | table attr cols vals ihc ihv =>
      rw [unread, bytes_table_length, bytes_dict_length]
      omega
  | symbolAtom val => exact bytes_pos _
  | vector e attr vec => exact bytes_pos _
  | symbolVector attr syms => exact bytes_pos _
  | other typ h body => exact bytes_pos _

def measured : Coding UInt8 LogVal where
  enc := bytes
  supported := Accepted
  slack := unread
  slack_lt := unread_lt

def whole : Coding UInt8 LogVal where
  enc := bytes
  supported := Accepted
  slack := fun _ => 0
  slack_lt := bytes_pos

theorem measured_encAll (ps : List LogVal) : measured.encAll ps = bytesAll ps :=
  (bytesAll_eq_flatten ps).symm

theorem whole_encAll (ps : List LogVal) : whole.encAll ps = bytesAll ps :=
  (bytesAll_eq_flatten ps).symm

theorem measured_lastSlack (ps : List LogVal) : measured.lastSlack ps = unreadLast ps := by
  induction ps with
  | nil => rfl
  | cons p ps ih =>
      cases ps with
      | nil => rfl
      | cons q ps => rw [Coding.lastSlack, unreadLast, ih]

theorem whole_lastSlack (ps : List LogVal) : whole.lastSlack ps = 0 := by
  induction ps with
  | nil => rfl
  | cons p ps ih =>
      cases ps with
      | nil => rfl
      | cons q ps => rw [Coding.lastSlack, ih]

end LogVal

theorem NulText.bytes_pos (sym : NulText) : 0 < sym.bytes.length := by
  rw [sym.bytes_length]
  exact Nat.succ_pos _

def symbols : Coding UInt8 NulText where
  enc := NulText.bytes
  supported := fun _ => True
  slack := fun _ => 0
  slack_lt := NulText.bytes_pos

theorem symbols_encAll (syms : List NulText) : symbols.encAll syms = KVal.symsBytes syms := by
  rw [Coding.encAll, KVal.symsBytes, List.flatMap_def]
  rfl

theorem symbols_lastSlack (syms : List NulText) : symbols.lastSlack syms = 0 := by
  induction syms with
  | nil => rfl
  | cons s syms ih =>
      cases syms with
      | nil => rfl
      | cons t syms => rw [Coding.lastSlack, ih]

end MgKdb
