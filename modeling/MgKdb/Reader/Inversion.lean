import MgKdb.Reader.Fuel
import MgKdb.Wire.Spelling

/-!
# What the readers accept

Whatever bytes are read with success into a complete object, they spell the value that
the object then holds.
-/

namespace MgKdb

open Foundation

/-- The objects that `newInstance` allocates, with the bytes it takes for them. -/
inductive Fresh : KdbBase -> List UInt8 -> Prop where
  | exception : Fresh (.exception []) [KdbType.exception.i8]
  | atom (e : Elem) : Fresh (.atom e 0) [e.atomTyp.i8]
  | symbolAtom : Fresh (.symbolAtom []) [KdbType.symbolAtom.i8]
  | list {cap : Nat} (attr : UInt8) (hcap : cap < 2 ^ 31) :
      Fresh (.list cap attr []) (KVal.vecHdr .list attr cap)
  | vector (e : Elem) {cap : Nat} (attr : UInt8) (hcap : cap < 2 ^ 31) :
      Fresh (.vector e cap attr []) (KVal.vecHdr e.vectorTyp attr cap)
  | symbolVector {cap : Nat} (attr : UInt8) (hcap : cap < 2 ^ 31) :
      Fresh (.symbolVector cap attr [] []) (KVal.vecHdr .symbolVector attr cap)
  | table (attr typ : UInt8) : Fresh (.table none none) [KdbType.table.i8, attr, typ]
  | dict (step : Bool) : Fresh (.dict none none)
      [if step then KdbType.stepDict.i8 else KdbType.dict.i8]
  | function (ctx attr : UInt8) {cap : Nat} (hcap : cap < 2 ^ 31) :
      Fresh (.function cap []) (KdbType.function.i8 :: ctx :: KVal.vecHdr .charVector attr cap)
  | primitive (arity : Arity) : Fresh (.primitive arity 0) [arity.typ.i8]
  | projection {cap : Nat} (hcap : cap < 2 ^ 31) :
      Fresh (.projection cap []) (KVal.projectionHdr cap)

structure Took (b : ReadBuf) (xs : List UInt8) (b' : ReadBuf) : Prop where
  rest : b.rest = xs ++ b'.rest
  active : 0 <= b'.csr

theorem Took.trans {a b c : ReadBuf} {xs ys : List UInt8} (h : Took a xs b)
    (h' : Took b ys c) : Took a (xs ++ ys) c where
  rest := by rw [h.rest, h'.rest, List.append_assoc]
  active := h'.active

theorem took_nil {b : ReadBuf} (h : 0 <= b.csr) : Took b [] b where
  rest := rfl
  active := h

theorem took_adj {b : ReadBuf} (h : 0 <= b.csr) (n : Nat) :
    Took b (b.rest.take n) (b.adj n) where
  rest := (List.take_append_drop n b.rest).symm
  active := by
    rw [ReadBuf.adj_csr]
    omega

/-!
## Allocation
-/

theorem take_count {bs : List UInt8} {n : Nat} (hlen : n + 4 <= bs.length)
    (hcount : 0 <= i32At (bs.drop n)) :
    bs.take (n + 4) = bs.take n ++ leBytes 4 (i32At (bs.drop n)).toNat := by
  rw [leBytes_i32At (by rw [List.length_drop]; omega) hcount, List.take_add]

theorem take_one {bs : List UInt8} (h : 0 < bs.length) : bs.take 1 = [bs.headD 0] := by
  cases bs with
  | nil => simp at h
  | cons b bs => rfl

theorem take_two {bs : List UInt8} (h : 1 < bs.length) :
    bs.take 2 = [bs.headD 0, (bs.drop 1).headD 0] := by
  rw [show 2 = 1 + 1 from rfl, List.take_add, take_one (by omega),
    take_one (by rw [List.length_drop]; omega)]
  rfl

theorem length_of_canRead {b : ReadBuf} {n : Nat} (h : ¬ b.canRead n = false) :
    n <= b.rest.length := by
  have hread : n <= b.remaining := by simpa [ReadBuf.canRead] using h
  exact hread

theorem toNat_i32At_lt (bs : List UInt8) : (i32At bs).toNat < 2 ^ 31 := by
  have hrange := i32At_range bs
  omega

def Allocated (b : ReadBuf) (out : NewOut) : Prop :=
  forall o b', out = (.ok o, b') -> exists hdr, Fresh o hdr ∧ Took b hdr b'

theorem newAtomFromType_allocated {b : ReadBuf} {o : KdbBase} {typ : UInt8}
    (hcsr : 0 <= b.csr) (hpos : 0 < b.remaining) (htyp : b.peekI8 = typ)
    (hfresh : Fresh o [typ]) : Allocated b (newAtomFromType b o) := by
  intro o' b' hout
  cases hout
  refine ⟨_, hfresh, ?_⟩
  have htook := took_adj hcsr 1
  rwa [take_one hpos, show b.rest.headD 0 = typ from htyp] at htook

theorem newVec32_allocated {b : ReadBuf} {mk : Nat -> UInt8 -> KdbBase} {t : KdbType}
    (hcsr : 0 <= b.csr) (htyp : b.peekI8 = t.i8)
    (hfresh : forall {cap} attr, cap < 2 ^ 31 ->
      Fresh (mk cap attr) (KVal.vecHdr t attr cap)) :
    Allocated b (newVec32 b mk) := by
  intro o' b' hout
  unfold newVec32 at hout
  split at hout
  · cases hout
  · rename_i hread
    have hsix := length_of_canRead hread
    simp only [ReadBuf.readI8, ReadBuf.readI32, ReadBuf.adj_adj, ReadBuf.adj_rest,
      Nat.reduceAdd] at hout
    split at hout
    · cases hout
    · rename_i hneg
      cases hout
      refine ⟨_, hfresh _ (toNat_i32At_lt _), ?_⟩
      have htook := took_adj hcsr 6
      rwa [show 6 = 2 + 4 from rfl, take_count hsix (by omega), take_two (by omega),
        show b.rest.headD 0 = t.i8 from htyp] at htook

theorem tableAlloc_allocated {b : ReadBuf} (hcsr : 0 <= b.csr)
    (htyp : b.peekI8 = KdbType.table.i8) : Allocated b (KdbTable.alloc b) := by
  intro o' b' hout
  unfold KdbTable.alloc at hout
  split at hout
  · cases hout
  · rename_i hread
    have hthree := length_of_canRead hread
    cases hout
    refine ⟨_, .table ((b.rest.drop 1).headD 0) ((b.rest.drop 2).headD 0), ?_⟩
    have htook := took_adj hcsr 3
    rw [show 3 = 2 + 1 from rfl, List.take_add, take_two (by omega),
      take_one (by rw [List.length_drop]; omega),
      show b.rest.headD 0 = KdbType.table.i8 from htyp] at htook
    simpa [ReadBuf.readI8, ReadBuf.adj_adj] using htook

theorem functionAlloc_allocated {b : ReadBuf} (hcsr : 0 <= b.csr)
    (htyp : b.peekI8 = KdbType.function.i8) : Allocated b (KdbFunction.alloc b) := by
  intro o' b' hout
  unfold KdbFunction.alloc at hout
  rw [if_pos (ReadBuf.cursorActive_of_nonneg hcsr)] at hout
  split at hout
  · cases hout
  · rename_i hread
    have height := length_of_canRead hread
    simp only [ReadBuf.readI8, ReadBuf.readI32, ReadBuf.adj_adj, ReadBuf.adj_rest,
      Nat.reduceAdd] at hout
    split at hout
    · cases hout
    · rename_i hgood
      rw [not_or, not_not] at hgood
      cases hout
      refine ⟨_, .function ((b.rest.drop 1).headD 0) ((b.rest.drop 3).headD 0)
        (toNat_i32At_lt _), ?_⟩
      have htook := took_adj hcsr 8
      have hctyp := KdbType.i8_of_ofI8 hgood.left
      rw [show 8 = 4 + 4 from rfl, take_count height (by omega), show 4 = 2 + 2 from rfl,
        List.take_add, take_two (by omega), take_two (by rw [List.length_drop]; omega),
        List.drop_drop, ← hctyp,
        show b.rest.headD 0 = KdbType.function.i8 from htyp] at htook
      exact htook

theorem projectionAlloc_allocated {b : ReadBuf} (hcsr : 0 <= b.csr)
    (htyp : b.peekI8 = KdbType.projection.i8) : Allocated b (KdbProjection.alloc b) := by
  intro o' b' hout
  unfold KdbProjection.alloc at hout
  split at hout
  · cases hout
  · rename_i hread
    have hfive := length_of_canRead hread
    simp only [ReadBuf.readI8, ReadBuf.readI32, ReadBuf.adj_adj, ReadBuf.adj_rest,
      Nat.reduceAdd] at hout
    split at hout
    · cases hout
    · rename_i hneg
      cases hout
      refine ⟨_, .projection (toNat_i32At_lt _), ?_⟩
      have htook := took_adj hcsr 5
      rwa [show 5 = 1 + 4 from rfl, take_count hfive (by omega), take_one (by omega),
        show b.rest.headD 0 = KdbType.projection.i8 from htyp] at htook

theorem newInstance_allocated (b : ReadBuf) : Allocated b (newInstance b) := by
  unfold newInstance
  split
  · rename_i hactive
    have hcsr := (ReadBuf.cursorActive_iff b).mp hactive
    split
    · intro o b' hout
      cases hout
    · rename_i hread
      have hpos : 0 < b.remaining := length_of_canRead hread
      cases htyp : KdbType.ofI8 b.peekI8 with
      | none =>
          intro o b' hout
          cases hout
      | some t =>
          have hpeek := (KdbType.i8_of_ofI8 htyp).symm
          cases t <;> simp only [newInstanceOf] <;>
            first
            | exact newVec32_allocated hcsr hpeek (.list)
            | exact newVec32_allocated hcsr hpeek (.symbolVector)
            | exact newVec32_allocated hcsr hpeek (.vector _)
            | exact tableAlloc_allocated hcsr hpeek
            | exact functionAlloc_allocated hcsr hpeek
            | exact projectionAlloc_allocated hcsr hpeek
            | exact newAtomFromType_allocated hcsr hpos hpeek .exception
            | exact newAtomFromType_allocated hcsr hpos hpeek .symbolAtom
            | exact newAtomFromType_allocated hcsr hpos hpeek (.atom _)
            | exact newAtomFromType_allocated hcsr hpos hpeek (.dict false)
            | exact newAtomFromType_allocated hcsr hpos hpeek (.dict true)
            | exact newAtomFromType_allocated hcsr hpos hpeek (.primitive _)
            | exact fun o b' hout => by cases hout
  · intro o b' hout
    cases hout

/-!
## The classes without parts
-/

section Leaves

variable {b b' : ReadBuf}

theorem readText_took (hcsr : 0 <= b.csr) {str str' : List UInt8}
    (h : readText str b = (.ok, str', b')) :
    exists t : NulText, str' = t.text ∧ Took b t.bytes b' := by
  rw [readText, readTextData, ReadBuf.skipHdr_of_nonneg hcsr,
    if_pos (ReadBuf.cursorActive_of_nonneg hcsr), ReadBuf.readSym] at h
  split at h
  · split at h
    · cases h
    · rename_i hterm
      cases h
      rcases exists_nulText hterm with ⟨t, htext, hbytes⟩
      refine ⟨t, htext, ?_⟩
      rw [← hbytes]
      exact took_adj hcsr _
  · cases h

theorem readIntAtom_took (hcsr : 0 <= b.csr) {e : Elem} {val val' : BitVec (8 * e.width)}
    (h : readIntAtom e val b = (.ok, val', b')) : Took b (wordBytes e.width val') b' := by
  rw [readIntAtom, readIntAtomData, ReadBuf.skipHdr_of_nonneg hcsr,
    if_pos (ReadBuf.cursorActive_of_nonneg hcsr)] at h
  split at h
  · cases h
  · rename_i hroom
    cases h
    have hlen : e.width <= b.rest.length := by
      unfold ReadBuf.remaining at hroom
      omega
    rw [ReadBuf.readWord, wordBytes_wordAt hlen]
    exact took_adj hcsr _

theorem readPrimitive_took (hcsr : 0 <= b.csr) {val val' : UInt8}
    (h : readPrimitive val b = (.ok, val', b')) : Took b [val'] b' := by
  rw [readPrimitive, readPrimitiveData, ReadBuf.skipHdr_of_nonneg hcsr,
    if_pos (ReadBuf.cursorActive_of_nonneg hcsr)] at h
  split at h
  · cases h
  · rename_i hroom
    cases h
    have hlen := length_of_canRead hroom
    rw [ReadBuf.readI8, ← take_one hlen]
    exact took_adj hcsr _

theorem readIntVector_took (hcsr : 0 <= b.csr) {w cap : Nat} {vec : List (BitVec (8 * w))}
    (h : readIntVector w cap [] b = (.ok, vec, b')) :
    vec.length = cap ∧ Took b (wordsBytes w vec) b' := by
  rw [readIntVector, readIntVectorData, ReadBuf.skipHdr_of_nonneg hcsr] at h
  simp only [List.length_nil, Nat.mul_zero, ReadBuf.ffwd_zero, Nat.sub_zero,
    List.nil_append] at h
  split at h
  · rename_i hcap
    cases h
    exact ⟨hcap, took_nil hcsr⟩
  · split at h
    · rename_i hpos
      unfold ReadBuf.readVec at h
      by_cases hroom : b.remaining < w * min cap (b.remaining / w)
      · rw [if_pos hroom] at h
        simp only at h
        rw [if_pos (by omega)] at h
        cases h
      · rw [if_neg hroom] at h
        simp only [ne_eq, not_true_eq_false, if_false, wordsAt_length] at h
        split at h
        · rename_i hall
          cases h
          refine ⟨by rw [wordsAt_length]; exact hall.symm, ?_⟩
          rw [wordsBytes_wordsAt (Nat.not_lt.mp hroom)]
          exact took_adj hcsr _
        · cases h
    · rename_i hcap _
      rw [if_neg (fun h => hcap h.symm)] at h
      cases h

theorem readFunction_took (hcsr : 0 <= b.csr) {cap : Nat} {vec : List UInt8}
    (h : readFunction cap [] b = (.ok, vec, b')) :
    vec.length = cap ∧ Took b vec b' := by
  rw [readFunction, readFunctionText, ReadBuf.skipHdr_of_nonneg hcsr] at h
  simp only [List.length_nil, ReadBuf.ffwd_zero, Nat.sub_zero, List.nil_append] at h
  split at h
  · rename_i hcap
    cases h
    exact ⟨hcap, took_nil hcsr⟩
  · split at h
    · split at h
      · rename_i hall
        cases h
        refine ⟨?_, took_adj hcsr _⟩
        unfold ReadBuf.remaining at hall ⊢
        rw [List.length_take]
        omega
      · cases h
    · cases h

theorem readSymsLoop_took (hcsr : 0 <= b.csr) {n : Nat} {locs : List LocInfo}
    {data : List UInt8} (h : b.readSymsLoop n [] [] = (.ok, (locs, data), b')) :
    exists syms, syms.length = n ∧ locs = locsFrom 0 syms ∧ data = KVal.symsBytes syms ∧
      Took b (KVal.symsBytes syms) b' := by
  have hfront := ReadBuf.leadingTexts_prefix n b.rest
  have htook := took_adj hcsr (KVal.symsBytes (leadingTexts n b.rest)).length
  rw [← List.prefix_iff_eq_take.mp hfront] at htook
  rw [ReadBuf.readSymsLoop_eq] at h
  split at h
  · rename_i hall
    cases h
    exact ⟨leadingTexts n b.rest, hall, rfl, rfl, htook⟩
  · cases h

theorem readSymbolVector_took (hcsr : 0 <= b.csr) {cap : Nat} {locs : List LocInfo}
    {data : List UInt8} (h : readSymbolVector cap [] [] b = (.ok, (locs, data), b')) :
    exists syms, syms.length = cap ∧ locs = locsFrom 0 syms ∧
      data = KVal.symsBytes syms ∧ Took b (KVal.symsBytes syms) b' := by
  rw [readSymbolVector, readSymbolVectorData, ReadBuf.skipHdr_of_nonneg hcsr] at h
  simp only [List.length_nil, ReadBuf.ffwd_zero, Nat.sub_zero] at h
  split at h
  · rename_i hcap
    cases h
    exact ⟨[], hcap, rfl, rfl, took_nil hcsr⟩
  · rw [ReadBuf.readSyms] at h
    split at h
    · exact readSymsLoop_took hcsr h
    · cases h

end Leaves

/-!
## Containers
-/

def Spells (b : ReadBuf) (o : KdbBase) (b' : ReadBuf) : Prop :=
  exists s : Spelling, s.value.CountsFit ∧ s.value.Holds o ∧ Took b s.bytes b'

/-- Reading a new object with success takes the spelling of what it then holds. -/
structure Inverts (rd : KdbBase -> ReadBuf -> ReadOut KdbBase) : Prop where
  spells : forall {b b1 b' : ReadBuf} {o o' : KdbBase}, newInstance b = (.ok o, b1) ->
    rd o b1 = (.ok, o', b') -> Spells b o' b'
  typ : forall o b, (rd o b).2.1.typ = o.typ

theorem newInstance_active {b b1 : ReadBuf} {o : KdbBase}
    (h : newInstance b = (.ok o, b1)) : 0 <= b.csr := by
  unfold newInstance at h
  split at h
  · rename_i hactive
    exact (ReadBuf.cursorActive_iff b).mp hactive
  · cases h

section Containers

variable {rd : KdbBase -> ReadBuf -> ReadOut KdbBase}

theorem readNew_spells (hrd : Inverts rd) (n : Nat) :
    forall {b b' : ReadBuf} {os : List KdbBase}, 0 <= b.csr ->
      readNew rd n b = (.ok, os, b') ->
      exists ss : List Spelling, ss.length = n ∧ KVal.CountsFitAll (Spelling.valueAll ss) ∧
        KVal.HoldsAll (Spelling.valueAll ss) os ∧ Took b (Spelling.bytesAll ss) b' := by
  induction n with
  | zero =>
      intro b b' os hcsr h
      cases h
      refine ⟨[], rfl, ?_, ?_, ?_⟩
      · rw [Spelling.valueAll]
        trivial
      · rw [Spelling.valueAll]
        exact KVal.holdsAll_nil.mpr rfl
      · rw [Spelling.bytesAll]
        exact took_nil hcsr
  | succ n ih =>
      intro b b' os hcsr h
      rw [readNew] at h
      split at h
      · rename_i rr b1 hnew
        cases h
        exact absurd rfl ((newInstance_allocates b).fails _ (by rw [hnew]))
      · rename_i o b1 hnew
        split at h
        · rename_i o' b2 hread
          obtain ⟨more, hmore⟩ : exists more, readNew rd n b2 = more := ⟨_, rfl⟩
          rcases more with ⟨rr, os', b3⟩
          rw [hmore] at h
          cases h
          rcases hrd.spells hnew hread with ⟨s, hfit, hs, htook⟩
          rcases ih htook.active hmore with ⟨ss, hcount, hfits, hss, htooks⟩
          refine ⟨s :: ss, by rw [List.length_cons, hcount], ?_, ?_, ?_⟩
          · rw [Spelling.valueAll]
            exact ⟨hfit, hfits⟩
          · rw [Spelling.valueAll]
            exact KVal.holdsAll_cons.mpr ⟨o', os', rfl, hs, hss⟩
          · rw [Spelling.bytesAll]
            exact htook.trans htooks
        · rename_i hnot _
          cases h
          exact absurd rfl hnot

theorem readItems_spells (hrd : Inverts rd) {cap : Nat} {b b' : ReadBuf}
    {os : List KdbBase} (hcsr : 0 <= b.csr) (h : readItems rd cap [] b = (.ok, os, b')) :
    exists ss : List Spelling, ss.length = cap ∧ KVal.CountsFitAll (Spelling.valueAll ss) ∧
      KVal.HoldsAll (Spelling.valueAll ss) os ∧ Took b (Spelling.bytesAll ss) b' := by
  rw [readItems, readVals] at h
  simp only [List.length_nil, Nat.sub_zero, List.nil_append] at h
  exact readNew_spells hrd cap hcsr h

theorem readPart_spells (hrd : Inverts rd) {accepts : KdbType -> Bool} {b b' : ReadBuf}
    {part : Option KdbBase} (hcsr : 0 <= b.csr)
    (h : readPart rd accepts none b = (.ok, part, b')) :
    exists o, part = some o ∧ accepts o.typ = true ∧ Spells b o b' := by
  rw [readPart, if_pos (ReadBuf.cursorActive_of_nonneg hcsr)] at h
  split at h
  · rename_i rr b1 hnew
    cases h
    exact absurd rfl ((newInstance_allocates b).fails _ (by rw [hnew]))
  · rename_i o b1 hnew
    split at h
    · rename_i haccepts
      obtain ⟨out, hread⟩ : exists out, rd o b1 = out := ⟨_, rfl⟩
      have htyp := hrd.typ o b1
      rcases out with ⟨rr, o', b2⟩
      rw [hread] at h htyp
      cases h
      exact ⟨o', rfl, by rw [htyp]; exact haccepts, hrd.spells hnew hread⟩
    · cases h

theorem readParts_spells (hrd : Inverts rd) {hdr : Nat} {fst snd : KdbType -> Bool}
    {b b' : ReadBuf} {parts : Option KdbBase × Option KdbBase} (hcsr : 0 <= b.csr)
    (h : readParts rd hdr fst snd none none b = (.ok, parts, b')) :
    exists o o' b1, parts = (some o, some o') ∧ fst o.typ = true ∧ snd o'.typ = true ∧
      Spells b o b1 ∧ Spells b1 o' b' := by
  rw [readParts, ReadBuf.skipHdr_of_nonneg hcsr] at h
  split at h
  · rename_i part b1 hfst
    obtain ⟨out, hsnd⟩ : exists out, readPart rd snd none b1 = out := ⟨_, rfl⟩
    rcases out with ⟨rr, part', b2⟩
    rw [hsnd] at h
    cases h
    rcases readPart_spells hrd hcsr hfst with ⟨o, rfl, ho, hspells⟩
    have hcsr1 : 0 <= b1.csr := by
      rcases hspells with ⟨s, _, _, htook⟩
      exact htook.active
    rcases readPart_spells hrd hcsr1 hsnd with ⟨o', rfl, ho', hspells'⟩
    exact ⟨o, o', b1, rfl, ho, ho', hspells, hspells'⟩
  · rename_i hnot _
    cases h
    exact absurd rfl hnot

end Containers

/-!
## Objects
-/

theorem readFuel_typ (n : Nat) (o : KdbBase) (b : ReadBuf) :
    (readFuel n o b).2.1.typ = o.typ := by
  cases n with
  | zero => rfl
  | succ n => cases o <;> rfl

theorem spelling_symbolVector {s : Spelling} {o : KdbBase} (h : s.value.Holds o)
    (htyp : o.typ = .symbolVector) : exists attr syms, s = .symbolVector attr syms := by
  rw [KVal.typ_of_holds h] at htyp
  cases s with
  | symbolVector attr syms => exact ⟨attr, syms, rfl⟩
  | atom e val =>
      rw [Spelling.value, KVal.obj] at htyp
      cases e <;> cases htyp
  | vector e attr vec =>
      rw [Spelling.value, KVal.obj] at htyp
      cases e <;> cases htyp
  | primitive arity val =>
      rw [Spelling.value, KVal.obj] at htyp
      cases arity <;> cases htyp
  | _ =>
      rw [Spelling.value, KVal.obj] at htyp
      cases htyp

theorem spelling_list {s : Spelling} {o : KdbBase} (h : s.value.Holds o)
    (htyp : o.typ = .list) : exists attr parts, s = .list attr parts := by
  rw [KVal.typ_of_holds h] at htyp
  cases s with
  | list attr parts => exact ⟨attr, parts, rfl⟩
  | atom e val =>
      rw [Spelling.value, KVal.obj] at htyp
      cases e <;> cases htyp
  | vector e attr vec =>
      rw [Spelling.value, KVal.obj] at htyp
      cases e <;> cases htyp
  | primitive arity val =>
      rw [Spelling.value, KVal.obj] at htyp
      cases arity <;> cases htyp
  | _ =>
      rw [Spelling.value, KVal.obj] at htyp
      cases htyp

/-!
## Class by class

The header of an object was taken, and the reader of its class takes the rest.
-/

section Classes

variable {n : Nat} {b b1 b' : ReadBuf} {o' : KdbBase}

theorem spells_exception (htook : Took b [KdbType.exception.i8] b1)
    (hread : readFuel (n + 1) (.exception []) b1 = (.ok, o', b')) : Spells b o' b' := by
  obtain ⟨⟨rr, str, b2⟩, hout⟩ : exists out, readText [] b1 = out := ⟨_, rfl⟩
  simp only [readFuel, hout] at hread
  cases hread
  rcases readText_took htook.active hout with ⟨t, rfl, hrest⟩
  refine ⟨.exception t, ?_, ?_, ?_⟩
  · rw [Spelling.value, KVal.CountsFit]
    trivial
  · rw [Spelling.value, KVal.Holds]
  · rw [Spelling.bytes]
    exact htook.trans hrest

theorem spells_atom (e : Elem) (htook : Took b [e.atomTyp.i8] b1)
    (hread : readFuel (n + 1) (.atom e 0) b1 = (.ok, o', b')) : Spells b o' b' := by
  obtain ⟨⟨rr, val, b2⟩, hout⟩ : exists out, readIntAtom e 0 b1 = out := ⟨_, rfl⟩
  simp only [readFuel, hout] at hread
  cases hread
  refine ⟨.atom e val, ?_, ?_, ?_⟩
  · rw [Spelling.value, KVal.CountsFit]
    trivial
  · rw [Spelling.value, KVal.Holds]
  · rw [Spelling.bytes]
    exact htook.trans (readIntAtom_took htook.active hout)

theorem spells_symbolAtom (htook : Took b [KdbType.symbolAtom.i8] b1)
    (hread : readFuel (n + 1) (.symbolAtom []) b1 = (.ok, o', b')) : Spells b o' b' := by
  obtain ⟨⟨rr, str, b2⟩, hout⟩ : exists out, readText [] b1 = out := ⟨_, rfl⟩
  simp only [readFuel, hout] at hread
  cases hread
  rcases readText_took htook.active hout with ⟨t, rfl, hrest⟩
  refine ⟨.symbolAtom t, ?_, ?_, ?_⟩
  · rw [Spelling.value, KVal.CountsFit]
    trivial
  · rw [Spelling.value, KVal.Holds]
  · rw [Spelling.bytes]
    exact htook.trans hrest

theorem spells_list (ih : Inverts (readFuel n)) {cap : Nat} {attr : UInt8} (hcap : cap < 2 ^ 31)
    (htook : Took b (KVal.vecHdr .list attr cap) b1)
    (hread : readFuel (n + 1) (.list cap attr []) b1 = (.ok, o', b')) : Spells b o' b' := by
  obtain ⟨⟨rr, os, b2⟩, hout⟩ : exists out,
    readItems (readFuel n) cap [] (b1.skipHdr 6) = out := ⟨_, rfl⟩
  simp only [readFuel, hout] at hread
  cases hread
  rw [ReadBuf.skipHdr_of_nonneg htook.active] at hout
  rcases readItems_spells ih htook.active hout with ⟨ss, rfl, hfits, hss, hrest⟩
  refine ⟨.list attr ss, ?_, ?_, ?_⟩
  · rw [Spelling.value, KVal.CountsFit, Spelling.valueAll_length]
    exact ⟨hcap, hfits⟩
  · rw [Spelling.value, KVal.Holds]
    exact ⟨_, os, rfl, hss⟩
  · rw [Spelling.bytes]
    exact htook.trans hrest

theorem spells_vector (e : Elem) {cap : Nat} {attr : UInt8} (hcap : cap < 2 ^ 31)
    (htook : Took b (KVal.vecHdr e.vectorTyp attr cap) b1)
    (hread : readFuel (n + 1) (.vector e cap attr []) b1 = (.ok, o', b')) : Spells b o' b' := by
  obtain ⟨⟨rr, vec, b2⟩, hout⟩ : exists out,
    readIntVector e.width cap [] b1 = out := ⟨_, rfl⟩
  simp only [readFuel, hout] at hread
  cases hread
  rcases readIntVector_took htook.active hout with ⟨rfl, hrest⟩
  refine ⟨.vector e attr vec, ?_, ?_, ?_⟩
  · rw [Spelling.value, KVal.CountsFit]
    exact hcap
  · rw [Spelling.value, KVal.Holds]
    exact ⟨_, rfl⟩
  · rw [Spelling.bytes]
    exact htook.trans hrest

theorem spells_symbolVector {cap : Nat} {attr : UInt8} (hcap : cap < 2 ^ 31)
    (htook : Took b (KVal.vecHdr .symbolVector attr cap) b1)
    (hread : readFuel (n + 1) (.symbolVector cap attr [] []) b1 = (.ok, o', b')) :
    Spells b o' b' := by
  obtain ⟨⟨rr, ⟨locs, data⟩, b2⟩, hout⟩ : exists out,
    readSymbolVector cap [] [] b1 = out := ⟨_, rfl⟩
  simp only [readFuel, hout] at hread
  cases hread
  rcases readSymbolVector_took htook.active hout with ⟨syms, rfl, rfl, rfl, hrest⟩
  refine ⟨.symbolVector attr syms, ?_, ?_, ?_⟩
  · rw [Spelling.value, KVal.CountsFit]
    exact hcap
  · rw [Spelling.value, KVal.Holds]
    exact ⟨_, rfl⟩
  · rw [Spelling.bytes]
    exact htook.trans hrest

theorem spells_table (ih : Inverts (readFuel n)) {attr typ : UInt8}
    (htook : Took b [KdbType.table.i8, attr, typ] b1)
    (hread : readFuel (n + 1) (.table none none) b1 = (.ok, o', b')) : Spells b o' b' := by
  obtain ⟨⟨rr, parts, b2⟩, hout⟩ : exists out,
    readParts (readFuel n) 3 (fun t => t == .symbolVector) (fun t => t == .list)
      none none b1 = out := ⟨_, rfl⟩
  simp only [readFuel, hout] at hread
  cases hread
  rcases readParts_spells ih htook.active hout with
    ⟨o, o', b3, rfl, ho, ho', ⟨s, hfit, hs, hstook⟩, ⟨s', hfit', hs', hstook'⟩⟩
  rcases spelling_symbolVector hs (beq_iff_eq.mp ho) with ⟨colsAttr, cols, rfl⟩
  rcases spelling_list hs' (beq_iff_eq.mp ho') with ⟨valsAttr, vals, rfl⟩
  rw [Spelling.value, KVal.Holds] at hs
  rw [Spelling.value, KVal.Holds] at hs'
  rcases hs with ⟨capCols, rfl⟩
  rcases hs' with ⟨capVals, os, rfl, hos⟩
  rw [Spelling.value, KVal.CountsFit] at hfit
  rw [Spelling.value, KVal.CountsFit] at hfit'
  refine ⟨.table attr typ colsAttr cols valsAttr vals, ?_, ?_, ?_⟩
  · rw [Spelling.value, KVal.CountsFit]
    exact ⟨hfit, hfit'⟩
  · rw [Spelling.value, KVal.Holds]
    exact ⟨capCols, capVals, os, rfl, hos⟩
  · rw [Spelling.bytes] at hstook
    rw [Spelling.bytes] at hstook'
    rw [Spelling.bytes]
    exact htook.trans (hstook.trans hstook')

theorem spells_dict (ih : Inverts (readFuel n)) (step : Bool)
    (htook : Took b [if step then KdbType.stepDict.i8 else KdbType.dict.i8] b1)
    (hread : readFuel (n + 1) (.dict none none) b1 = (.ok, o', b')) : Spells b o' b' := by
  obtain ⟨⟨rr, parts, b2⟩, hout⟩ : exists out,
    readParts (readFuel n) 1 (fun _ => true) (fun _ => true) none none b1 = out :=
    ⟨_, rfl⟩
  simp only [readFuel, hout] at hread
  cases hread
  rcases readParts_spells ih htook.active hout with
    ⟨o, o', b3, rfl, _, _, ⟨s, hfit, hs, hstook⟩, ⟨s', hfit', hs', hstook'⟩⟩
  refine ⟨.dict step s s', ?_, ?_, ?_⟩
  · rw [Spelling.value, KVal.CountsFit]
    exact ⟨hfit, hfit'⟩
  · rw [Spelling.value, KVal.Holds]
    exact ⟨o, o', rfl, hs, hs'⟩
  · rw [Spelling.bytes]
    exact htook.trans (hstook.trans hstook')

theorem spells_function {ctx attr : UInt8} {cap : Nat} (hcap : cap < 2 ^ 31)
    (htook : Took b (KdbType.function.i8 :: ctx :: KVal.vecHdr .charVector attr cap) b1)
    (hread : readFuel (n + 1) (.function cap []) b1 = (.ok, o', b')) : Spells b o' b' := by
  obtain ⟨⟨rr, text, b2⟩, hout⟩ : exists out, readFunction cap [] b1 = out :=
    ⟨_, rfl⟩
  simp only [readFuel, hout] at hread
  cases hread
  rcases readFunction_took htook.active hout with ⟨rfl, hrest⟩
  refine ⟨.function ctx attr text, ?_, ?_, ?_⟩
  · rw [Spelling.value, KVal.CountsFit]
    exact hcap
  · rw [Spelling.value, KVal.Holds]
  · rw [Spelling.bytes]
    exact htook.trans hrest

theorem spells_primitive (arity : Arity) (htook : Took b [arity.typ.i8] b1)
    (hread : readFuel (n + 1) (.primitive arity 0) b1 = (.ok, o', b')) : Spells b o' b' := by
  obtain ⟨⟨rr, val, b2⟩, hout⟩ : exists out, readPrimitive 0 b1 = out := ⟨_, rfl⟩
  simp only [readFuel, hout] at hread
  cases hread
  refine ⟨.primitive arity val, ?_, ?_, ?_⟩
  · rw [Spelling.value, KVal.CountsFit]
    trivial
  · rw [Spelling.value, KVal.Holds]
  · rw [Spelling.bytes]
    exact htook.trans (readPrimitive_took htook.active hout)

theorem spells_projection (ih : Inverts (readFuel n)) {cap : Nat} (hcap : cap < 2 ^ 31)
    (htook : Took b (KVal.projectionHdr cap) b1)
    (hread : readFuel (n + 1) (.projection cap []) b1 = (.ok, o', b')) : Spells b o' b' := by
  obtain ⟨⟨rr, os, b2⟩, hout⟩ : exists out,
    readItems (readFuel n) cap [] (b1.skipHdr 5) = out := ⟨_, rfl⟩
  simp only [readFuel, hout] at hread
  cases hread
  rw [ReadBuf.skipHdr_of_nonneg htook.active] at hout
  rcases readItems_spells ih htook.active hout with ⟨ss, rfl, hfits, hss, hrest⟩
  refine ⟨.projection ss, ?_, ?_, ?_⟩
  · rw [Spelling.value, KVal.CountsFit, Spelling.valueAll_length]
    exact ⟨hcap, hfits⟩
  · rw [Spelling.value, KVal.Holds]
    exact ⟨_, os, rfl, hss⟩
  · rw [Spelling.bytes]
    exact htook.trans hrest

end Classes

theorem readFuel_inverts (n : Nat) : Inverts (readFuel n) := by
  induction n with
  | zero =>
      refine ⟨?_, readFuel_typ 0⟩
      intro b b1 b' o o' _ hread
      cases hread
  | succ n ih =>
      refine ⟨?_, readFuel_typ (n + 1)⟩
      intro b b1 b' o o' hnew hread
      rcases newInstance_allocated b o b1 hnew with ⟨hdr, hfresh, htook⟩
      cases hfresh with
      | exception => exact spells_exception htook hread
      | atom e => exact spells_atom e htook hread
      | symbolAtom => exact spells_symbolAtom htook hread
      | list attr hcap => exact spells_list ih hcap htook hread
      | vector e attr hcap => exact spells_vector e hcap htook hread
      | symbolVector attr hcap => exact spells_symbolVector hcap htook hread
      | table attr typ => exact spells_table ih htook hread
      | dict step => exact spells_dict ih step htook hread
      | function ctx attr hcap => exact spells_function hcap htook hread
      | primitive arity => exact spells_primitive arity htook hread
      | projection hcap => exact spells_projection ih hcap htook hread

end MgKdb
