import MgKdb.Reader.Chunks

/-!
# What a read leaves

A read that runs out of bytes leaves the front of the next thing that is read as a whole,
and so fewer bytes than the largest such thing has.
-/

namespace MgKdb

open Foundation

/-- A resumable read that leaves fewer than `unit` bytes when it runs out of them. -/
structure Tight {α : Type} (unit : Nat) (bytes : List UInt8) (init final : α)
    (P : α -> Nat -> Prop) (new : Nat) (rd : α -> ReadBuf -> ReadOut α) : Prop where
  resumes : Resumes bytes init final P new rd
  leaves : forall {x k m} {b : ReadBuf} {tail : List UInt8},
    P x k -> b.At k m new -> (m = 0 ∨ k = bytes.length) ->
    b.rest <+: bytes.drop k ++ tail -> k + b.remaining < bytes.length ->
    (rd x b).2.2.remaining < unit

namespace Tight

variable {α β : Type} {unit : Nat} {bytes : List UInt8} {init final : α}
  {P : α -> Nat -> Prop} {new : Nat} {rd : α -> ReadBuf -> ReadOut α}

theorem header (h : Tight unit bytes init final P 0 rd) (hdr : List UInt8) {n : Nat}
    (hn : hdr.length = n) (hpos : 0 < n) :
    Tight unit (hdr ++ bytes) init final (After n P) n
      (fun x b => rd x (b.skipHdr n)) where
  resumes := h.resumes.header hdr hn hpos
  leaves := by
    rintro x k m b tail ⟨j, rfl, hx⟩ hat hm hpre hlt
    rw [List.length_append, hn] at hm hlt
    rw [List.drop_append, List.drop_eq_nil_of_le (by omega), List.nil_append, hn,
      Nat.add_sub_cancel_left] at hpre
    rw [← ReadBuf.skipHdr_rest b n] at hpre
    refine h.leaves hx (ReadBuf.at_skipHdr hat hpos) (hm.imp_right (by omega)) hpre ?_
    rw [ReadBuf.skipHdr_remaining]
    omega

theorem map (h : Tight unit bytes init final P new rd) {g : α -> β}
    {rd' : β -> ReadBuf -> ReadOut β}
    (hrd : forall x k b, P x k ->
      rd' (g x) b = ((rd x b).1, g (rd x b).2.1, (rd x b).2.2)) :
    Tight unit bytes (g init) (g final) (Image g P) new rd' where
  resumes := h.resumes.map hrd
  leaves := by
    rintro y k m b tail ⟨x, rfl, hx⟩ hat hm hpre hlt
    rw [hrd x k b hx]
    exact h.leaves hx hat hm hpre hlt

theorem whole {n : Nat} (h : Resumes bytes init final (Whole init final n) 0 rd)
    (hn : bytes.length = n) (hunit : n <= unit) :
    Tight unit bytes init final (Whole init final n) 0 rd where
  resumes := h
  leaves := by
    intro x k m b tail hx hat hm hpre hlt
    have hout := h.resume hx hat hm hpre
    generalize rd x b = out at hout
    cases hout with
    | done hle => omega
    | short x' k' hx' hk hk' _ =>
        rcases hx' with ⟨_, rfl⟩ | ⟨_, rfl⟩
        · rw [ReadBuf.remaining, ReadBuf.advance_rest, List.length_drop,
            ← ReadBuf.remaining]
          omega
        · omega

theorem slot (h : Tight unit bytes init final P new rd) (hnew : 0 < new)
    (hunit : new <= unit) {rs : Option α -> ReadBuf -> ReadOut (Option α)}
    (halloc : forall (b : ReadBuf) (tail : List UInt8), 0 <= b.csr ->
      b.rest <+: bytes ++ tail ->
      rs none b =
        if new <= b.remaining then
          ((rd init (b.adj new)).1, some (rd init (b.adj new)).2.1,
            (rd init (b.adj new)).2.2)
        else (.incomplete, none, b))
    (hheld : forall (x : α) (b : ReadBuf), b.csr < 0 ->
      rs (some x) b = ((rd x b).1, some (rd x b).2.1, (rd x b).2.2)) :
    Tight unit bytes none (some final) (Slot P) 0 rs where
  resumes := h.resumes.slot hnew halloc hheld
  leaves := by
    intro x k m b tail hx hat hm hpre hlt
    cases x with
    | none =>
        have hk : k = 0 := hx
        subst hk
        have hsize : new <= bytes.length := h.resumes.le h.resumes.fresh
        have hcsr : 0 <= b.csr := by
          unfold ReadBuf.At at hat
          omega
        rw [List.drop_zero] at hpre
        rw [halloc b tail hcsr hpre]
        by_cases hle : new <= b.remaining
        · rw [if_pos hle]
          have hat' : (b.adj new).At new 0 new := by
            right
            rw [ReadBuf.adj_csr]
            omega
          have hpre' : (b.adj new).rest <+: bytes.drop new ++ tail := by
            rw [ReadBuf.adj_rest, ← List.drop_append_of_le_length hsize]
            exact hpre.drop new
          refine h.leaves h.resumes.fresh hat' (Or.inl rfl) hpre' ?_
          rw [ReadBuf.adj_remaining]
          omega
        · rw [if_neg hle]
          exact Nat.lt_of_lt_of_le (Nat.not_le.mp hle) hunit
    | some x =>
        have hk : new <= k := h.resumes.new_le (x := x) hx
        have hcsr : b.csr < 0 := by
          unfold ReadBuf.At at hat
          omega
        rw [hheld x b hcsr]
        refine h.leaves (x := x) hx ?_ hm hpre hlt
        left
        unfold ReadBuf.At at hat
        omega

theorem pair (h : Tight unit bytes init final P 0 rd) {bytes₂ : List UInt8}
    {init₂ final₂ : β} {Q : β -> Nat -> Prop} {rd₂ : β -> ReadBuf -> ReadOut β}
    (h₂ : Tight unit bytes₂ init₂ final₂ Q 0 rd₂) :
    Tight unit (bytes ++ bytes₂) (init, init₂) (final, final₂)
      (Pair P bytes.length final init₂ Q) 0
      (fun p b => (rd p.1 b).andThen p.2 rd₂) where
  resumes := h.resumes.pair h₂.resumes
  leaves := by
    intro p k m b tail hp hat hm hpre hlt
    rcases h.resumes.pair_split h₂.resumes hp hm with
      ⟨k₁, k₂, rfl, hx, hy, hk₁, hk₂, hstop, hm₂, hwait, hdrop⟩
    rw [List.length_append] at hlt
    rw [hdrop, List.append_assoc] at hpre
    have hat₁ := Resumes.pair_at_first hat
    have hout := h.resumes.resume hx hat₁ (by omega) hpre
    have hleft := h.leaves hx hat₁ (by omega) hpre
    generalize rd p.1 b = out at hout hleft
    cases hout with
    | short x' k' hx' hk hk' hshort =>
        rw [ReadOut.andThen]
        · exact hleft hshort
        · intro hok
          cases hok
    | done hle =>
        rcases Resumes.pair_second hpre with ⟨hpre₂, hrem⟩
        rw [ReadOut.andThen]
        exact h₂.leaves hy (ReadBuf.at_advance hat hstop) hm₂ hpre₂ (by omega)

end Tight

/-!
## The units of a value
-/

def symsUnit (syms : List NulText) : Nat :=
  (syms.map (fun s => s.bytes.length)).foldr max 0

theorem symsUnit_cons (s : NulText) (syms : List NulText) :
    symsUnit (s :: syms) = max s.bytes.length (symsUnit syms) := rfl

theorem symsUnit_drop (syms : List NulText) (i : Nat) :
    symsUnit (syms.drop i) <= symsUnit syms := by
  induction syms generalizing i with
  | nil => rw [List.drop_nil]
  | cons s syms ih =>
      cases i with
      | zero => exact Nat.le_refl _
      | succ i => exact Nat.le_trans (ih i) (Nat.le_max_right _ _)

namespace KVal

mutual

/-- The size of the largest thing in the encoding that is read as a whole. -/
def unit : KVal -> Nat
  | exception msg => msg.bytes.length
  | atom e _ => e.width
  | symbolAtom val => val.bytes.length
  | list _ vals => max 6 (unitAll vals)
  | vector e _ vec => if vec = [] then 6 else max 6 e.width
  | symbolVector _ syms => max 6 (symsUnit syms)
  | table _ cols _ vals => max (max 6 (symsUnit cols)) (max 6 (unitAll vals))
  | dict keys vals => max (unit keys) (unit vals)
  | function _ => 8
  | primitive _ _ => 1
  | projection parts => max 5 (unitAll parts)

def unitAll : List KVal -> Nat
  | [] => 0
  | v :: vs => max (unit v) (unitAll vs)

end

theorem newBytes_le_unit (v : KVal) : v.newBytes <= v.unit := by
  induction v with
  | exception msg =>
      rw [newBytes, unit, NulText.bytes_length]
      omega
  | atom e val => exact e.width_pos
  | symbolAtom val =>
      rw [newBytes, unit, NulText.bytes_length]
      omega
  | list attr vals _ => exact Nat.le_max_left _ _
  | vector e attr vec =>
      rw [newBytes, unit]
      split
      · exact Nat.le_refl 6
      · exact Nat.le_max_left _ _
  | symbolVector attr syms => exact Nat.le_max_left _ _
  | table colsAttr cols valsAttr vals _ =>
      rw [newBytes, unit]
      omega
  | dict keys vals ihk ihv =>
      have hpos := keys.newBytes_pos
      rw [newBytes, unit]
      omega
  | function text => exact Nat.le_refl 8
  | primitive arity val => exact Nat.le_refl 1
  | projection parts _ => exact Nat.le_max_left _ _

end KVal

/-!
## The classes without parts
-/

section Classes

variable {unit : Nat}

theorem readIntVectorData_tight {w : Nat} (hw : 0 < w) (vec : List (BitVec (8 * w)))
    (hunit : vec ≠ [] -> w <= unit) :
    Tight unit (wordsBytes w vec) [] vec (KVal.VecProgress w vec) 0
      (readIntVectorData w vec.length) where
  resumes := readIntVectorData_resumes hw vec
  leaves := by
    rintro x k m b tail ⟨i, hi, rfl, rfl⟩ hat _hm hpre hlt
    rw [wordsBytes_length, ← Nat.div_add_mod b.remaining w] at hlt
    have hlen : (vec.take i).length = i := by
      rw [List.length_take]
      omega
    have hmod := Nat.mod_lt b.remaining hw
    -- the elements that are there do not complete the vector
    have hmore : b.remaining / w < vec.length - i := by
      have hlt' : w * (i + b.remaining / w) < w * vec.length := by
        rw [Nat.mul_add]
        omega
      have h := Nat.lt_of_mul_lt_mul_left hlt'
      omega
    have hne : vec ≠ [] := by
      rintro rfl
      rw [List.length_nil, Nat.zero_sub] at hmore
      exact absurd hmore (Nat.not_lt_zero _)
    rw [readIntVectorData_eq (by omega) rfl, hlen]
    simp only [ReadBuf.adj_remaining, ReadBuf.ffwd_remaining]
    rw [Nat.min_eq_right (Nat.le_of_lt hmore), ← Nat.mod_eq_sub]
    exact Nat.lt_of_lt_of_le hmod (hunit hne)

theorem readFunctionText_tight (text : List UInt8) (hunit : 0 < unit) :
    Tight unit text [] text (KVal.TextProgress text) 0
      (readFunctionText text.length) where
  resumes := readFunctionText_resumes text
  leaves := by
    rintro x k m b tail ⟨i, hi, rfl, rfl⟩ hat _hm hpre hlt
    have hlen : (text.take k).length = k := by
      rw [List.length_take]
      omega
    rw [readFunctionText_eq (by omega), hlen]
    simp only [ReadBuf.adj_remaining, ReadBuf.ffwd_remaining]
    omega

theorem readSymsLoop_leaves (syms : List NulText) (hunit : symsUnit syms <= unit) :
    forall (locs : List LocInfo) (data : List UInt8) {b : ReadBuf} {tail : List UInt8},
      b.rest <+: KVal.symsBytes syms ++ tail ->
      b.remaining < (KVal.symsBytes syms).length ->
      (b.readSymsLoop syms.length locs data).2.2.remaining < unit := by
  induction syms with
  | nil =>
      intro locs data b tail _hpre hlt
      exact absurd hlt (Nat.not_lt_zero _)
  | cons s syms ih =>
      intro locs data b tail hpre hlt
      rw [symsUnit_cons, Nat.max_le, s.bytes_length] at hunit
      rw [KVal.symsBytes_cons, List.length_append, s.bytes_length] at hlt
      rw [KVal.symsBytes_cons, List.append_assoc] at hpre
      have hscan : strnlen b.rest b.remaining = min s.text.length b.remaining :=
        s.strnlen_of_front hpre
      rw [List.length_cons, ReadBuf.readSymsLoop, hscan]
      by_cases hle : s.text.length + 1 <= b.remaining
      · have hmin : min s.text.length b.remaining = s.text.length := by omega
        have hrest : (b.adj (s.text.length + 1)).rest <+:
            KVal.symsBytes syms ++ tail := by
          have hdrop := hpre.drop s.bytes.length
          rwa [List.drop_left, s.bytes_length] at hdrop
        rw [if_neg (by omega), hmin]
        refine ih hunit.right _ _ hrest ?_
        rw [ReadBuf.adj_remaining]
        omega
      · rw [if_pos (by omega)]
        exact Nat.lt_of_lt_of_le (Nat.not_le.mp hle) hunit.left

theorem readSymbolVectorData_tight (syms : List NulText) (hunit : symsUnit syms <= unit) :
    Tight unit (KVal.symsBytes syms) ([], []) (locsFrom 0 syms, KVal.symsBytes syms)
      (KVal.SymsProgress syms) 0
      (fun p b => readSymbolVectorData syms.length p.1 p.2 b) where
  resumes := readSymbolVectorData_resumes syms
  leaves := by
    rintro x k m b tail ⟨i, hi, rfl, rfl⟩ hat _hm hpre hlt
    have hlocs : (locsFrom 0 (syms.take i)).length = i := by
      rw [locsFrom_length, List.length_take]
      omega
    have hsplit := KVal.symsBytes_append (syms.take i) (syms.drop i)
    rw [List.take_append_drop] at hsplit
    rw [hsplit, List.drop_left] at hpre
    rw [hsplit, List.length_append] at hlt
    have hpart : i ≠ syms.length := by
      rintro rfl
      rw [List.drop_length, KVal.symsBytes_nil] at hlt
      exact absurd hlt (by simp)
    have hmore : (syms.drop i).length = syms.length - i := List.length_drop
    rw [readSymbolVectorData, hlocs, if_neg hpart, readSyms_eq (by omega), ← hmore]
    refine readSymsLoop_leaves (syms.drop i)
      (Nat.le_trans (symsUnit_drop syms i) hunit) _ _ hpre ?_
    rw [ReadBuf.ffwd_remaining]
    omega

end Classes

/-!
## The containers
-/

/-- `read` leaves fewer than `unit` bytes of a spelling. -/
def Spelling.ReadTight (unit : Nat) (s : Spelling) : Prop :=
  Tight unit s.bytes s.value.newObj s.value.obj s.value.Progress s.value.newBytes
    KdbBase.read

section Containers

variable {unit : Nat} {s : Spelling}

theorem readPart_tight {accepts : KdbType -> Bool} (h : s.ReadTight unit)
    (hfit : s.value.CountsFit) (hunit : s.value.unit <= unit)
    (haccepts : accepts s.value.obj.typ = true) :
    Tight unit s.bytes none (some s.value.obj) (Slot s.value.Progress) 0
      (readPart KdbBase.read accepts) :=
  Tight.slot h s.value.newBytes_pos (Nat.le_trans s.value.newBytes_le_unit hunit)
    (readPart_alloc hfit haccepts) (readPart_held accepts)

theorem readElem_tight (h : s.ReadTight unit) (hfit : s.value.CountsFit)
    (hunit : s.value.unit <= unit) :
    Tight unit s.bytes none (some s.value.obj) (Slot s.value.Progress) 0 readElem :=
  Tight.slot h s.value.newBytes_pos (Nat.le_trans s.value.newBytes_le_unit hunit)
    (readElem_alloc hfit) (fun _o _b _hcsr => rfl)

theorem readParts_tight {s' : Spelling} {p q : KdbType -> Bool} (hdr : List UInt8)
    {n : Nat} (hn : hdr.length = n) (hpos : 0 < n) (hs : s.ReadTight unit)
    (hs' : s'.ReadTight unit) (hfit : s.value.CountsFit) (hfit' : s'.value.CountsFit)
    (hunit : s.value.unit <= unit) (hunit' : s'.value.unit <= unit)
    (hp : p s.value.obj.typ = true) (hq : q s'.value.obj.typ = true) :
    Tight unit (hdr ++ (s.bytes ++ s'.bytes)) (none, none)
      (some s.value.obj, some s'.value.obj)
      (After n (Pair (Slot s.value.Progress) s.value.encode.length (some s.value.obj) none
        (Slot s'.value.Progress))) n
      (fun x b => readParts KdbBase.read n p q x.1 x.2 b) := by
  have hparts := ((readPart_tight hs hfit hunit hp).pair
    (readPart_tight hs' hfit' hunit' hq)).header hdr hn hpos
  have hrd : (fun (x : Option KdbBase × Option KdbBase) b =>
      readParts KdbBase.read n p q x.1 x.2 b) =
      fun x b => (readPart KdbBase.read p x.1 (b.skipHdr n)).andThen x.2
        (readPart KdbBase.read q) := by
    funext x b
    exact readParts_eq n p q x.1 x.2 b
  rw [hrd, s.respelled.left]
  exact hparts

theorem readItems_tight {ss : List Spelling} (h : forall s, s ∈ ss -> s.ReadTight unit)
    (hfit : KVal.CountsFitAll (Spelling.valueAll ss))
    (hunit : KVal.unitAll (Spelling.valueAll ss) <= unit) :
    Tight unit (Spelling.bytesAll ss) [] (KVal.objAll (Spelling.valueAll ss))
      (KVal.ProgressAll (Spelling.valueAll ss)) 0 (readItems KdbBase.read ss.length) := by
  induction ss with
  | nil =>
      refine ⟨readItems_resumes (fun _ hs => absurd hs List.not_mem_nil) hfit, ?_⟩
      intro x k m b tail _hx _hat _hm _hpre hlt
      exact absurd hlt (Nat.not_lt_zero _)
  | cons s ss ih =>
      rw [Spelling.valueAll] at hfit hunit ⊢
      rw [KVal.unitAll, Nat.max_le] at hunit
      rw [Spelling.bytesAll, KVal.objAll, KVal.ProgressAll, s.respelled.left]
      have hhead := readElem_tight (h s List.mem_cons_self) hfit.left hunit.left
      have htail := ih (fun t ht => h t (List.mem_cons_of_mem s ht)) hfit.right hunit.right
      exact (hhead.pair htail).map (g := fun p => p.1.toList ++ p.2)
        (fun p k b hp => readItems_pair ss.length hp b)

end Containers

theorem readSymbolVector_tight {unit : Nat} (attr : UInt8) (syms : List NulText)
    (hunit : max 6 (symsUnit syms) <= unit) :
    (Spelling.symbolVector attr syms).ReadTight unit := by
  rw [Spelling.ReadTight, Spelling.bytes, Spelling.value, KVal.obj]
  exact ((readSymbolVectorData_tight syms (by omega)).header
    (KVal.vecHdr .symbolVector attr syms.length) (KVal.vecHdr_length _ _ _)
    (by decide)).map
    (fun x k b _hx => KdbBase.read_symbolVector syms.length attr x.1 x.2 b)

theorem readList_tight {unit : Nat} (attr : UInt8) {parts : List Spelling}
    (h : forall s, s ∈ parts -> s.ReadTight unit)
    (hfit : KVal.CountsFitAll (Spelling.valueAll parts))
    (hunit : KVal.unitAll (Spelling.valueAll parts) <= unit) :
    (Spelling.list attr parts).ReadTight unit := by
  rw [Spelling.ReadTight, Spelling.bytes, Spelling.value, KVal.obj, KVal.Progress,
    KVal.newObj, Spelling.valueAll_length]
  exact ((readItems_tight h hfit hunit).header (KVal.vecHdr .list attr parts.length)
    (KVal.vecHdr_length _ _ _) (by decide)).map
    (fun x k b _hx => KdbBase.read_list parts.length attr x b)

theorem Spelling.unit_le_of_mem {unit : Nat} {ss : List Spelling}
    (h : KVal.unitAll (valueAll ss) <= unit) : forall s, s ∈ ss -> s.value.unit <= unit := by
  induction ss with
  | nil =>
      intro s hs
      cases hs
  | cons t ss ih =>
      rw [valueAll, KVal.unitAll, Nat.max_le] at h
      intro s hs
      rcases List.mem_cons.mp hs with rfl | htail
      · exact h.left
      · exact ih h.right s htail

theorem Spelling.read_tight {unit : Nat} (s : Spelling) :
    s.value.CountsFit -> s.value.unit <= unit -> s.ReadTight unit := by
  induction s with
  | exception msg =>
      intro _hfit hunit
      rw [ReadTight, value, KVal.Progress, KVal.obj]
      exact ((Tight.whole (readTextData_resumes msg) rfl hunit).header [KdbType.exception.i8] rfl
        (by decide)).map (fun x k b _hx => KdbBase.read_exception x b)
  | atom e val =>
      intro _hfit hunit
      have hwhole := Tight.whole (readIntAtomData_resumes e val)
        (wordBytes_length e.width val) hunit
      rw [ReadTight, value, KVal.Progress, KVal.obj]
      exact (hwhole.header [e.atomTyp.i8] rfl
        Nat.one_pos).map (fun x k b _hx => KdbBase.read_atom e x b)
  | symbolAtom val =>
      intro _hfit hunit
      rw [ReadTight, value, KVal.Progress, KVal.obj]
      exact ((Tight.whole (readTextData_resumes val) rfl hunit).header
        [KdbType.symbolAtom.i8] rfl (by decide)).map
        (fun x k b _hx => KdbBase.read_symbolAtom x b)
  | list attr parts ih =>
      intro hfit hunit
      rw [value, KVal.CountsFit] at hfit
      rw [value, KVal.unit, Nat.max_le] at hunit
      exact readList_tight attr
        (fun s hs => ih s hs (countsFit_of_mem hfit.right s hs)
          (unit_le_of_mem hunit.right s hs)) hfit.right hunit.right
  | vector e attr vec =>
      intro _hfit hunit
      rw [value, KVal.unit] at hunit
      have helem : vec ≠ [] -> e.width <= unit := by
        intro hne
        rw [if_neg hne] at hunit
        omega
      rw [ReadTight, value, KVal.Progress, KVal.obj, bytes]
      exact ((readIntVectorData_tight e.width_pos vec helem).header
        (KVal.vecHdr e.vectorTyp attr vec.length) (KVal.vecHdr_length _ _ _)
        (by decide)).map (fun x k b _hx => KdbBase.read_vector e vec.length attr x b)
  | symbolVector attr syms =>
      intro _hfit hunit
      exact readSymbolVector_tight attr syms hunit
  | table attr typ colsAttr cols valsAttr parts ih =>
      intro hfit hunit
      rw [value, KVal.CountsFit] at hfit
      rw [value, KVal.unit, Nat.max_le] at hunit
      have hvalsUnit := (Nat.max_le.mp hunit.right).right
      have hcols := readSymbolVector_tight colsAttr cols hunit.left
      have hvals := readList_tight valsAttr
        (fun s hs => ih s hs (countsFit_of_mem hfit.right.right s hs)
          (unit_le_of_mem hvalsUnit s hs)) hfit.right.right hvalsUnit
      have hhdr : [KdbType.table.i8, attr, typ].length = 3 := rfl
      have hparts := @readParts_tight unit (.symbolVector colsAttr cols)
        (.list valsAttr parts) (fun t => t == .symbolVector) (fun t => t == .list)
        [KdbType.table.i8, attr, typ] 3 hhdr (by decide) hcols hvals hfit.left hfit.right
        hunit.left hunit.right rfl rfl
      rw [ReadTight, value, KVal.progress_table, KVal.obj]
      exact hparts.map (fun x k b _hx => KdbBase.read_table x.1 x.2 b)
  | dict step keys vals ihk ihv =>
      intro hfit hunit
      rw [value, KVal.CountsFit] at hfit
      rw [value, KVal.unit, Nat.max_le] at hunit
      have hparts := readParts_tight
        [if step = true then KdbType.stepDict.i8 else KdbType.dict.i8] rfl Nat.one_pos
        (ihk hfit.left hunit.left) (ihv hfit.right hunit.right) hfit.left hfit.right
        hunit.left hunit.right (p := fun _ => true) (q := fun _ => true) rfl rfl
      rw [ReadTight, value, KVal.Progress, KVal.obj, bytes]
      exact hparts.map (fun x k b _hx => KdbBase.read_dict x.1 x.2 b)
  | function ctx attr text =>
      intro _hfit hunit
      rw [value, KVal.unit] at hunit
      rw [ReadTight, value, KVal.Progress, KVal.obj, bytes]
      exact ((readFunctionText_tight text (by omega)).header
        (KdbType.function.i8 :: ctx :: KVal.vecHdr .charVector attr text.length)
        (by simp) (by decide)).map
        (fun x k b _hx => KdbBase.read_function text.length x b)
  | primitive arity val =>
      intro _hfit hunit
      rw [ReadTight, value, KVal.Progress, KVal.obj]
      exact ((Tight.whole (readPrimitiveData_resumes val) rfl hunit).header [arity.typ.i8] rfl
        Nat.one_pos).map (fun x k b _hx => KdbBase.read_primitive arity x b)
  | projection parts ih =>
      intro hfit hunit
      rw [value, KVal.CountsFit] at hfit
      rw [value, KVal.unit, Nat.max_le] at hunit
      rw [ReadTight, value, KVal.Progress, KVal.obj, bytes, KVal.newObj, valueAll_length]
      exact ((readItems_tight
        (fun s hs => ih s hs (countsFit_of_mem hfit.right s hs)
          (unit_le_of_mem hunit.right s hs))
        hfit.right hunit.right).header (KVal.projectionHdr parts.length)
        (KVal.projectionHdr_length _) (by decide)).map
        (fun x k b _hx => KdbBase.read_projection parts.length x b)

theorem Spelling.slot_tight {unit : Nat} (s : Spelling) (hfit : s.value.CountsFit)
    (hunit : s.value.unit <= unit) :
    Tight unit s.bytes none (some s.value.obj) (Slot s.value.Progress) 0 readElem :=
  readElem_tight (s.read_tight hfit hunit) hfit hunit

/-!
## One call
-/

namespace KdbIpcMessageReader

theorem readMsgData1_buf (r : KdbIpcMessageReader) (b : ReadBuf) (result : ReadMsgResult) :
    (readMsgData1 r b result).2.2 = (readElem r.msg b).2.2 := by
  unfold readMsgData1
  cases r.msg with
  | some o =>
      simp only [allocMsg, readElem]
      rcases o.read b with ⟨rr, o', b2⟩
      cases rr <;> rfl
  | none =>
      simp only [allocMsg, readElem]
      rcases newInstance b with ⟨rr | o, b1⟩
      · cases rr <;> rfl
      · simp only
        rcases o.read b1 with ⟨rr, o', b2⟩
        cases rr <;> rfl

theorem readMsgBody_more {s : Spelling} (hfit : s.value.CountsFit) {unit : Nat}
    (hunit : s.value.unit <= unit) {r : KdbIpcMessageReader} (hr : Reading s r) {b : ReadBuf}
    {tail : List UInt8} (hat : b.At r.bytDez 0 0)
    (hpre : b.rest <+: s.bytes.drop r.bytDez ++ tail)
    (hlt : r.bytDez + b.remaining < s.bytes.length) (result : ReadMsgResult) :
    exists x k', Slot s.value.Progress x k' ∧ r.bytDez <= k' ∧ k' <= r.bytDez + b.remaining ∧
      r.bytDez + b.remaining < k' + unit ∧
      readMsgBody r b result =
        ((false, { result with result := .incomplete }), r.at' x k') := by
  have htight := s.slot_tight hfit hunit
  have hused := hr.used
  have hout := htight.resumes.resume hr.held hat (Or.inl rfl) hpre
  have hleft := htight.leaves hr.held hat (Or.inl rfl) hpre hlt
  rcases readMsgData1_of_resumed result hout with
    ⟨hroom, _⟩ | ⟨_, x, k', hx, hk, hk', hdata⟩
  · omega
  · have hbuf := readMsgData1_buf r b result
    rw [hdata] at hbuf
    rw [← hbuf, ReadBuf.remaining, ReadBuf.advance_rest, List.length_drop,
      ← ReadBuf.remaining] at hleft
    refine ⟨x, k', hx, hk, hk', by omega, ?_⟩
    unfold readMsgBody readMsgData
    rw [if_pos hr.plain]
    simp only [hdata, ReadBuf.advance_off, at', Prod.mk.injEq,
      KdbIpcMessageReader.mk.injEq, true_and, and_true]
    omega

end KdbIpcMessageReader

end MgKdb
