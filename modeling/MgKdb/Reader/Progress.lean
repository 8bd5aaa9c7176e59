import MgKdb.Reader.Allocation

/-!
# Progress of a reader in a value

What an object holds while a value is being read into it, for every class, and
the proof that every `read` resumes.
-/

namespace MgKdb

open Foundation

namespace KVal

/-!
## Progress
-/

def VecProgress (w : Nat) (vec : List (BitVec (8 * w))) :
    List (BitVec (8 * w)) -> Nat -> Prop :=
  fun x k => exists i, i <= vec.length ∧ x = vec.take i ∧ k = w * i

def SymsProgress (syms : List NulText) : List LocInfo × List UInt8 -> Nat -> Prop :=
  fun x k => exists i, i <= syms.length ∧
    x = (locsFrom 0 (syms.take i), symsBytes (syms.take i)) ∧
    k = (symsBytes (syms.take i)).length

def TextProgress (text : List UInt8) : List UInt8 -> Nat -> Prop :=
  fun x k => exists i, i <= text.length ∧ x = text.take i ∧ k = i

def SymbolVectorProgress (attr : UInt8) (syms : List NulText) :
    KdbBase -> Nat -> Prop :=
  Image (fun p => .symbolVector syms.length attr p.1 p.2)
    (After 6 (SymsProgress syms))

mutual

/--
`Progress v o k`: the object `o`, into which the value `v` is
being read, holds the first `k` bytes of its encoding.
-/
def Progress : KVal -> KdbBase -> Nat -> Prop
  | exception msg =>
      Image .exception (After 1 (Whole [] msg.text msg.bytes.length))
  | atom e val => Image (.atom e) (After 1 (Whole 0 val e.width))
  | symbolAtom val =>
      Image .symbolAtom (After 1 (Whole [] val.text val.bytes.length))
  | list attr vals => Image (.list vals.length attr) (After 6 (ProgressAll vals))
  | vector e attr vec =>
      Image (.vector e vec.length attr) (After 6 (VecProgress e.width vec))
  | symbolVector attr syms => SymbolVectorProgress attr syms
  | table colsAttr cols valsAttr vals =>
      Image (fun p => .table p.1 p.2)
        (After 3 (Pair (Slot (SymbolVectorProgress colsAttr cols))
          (encode (.symbolVector colsAttr cols)).length
          (some (obj (.symbolVector colsAttr cols))) none
          (Slot (Image (.list vals.length valsAttr) (After 6 (ProgressAll vals))))))
  | dict keys vals =>
      Image (fun p => .dict p.1 p.2)
        (After 1 (Pair (Slot (Progress keys)) (encode keys).length
          (some (obj keys)) none (Slot (Progress vals))))
  | function text =>
      Image (.function text.length) (After 8 (TextProgress text))
  | primitive arity val => Image (.primitive arity) (After 1 (Whole 0 val 1))
  | projection parts =>
      Image (.projection parts.length) (After 5 (ProgressAll parts))

/-- Progress in the elements of a container: only the last one may be half read. -/
def ProgressAll : List KVal -> List KdbBase -> Nat -> Prop
  | [] => Whole [] [] 0
  | v :: vs =>
      Image (fun p => p.1.toList ++ p.2)
        (Pair (Slot (Progress v)) (encode v).length (some (obj v)) []
          (ProgressAll vs))

end

theorem progress_table (colsAttr valsAttr : UInt8) (cols : List NulText)
    (vals : List KVal) :
    Progress (.table colsAttr cols valsAttr vals) =
      Image (fun p => .table p.1 p.2)
        (After 3 (Pair (Slot (Progress (.symbolVector colsAttr cols)))
          (encode (.symbolVector colsAttr cols)).length
          (some (obj (.symbolVector colsAttr cols))) none
          (Slot (Progress (.list valsAttr vals))))) := by
  simp only [Progress]

end KVal

/-!
## The classes without parts
-/

theorem readTextData_resumes (s : NulText) :
    Resumes s.bytes [] s.text (Whole [] s.text s.bytes.length) 0 readTextData := by
  refine Resumes.whole (by simp) ?_ ?_
  · intro b hcsr
    rw [readTextData, ReadBuf.cursorActive_of_neg hcsr, NulText.bytes_length]
    rfl
  · intro b tail hcsr hpre
    have hscan : strnlen b.rest b.remaining = min s.text.length b.remaining :=
      s.strnlen_of_front hpre
    rw [readTextData, ReadBuf.cursorActive_of_nonneg hcsr, if_pos rfl,
      ReadBuf.readSym, hscan, NulText.bytes_length]
    by_cases hle : s.text.length + 1 <= b.remaining
    · have hmin : min s.text.length b.remaining = s.text.length := by omega
      rw [if_pos (by omega), if_neg (by omega), if_pos hle, hmin,
        s.take_of_front hpre (by unfold ReadBuf.remaining at hle; omega)]
    · rw [if_neg hle]
      by_cases hpos : 0 < b.remaining
      · rw [if_pos hpos, if_pos (by omega)]
      · rw [if_neg hpos]

theorem readIntAtomData_resumes (e : Elem) (val : BitVec (8 * e.width)) :
    Resumes (wordBytes e.width val) 0 val (Whole 0 val e.width) 0
      (readIntAtomData e) := by
  have hwhole : Resumes (wordBytes e.width val) 0 val
      (Whole 0 val (wordBytes e.width val).length) 0 (readIntAtomData e) := by
    refine Resumes.whole (by rw [wordBytes_length]; exact e.width_pos) ?_ ?_
    · intro b hcsr
      rw [readIntAtomData, ReadBuf.cursorActive_of_neg hcsr, wordBytes_length]
      rfl
    · intro b tail hcsr hpre
      rw [readIntAtomData, ReadBuf.cursorActive_of_nonneg hcsr, if_pos rfl,
        wordBytes_length]
      by_cases hle : e.width <= b.remaining
      · rw [if_neg (by omega), if_pos hle, ReadBuf.readWord,
          wordAt_of_front hle hpre]
      · rw [if_pos (by omega), if_neg hle]
  rwa [wordBytes_length] at hwhole

theorem readPrimitiveData_resumes (val : UInt8) :
    Resumes [val] 0 val (Whole 0 val 1) 0 readPrimitiveData := by
  refine Resumes.whole (by simp) ?_ ?_
  · intro b hcsr
    rw [readPrimitiveData, ReadBuf.cursorActive_of_neg hcsr]
    rfl
  · intro b tail hcsr hpre
    rw [readPrimitiveData, ReadBuf.cursorActive_of_nonneg hcsr, if_pos rfl,
      List.length_singleton]
    by_cases hle : 1 <= b.remaining
    · rw [if_neg (by rw [ReadBuf.canRead_eq]; omega), if_pos hle,
        ReadBuf.readI8_fst, ReadBuf.readI8_snd, ReadBuf.peekI8_of_front hle hpre]
    · rw [if_pos (by rw [ReadBuf.canRead_eq]; omega), if_neg hle]

theorem readIntVectorData_eq {w cap q : Nat} {vec : List (BitVec (8 * w))}
    {b : ReadBuf} (hlen : vec.length <= cap) (hq : b.remaining / w = q) :
    readIntVectorData w cap vec b =
      (if cap - vec.length <= q then .ok else .incomplete,
        vec ++ wordsAt w (min (cap - vec.length) q) b.rest,
        (b.ffwd (w * vec.length)).adj (w * min (cap - vec.length) q)) := by
  have hrem : (b.ffwd (w * vec.length)).remaining / w = q := hq
  unfold readIntVectorData
  simp only
  rw [hrem]
  by_cases hfull : vec.length = cap
  · rw [if_pos hfull, if_pos (by omega), hfull, Nat.sub_self, Nat.zero_min,
      Nat.mul_zero, ReadBuf.adj_zero, wordsAt, List.append_nil]
  · rw [if_neg hfull]
    by_cases hpos : 0 < min (cap - vec.length) q
    · have hroom : w * min (cap - vec.length) q <= b.remaining :=
        Nat.le_trans (Nat.mul_le_mul_left w (Nat.min_le_right _ _))
          (hq ▸ Nat.mul_div_le b.remaining w)
      have hvec : (b.ffwd (w * vec.length)).readVec w (min (cap - vec.length) q) =
          ((min (cap - vec.length) q,
              wordsAt w (min (cap - vec.length) q) b.rest),
            (b.ffwd (w * vec.length)).adj (w * min (cap - vec.length) q)) := by
        rw [ReadBuf.readVec, if_neg (by rw [ReadBuf.ffwd_remaining]; omega),
          ReadBuf.ffwd_rest]
      rw [if_pos hpos, hvec]
      simp only [ne_eq, not_true_eq_false, if_false, List.length_append,
        wordsAt_length]
      by_cases hall : cap - vec.length <= q
      · rw [if_pos (by omega), if_pos hall]
      · rw [if_neg (by omega), if_neg hall]
    · have hzero : min (cap - vec.length) q = 0 := by omega
      rw [if_neg hpos, if_neg (by omega), if_neg (by omega), hzero, Nat.mul_zero,
        ReadBuf.adj_zero, wordsAt, List.append_nil]

theorem readIntVectorData_resumes {w : Nat} (hw : 0 < w)
    (vec : List (BitVec (8 * w))) :
    Resumes (wordsBytes w vec) [] vec (KVal.VecProgress w vec) 0
      (readIntVectorData w vec.length) where
  fresh := ⟨0, Nat.zero_le _, rfl, rfl⟩
  full := ⟨vec.length, Nat.le_refl _, by rw [List.take_length],
    wordsBytes_length w vec⟩
  new_le := fun _ => Nat.zero_le _
  le := by
    rintro x k ⟨i, hi, rfl, rfl⟩
    rw [wordsBytes_length]
    exact Nat.mul_le_mul_left w hi
  resume := by
    rintro x k m b tail ⟨i, hi, rfl, rfl⟩ hat _hm hpre
    have hlen : (vec.take i).length = i := by
      rw [List.length_take]
      omega
    rw [wordsBytes_drop] at hpre
    obtain ⟨q, hq⟩ : exists q, b.remaining / w = q := ⟨_, rfl⟩
    rw [readIntVectorData_eq (by omega) hq, hlen, ReadBuf.at_ffwd hat,
      ReadBuf.advance_adj, Nat.zero_add, wordsBytes_length]
    -- elm more elements are there
    generalize helm : min (vec.length - i) q = elm
    have hroom : w * elm <= b.remaining := by
      rw [← helm]
      exact Nat.le_trans (Nat.mul_le_mul_left w (Nat.min_le_right _ _))
        (hq ▸ Nat.mul_div_le b.remaining w)
    have hwords : vec.take i ++ wordsAt w elm b.rest = vec.take (i + elm) := by
      rw [wordsAt_of_front (by rw [List.length_drop]; omega) hroom hpre,
        List.take_add]
    have hsum : w * i + w * elm = w * (i + elm) := (Nat.mul_add w i elm).symm
    rw [hwords]
    by_cases hall : vec.length - i <= q
    · have hlast : i + elm = vec.length := by omega
      rw [hlast] at hsum
      rw [if_pos hall, hlast, List.take_length,
        show w * elm = w * vec.length - w * i by omega]
      exact .done (by omega)
    · have hmore : b.remaining < (vec.length - i) * w := by
        rw [← Nat.div_lt_iff_lt_mul hw, hq]
        omega
      rw [Nat.mul_comm, Nat.mul_sub] at hmore
      rw [if_neg hall, show w * elm = w * (i + elm) - w * i by omega]
      exact .short _ _ ⟨i + elm, by omega, rfl, rfl⟩ (by omega) (by omega)
        (by omega)

theorem readFunctionText_eq {cap : Nat} {vec : List UInt8}
    (hlen : vec.length <= cap) (b : ReadBuf) :
    readFunctionText cap vec b =
      (if cap - vec.length <= b.remaining then .ok else .incomplete,
        vec ++ b.rest.take (min (cap - vec.length) b.remaining),
        (b.ffwd vec.length).adj (min (cap - vec.length) b.remaining)) := by
  unfold readFunctionText
  simp only
  rw [ReadBuf.ffwd_remaining, ReadBuf.ffwd_rest]
  by_cases hfull : vec.length = cap
  · rw [if_pos hfull, if_pos (by omega), hfull, Nat.sub_self, Nat.zero_min,
      ReadBuf.adj_zero, List.take_zero, List.append_nil]
  · rw [if_neg hfull]
    by_cases hpos : 0 < min (cap - vec.length) b.remaining
    · rw [if_pos hpos]
      by_cases hall : cap - vec.length <= b.remaining
      · rw [if_pos (by omega), if_pos hall]
      · rw [if_neg (by omega), if_neg hall]
    · have hzero : min (cap - vec.length) b.remaining = 0 := by omega
      rw [if_neg hpos, if_neg (by omega), hzero, ReadBuf.adj_zero, List.take_zero,
        List.append_nil]

theorem readFunctionText_resumes (text : List UInt8) :
    Resumes text [] text (KVal.TextProgress text) 0
      (readFunctionText text.length) where
  fresh := ⟨0, Nat.zero_le _, rfl, rfl⟩
  full := ⟨text.length, Nat.le_refl _, by rw [List.take_length], rfl⟩
  new_le := fun _ => Nat.zero_le _
  le := by
    rintro x k ⟨i, hi, rfl, rfl⟩
    exact hi
  resume := by
    rintro x k m b tail ⟨i, hi, rfl, rfl⟩ hat _hm hpre
    have hlen : (text.take k).length = k := by
      rw [List.length_take]
      omega
    rw [readFunctionText_eq (by omega), hlen, ReadBuf.at_ffwd hat,
      ReadBuf.advance_adj, Nat.zero_add]
    generalize helm : min (text.length - k) b.remaining = elm
    have htake : text.take k ++ b.rest.take elm = text.take (k + elm) := by
      rw [List.take_add]
      congr 1
      rcases hpre with ⟨suffix, hs⟩
      have hroom : elm <= b.rest.length := by
        unfold ReadBuf.remaining at helm
        omega
      have hfront : (b.rest ++ suffix).take elm = b.rest.take elm :=
        List.take_append_of_le_length hroom
      rw [← hfront, hs,
        List.take_append_of_le_length (by rw [List.length_drop]; omega)]
    rw [htake]
    by_cases hall : text.length - k <= b.remaining
    · rw [if_pos hall, show k + elm = text.length by omega, List.take_length,
        show elm = text.length - k by omega]
      exact .done (by omega)
    · rw [if_neg hall]
      have hshort : Resumed text.length text (KVal.TextProgress text) k b
          (.incomplete, text.take (k + elm), b.advance k (k + elm - k)) :=
        .short _ _ ⟨k + elm, by omega, rfl, rfl⟩ (by omega) (by omega) (by omega)
      rwa [Nat.add_sub_cancel_left] at hshort

theorem readSymsLoop_of_front (syms : List NulText) :
    forall (locs : List LocInfo) (data : List UInt8) {b : ReadBuf}
      {tail : List UInt8},
      b.rest <+: KVal.symsBytes syms ++ tail ->
      exists j, j <= syms.length ∧
        (KVal.symsBytes (syms.take j)).length <= b.remaining ∧
        ((KVal.symsBytes syms).length <= b.remaining -> j = syms.length) ∧
        b.readSymsLoop syms.length locs data =
          (if (KVal.symsBytes syms).length <= b.remaining then .ok
            else .incomplete,
            (locs ++ locsFrom data.length (syms.take j),
              data ++ KVal.symsBytes (syms.take j)),
            b.adj (KVal.symsBytes (syms.take j)).length) := by
  induction syms with
  | nil =>
      intro locs data b tail _hpre
      refine ⟨0, Nat.le_refl _, Nat.zero_le _, fun _ => rfl, ?_⟩
      simp [ReadBuf.readSymsLoop, locsFrom, ReadBuf.adj_zero]
  | cons s syms ih =>
      intro locs data b tail hpre
      rw [KVal.symsBytes_cons, List.append_assoc] at hpre
      have hscan : strnlen b.rest b.remaining = min s.text.length b.remaining :=
        s.strnlen_of_front hpre
      rw [List.length_cons, ReadBuf.readSymsLoop, hscan]
      by_cases hle : s.text.length + 1 <= b.remaining
      · -- the symbol is there: take it and go on with the rest
        have hmin : min s.text.length b.remaining = s.text.length := by omega
        have htake : b.rest.take (s.text.length + 1) = s.bytes := by
          rw [← s.bytes_length]
          exact take_of_front hpre (by rw [s.bytes_length]; exact hle)
        have hrest : (b.adj (s.text.length + 1)).rest <+:
            KVal.symsBytes syms ++ tail := by
          have hdrop := hpre.drop s.bytes.length
          rwa [List.drop_left, s.bytes_length] at hdrop
        rcases ih (locs ++
            [⟨UInt32.ofNat data.length, UInt32.ofNat (s.text.length + 1)⟩])
            (data ++ s.bytes) hrest with ⟨j, hj, hroom, hall, hloop⟩
        rw [ReadBuf.adj_remaining] at hroom hall hloop
        rw [if_neg (by omega), hmin, htake, hloop]
        have hlen : (KVal.symsBytes (s :: syms)).length =
            s.text.length + 1 + (KVal.symsBytes syms).length := by
          rw [KVal.symsBytes_cons, List.length_append, s.bytes_length]
        have hlenj : (KVal.symsBytes ((s :: syms).take (j + 1))).length =
            s.text.length + 1 + (KVal.symsBytes (syms.take j)).length := by
          rw [List.take_succ_cons, KVal.symsBytes_cons, List.length_append,
            s.bytes_length]
        refine ⟨j + 1, by simpa using hj, by omega, ?_, ?_⟩
        · intro hfits
          rw [hall (by omega)]
        · rw [hlen, hlenj, ReadBuf.adj_adj, List.take_succ_cons, locsFrom,
            KVal.symsBytes_cons, List.append_assoc, List.append_assoc,
            List.length_append, List.singleton_append]
          by_cases hfits : (KVal.symsBytes syms).length <=
              b.remaining - (s.text.length + 1)
          · rw [if_pos hfits, if_pos (by omega)]
          · rw [if_neg hfits, if_neg (by omega)]
      · -- the symbol is not there completely: nothing is taken
        have hmore : ¬ (KVal.symsBytes (s :: syms)).length <= b.remaining := by
          rw [KVal.symsBytes_cons, List.length_append, s.bytes_length]
          omega
        refine ⟨0, Nat.zero_le _, Nat.zero_le _, fun hfits => absurd hfits hmore, ?_⟩
        rw [if_pos (by omega), if_neg hmore]
        simp [locsFrom, ReadBuf.adj_zero]

theorem readSyms_eq {rqd : Nat} (hrqd : 0 < rqd) (locs : List LocInfo)
    (data : List UInt8) (b : ReadBuf) :
    b.readSyms rqd locs data = b.readSymsLoop rqd locs data := by
  unfold ReadBuf.readSyms
  by_cases hpos : 0 < b.remaining
  · rw [if_pos hpos]
  · rw [if_neg hpos]
    have hzero : b.remaining = 0 := by omega
    cases rqd with
    | zero => omega
    | succ n =>
        rw [ReadBuf.readSymsLoop, if_pos]
        rw [hzero]
        rfl

theorem readSymbolVectorData_resumes (syms : List NulText) :
    Resumes (KVal.symsBytes syms) ([], []) (locsFrom 0 syms, KVal.symsBytes syms)
      (KVal.SymsProgress syms) 0
      (fun p b => readSymbolVectorData syms.length p.1 p.2 b) where
  fresh := ⟨0, Nat.zero_le _, rfl, rfl⟩
  full := ⟨syms.length, Nat.le_refl _, by rw [List.take_length],
    by rw [List.take_length]⟩
  new_le := fun _ => Nat.zero_le _
  le := by
    rintro x k ⟨i, hi, _hx, rfl⟩
    have hsplit := KVal.symsBytes_append (syms.take i) (syms.drop i)
    rw [List.take_append_drop] at hsplit
    rw [hsplit, List.length_append]
    omega
  resume := by
    rintro x k m b tail ⟨i, hi, rfl, rfl⟩ hat _hm hpre
    have hlocs : (locsFrom 0 (syms.take i)).length = i := by
      rw [locsFrom_length, List.length_take]
      omega
    have hsplit := KVal.symsBytes_append (syms.take i) (syms.drop i)
    rw [List.take_append_drop] at hsplit
    have hsize : (KVal.symsBytes syms).length =
        (KVal.symsBytes (syms.take i)).length +
          (KVal.symsBytes (syms.drop i)).length := by
      rw [hsplit, List.length_append]
    rw [readSymbolVectorData, hlocs, ReadBuf.at_ffwd hat]
    by_cases hfull : i = syms.length
    · rw [if_pos hfull, hfull, List.take_length]
      exact Resumed.pass
    · have hrest : (b.advance (KVal.symsBytes (syms.take i)).length 0).rest <+:
          KVal.symsBytes (syms.drop i) ++ tail := by
        rw [hsplit, List.drop_left] at hpre
        rwa [ReadBuf.advance_rest, List.drop_zero]
      rcases readSymsLoop_of_front (syms.drop i) (locsFrom 0 (syms.take i))
          (KVal.symsBytes (syms.take i)) hrest with ⟨j, hj, hroom, hall, hloop⟩
      have hrem : (b.advance (KVal.symsBytes (syms.take i)).length 0).remaining =
          b.remaining := by
        simp [ReadBuf.remaining]
      have htake : KVal.symsBytes (syms.take (i + j)) =
          KVal.symsBytes (syms.take i) ++ KVal.symsBytes ((syms.drop i).take j) := by
        rw [List.take_add, KVal.symsBytes_append]
      have hindex : locsFrom 0 (syms.take (i + j)) =
          locsFrom 0 (syms.take i) ++
            locsFrom (KVal.symsBytes (syms.take i)).length
              ((syms.drop i).take j) := by
        rw [List.take_add, locsFrom_append, Nat.zero_add]
      rw [List.length_drop] at hj hall hloop
      rw [hrem] at hroom hall hloop
      rw [if_neg hfull, readSyms_eq (by omega), hloop, ReadBuf.advance_adj,
        Nat.zero_add, ← hindex, ← htake]
      have hlen : (KVal.symsBytes (syms.take (i + j))).length =
          (KVal.symsBytes (syms.take i)).length +
            (KVal.symsBytes ((syms.drop i).take j)).length := by
        rw [htake, List.length_append]
      by_cases hfits : (KVal.symsBytes (syms.drop i)).length <= b.remaining
      · have hlast : i + j = syms.length := by
          have hj' := hall hfits
          omega
        rw [hlast, List.take_length] at hlen ⊢
        rw [if_pos hfits, show (KVal.symsBytes ((syms.drop i).take j)).length =
          (KVal.symsBytes syms).length - (KVal.symsBytes (syms.take i)).length
          by omega]
        exact .done (by omega)
      · rw [if_neg hfits, show (KVal.symsBytes ((syms.drop i).take j)).length =
          (KVal.symsBytes (syms.take (i + j))).length -
            (KVal.symsBytes (syms.take i)).length by omega]
        exact .short _ _ ⟨i + j, by omega, rfl, rfl⟩ (by omega) (by omega)
          (by omega)

/-!
## The containers
-/

theorem newInstance_then {s : Spelling} {b : ReadBuf} {tail : List UInt8}
    {rs : ReadOut (Option KdbBase)} {rd : KdbBase -> ReadBuf -> ReadOut KdbBase}
    (hcsr : 0 <= b.csr) (hfit : s.value.CountsFit) (hpre : b.rest <+: s.bytes ++ tail)
    (herror : forall rr b1, newInstance b = (.error rr, b1) -> rs = (rr, none, b1))
    (hok : forall o b1, newInstance b = (.ok o, b1) -> o.typ = s.value.obj.typ ->
      rs = ((rd o b1).1, some (rd o b1).2.1, (rd o b1).2.2)) :
    rs =
      if s.value.newBytes <= b.remaining then
        ((rd s.value.newObj (b.adj s.value.newBytes)).1,
          some (rd s.value.newObj (b.adj s.value.newBytes)).2.1,
          (rd s.value.newObj (b.adj s.value.newBytes)).2.2)
      else (.incomplete, none, b) := by
  have hnew := newInstance_of_spelling hcsr hfit hpre
  by_cases hle : s.value.newBytes <= b.remaining
  · rw [if_pos hle] at hnew ⊢
    exact hok _ _ hnew s.value.newObj_typ
  · rw [if_neg hle] at hnew ⊢
    exact herror _ _ hnew

/-- `read` resumes on the bytes of a spelling. -/
def Spelling.ReadResumes (s : Spelling) : Prop :=
  Resumes s.bytes s.value.newObj s.value.obj s.value.Progress s.value.newBytes KdbBase.read

section Containers

variable {s : Spelling}

theorem readPart_alloc {accepts : KdbType -> Bool} (hfit : s.value.CountsFit)
    (haccepts : accepts s.value.obj.typ = true) (b : ReadBuf) (tail : List UInt8)
    (hcsr : 0 <= b.csr) (hpre : b.rest <+: s.bytes ++ tail) :
    readPart KdbBase.read accepts none b =
      if s.value.newBytes <= b.remaining then
        ((s.value.newObj.read (b.adj s.value.newBytes)).1,
          some (s.value.newObj.read (b.adj s.value.newBytes)).2.1,
          (s.value.newObj.read (b.adj s.value.newBytes)).2.2)
      else (.incomplete, none, b) := by
  refine newInstance_then hcsr hfit hpre ?_ ?_
  · intro rr b1 hnew
    rw [readPart, ReadBuf.cursorActive_of_nonneg hcsr, if_pos rfl, hnew]
  · intro o b1 hnew htyp
    rw [readPart, ReadBuf.cursorActive_of_nonneg hcsr, if_pos rfl, hnew]
    simp only [htyp, haccepts, if_true]

theorem readPart_held (accepts : KdbType -> Bool) (o : KdbBase) (b : ReadBuf)
    (hcsr : b.csr < 0) : readPart KdbBase.read accepts (some o) b =
      ((o.read b).1, some (o.read b).2.1, (o.read b).2.2) := by
  rw [readPart, ReadBuf.cursorActive_of_neg hcsr]
  rfl

theorem readPart_resumes {accepts : KdbType -> Bool} (h : s.ReadResumes)
    (hfit : s.value.CountsFit) (haccepts : accepts s.value.obj.typ = true) :
    Resumes s.bytes none (some s.value.obj) (Slot s.value.Progress) 0
      (readPart KdbBase.read accepts) :=
  Resumes.slot h s.value.newBytes_pos (readPart_alloc hfit haccepts)
    (readPart_held accepts)

theorem readParts_eq (hdr : Nat) (p q : KdbType -> Bool) (fst snd : Option KdbBase)
    (b : ReadBuf) :
    readParts KdbBase.read hdr p q fst snd b =
      (readPart KdbBase.read p fst (b.skipHdr hdr)).andThen snd
        (readPart KdbBase.read q) := by
  rw [readParts]
  rcases readPart KdbBase.read p fst (b.skipHdr hdr) with ⟨rr, fst', b1⟩
  cases rr <;> rfl

theorem readParts_resumes {s' : Spelling} {p q : KdbType -> Bool} (hdr : List UInt8)
    {n : Nat} (hn : hdr.length = n) (hpos : 0 < n) (hs : s.ReadResumes)
    (hs' : s'.ReadResumes) (hfit : s.value.CountsFit) (hfit' : s'.value.CountsFit)
    (hp : p s.value.obj.typ = true) (hq : q s'.value.obj.typ = true) :
    Resumes (hdr ++ (s.bytes ++ s'.bytes)) (none, none)
      (some s.value.obj, some s'.value.obj)
      (After n (Pair (Slot s.value.Progress) s.value.encode.length (some s.value.obj) none
        (Slot s'.value.Progress))) n
      (fun x b => readParts KdbBase.read n p q x.1 x.2 b) := by
  have hparts := ((readPart_resumes hs hfit hp).pair
    (readPart_resumes hs' hfit' hq)).header hdr hn hpos
  have hrd : (fun (x : Option KdbBase × Option KdbBase) b =>
      readParts KdbBase.read n p q x.1 x.2 b) =
      fun x b => (readPart KdbBase.read p x.1 (b.skipHdr n)).andThen x.2
        (readPart KdbBase.read q) := by
    funext x b
    exact readParts_eq n p q x.1 x.2 b
  rw [hrd, s.respelled.left]
  exact hparts

def readElem : Option KdbBase -> ReadBuf -> ReadOut (Option KdbBase)
  | some o, b => ((o.read b).1, some (o.read b).2.1, (o.read b).2.2)
  | none, b =>
      match newInstance b with
      | (.error rr, b1) => (rr, none, b1)
      | (.ok o, b1) => ((o.read b1).1, some (o.read b1).2.1, (o.read b1).2.2)

theorem readElem_alloc (hfit : s.value.CountsFit) (b : ReadBuf) (tail : List UInt8)
    (hcsr : 0 <= b.csr) (hpre : b.rest <+: s.bytes ++ tail) :
    readElem none b =
      if s.value.newBytes <= b.remaining then
        ((s.value.newObj.read (b.adj s.value.newBytes)).1,
          some (s.value.newObj.read (b.adj s.value.newBytes)).2.1,
          (s.value.newObj.read (b.adj s.value.newBytes)).2.2)
      else (.incomplete, none, b) := by
  refine newInstance_then hcsr hfit hpre ?_ ?_
  · intro rr b1 hnew
    rw [readElem, hnew]
  · intro o b1 hnew _htyp
    rw [readElem, hnew]

theorem readElem_resumes (h : s.ReadResumes) (hfit : s.value.CountsFit) :
    Resumes s.bytes none (some s.value.obj) (Slot s.value.Progress) 0 readElem :=
  Resumes.slot h s.value.newBytes_pos (readElem_alloc hfit) (fun _o _b _hcsr => rfl)

theorem readItems_zero (b : ReadBuf) :
    readItems KdbBase.read 0 [] b = (.ok, [], b) := rfl

theorem readItems_succ (n : Nat) (elem : Option KdbBase) (os : List KdbBase)
    (helem : elem = none -> os = []) (b : ReadBuf) :
    readItems KdbBase.read (n + 1) (elem.toList ++ os) b =
      (((readElem elem b).andThen os (readItems KdbBase.read n)).1,
        ((readElem elem b).andThen os (readItems KdbBase.read n)).2.1.1.toList ++
          ((readElem elem b).andThen os (readItems KdbBase.read n)).2.1.2,
        ((readElem elem b).andThen os (readItems KdbBase.read n)).2.2) := by
  cases elem with
  | some o =>
      simp only [readItems, readElem, Option.toList_some, List.singleton_append,
        readVals, List.length_cons, Nat.add_sub_add_right]
      rcases hread : o.read b with ⟨rr, o', b1⟩
      cases rr with
      | ok =>
          simp only [ReadOut.andThen, readItems]
          rcases hvals : readVals KdbBase.read os b1 with ⟨rr, os', b2⟩
          cases rr <;> simp
      | _ => simp [ReadOut.andThen]
  | none =>
      rw [helem rfl]
      simp only [readItems, readElem, Option.toList_none, List.nil_append, readVals,
        readNew, List.length_nil, Nat.sub_zero]
      have hfails := (newInstance_allocates b).fails
      rcases hnew : newInstance b with ⟨rr | o, b1⟩
      · have hrr : rr ≠ .ok := hfails rr (by rw [hnew])
        cases rr <;> simp [ReadOut.andThen] at hrr ⊢
      · simp only
        rcases hread : o.read b1 with ⟨rr, o', b2⟩
        cases rr <;> simp [ReadOut.andThen, readItems, readVals]

theorem readItems_pair {P : Option KdbBase -> Nat -> Prop} {final : KdbBase} {size : Nat}
    {Q : List KdbBase -> Nat -> Prop} (n : Nat) {p : Option KdbBase × List KdbBase} {k : Nat}
    (hp : Pair P size (some final) [] Q p k) (b : ReadBuf) :
    readItems KdbBase.read (n + 1) (p.1.toList ++ p.2) b =
      (((readElem p.1 b).andThen p.2 (readItems KdbBase.read n)).1,
        ((readElem p.1 b).andThen p.2 (readItems KdbBase.read n)).2.1.1.toList ++
          ((readElem p.1 b).andThen p.2 (readItems KdbBase.read n)).2.1.2,
        ((readElem p.1 b).andThen p.2 (readItems KdbBase.read n)).2.2) := by
  refine readItems_succ n p.1 p.2 ?_ b
  intro hnone
  rcases hp with ⟨_, hos⟩ | ⟨j, _, hsome, _⟩
  · exact hos
  · rw [hnone] at hsome
    cases hsome

theorem readItems_resumes {ss : List Spelling} (h : forall s, s ∈ ss -> s.ReadResumes)
    (hfit : KVal.CountsFitAll (Spelling.valueAll ss)) :
    Resumes (Spelling.bytesAll ss) [] (KVal.objAll (Spelling.valueAll ss))
      (KVal.ProgressAll (Spelling.valueAll ss)) 0 (readItems KdbBase.read ss.length) := by
  induction ss with
  | nil =>
      rw [Spelling.bytesAll, Spelling.valueAll, KVal.objAll, KVal.ProgressAll]
      constructor
      · exact Or.inl ⟨rfl, rfl⟩
      · exact Or.inl ⟨rfl, rfl⟩
      · exact fun _ => Nat.zero_le _
      · rintro x k (⟨_, rfl⟩ | ⟨_, rfl⟩) <;> exact Nat.le_refl _
      · rintro x k m b tail hx hat _hm _hpre
        have hx' : x = [] ∧ k = 0 := by
          rcases hx with hx | hx <;> exact hx
        rcases hx' with ⟨rfl, rfl⟩
        have hpass : Resumed 0 ([] : List KdbBase) (Whole [] [] 0) 0 b
            (.ok, [], b.advance 0 0) := Resumed.pass
        rwa [← ReadBuf.at_ffwd hat, ReadBuf.ffwd_zero] at hpass
  | cons s ss ih =>
      rw [Spelling.valueAll] at hfit ⊢
      rw [Spelling.bytesAll, KVal.objAll, KVal.ProgressAll, s.respelled.left]
      have hhead := readElem_resumes (h s List.mem_cons_self) hfit.left
      have htail := ih (fun t ht => h t (List.mem_cons_of_mem s ht)) hfit.right
      exact (hhead.pair htail).map (g := fun p => p.1.toList ++ p.2)
        (fun p k b hp => readItems_pair ss.length hp b)

end Containers

theorem readSymbolVector_resumes (attr : UInt8) (syms : List NulText) :
    (Spelling.symbolVector attr syms).ReadResumes := by
  rw [Spelling.ReadResumes, Spelling.bytes, Spelling.value, KVal.obj]
  exact ((readSymbolVectorData_resumes syms).header
    (KVal.vecHdr .symbolVector attr syms.length) (KVal.vecHdr_length _ _ _)
    (by decide)).map
    (fun x k b _hx => KdbBase.read_symbolVector syms.length attr x.1 x.2 b)

theorem readList_resumes (attr : UInt8) {parts : List Spelling}
    (h : forall s, s ∈ parts -> s.ReadResumes)
    (hfit : KVal.CountsFitAll (Spelling.valueAll parts)) :
    (Spelling.list attr parts).ReadResumes := by
  rw [Spelling.ReadResumes, Spelling.bytes, Spelling.value, KVal.obj, KVal.Progress,
    KVal.newObj, Spelling.valueAll_length]
  exact ((readItems_resumes h hfit).header (KVal.vecHdr .list attr parts.length)
    (KVal.vecHdr_length _ _ _) (by decide)).map
    (fun x k b _hx => KdbBase.read_list parts.length attr x b)

theorem Spelling.countsFit_of_mem {ss : List Spelling}
    (h : KVal.CountsFitAll (valueAll ss)) : forall s, s ∈ ss -> s.value.CountsFit := by
  induction ss with
  | nil =>
      intro s hs
      cases hs
  | cons t ss ih =>
      rw [valueAll, KVal.CountsFitAll] at h
      intro s hs
      rcases List.mem_cons.mp hs with rfl | htail
      · exact h.left
      · exact ih h.right s htail

theorem Spelling.read_resumes (s : Spelling) : s.value.CountsFit -> s.ReadResumes := by
  induction s with
  | exception msg =>
      intro _hfit
      rw [ReadResumes, value, KVal.Progress, KVal.obj]
      exact ((readTextData_resumes msg).header [KdbType.exception.i8] rfl
        (by decide)).map (fun x k b _hx => KdbBase.read_exception x b)
  | atom e val =>
      intro _hfit
      rw [ReadResumes, value, KVal.Progress, KVal.obj]
      exact ((readIntAtomData_resumes e val).header [e.atomTyp.i8] rfl
        Nat.one_pos).map (fun x k b _hx => KdbBase.read_atom e x b)
  | symbolAtom val =>
      intro _hfit
      rw [ReadResumes, value, KVal.Progress, KVal.obj]
      exact ((readTextData_resumes val).header [KdbType.symbolAtom.i8] rfl
        (by decide)).map (fun x k b _hx => KdbBase.read_symbolAtom x b)
  | list attr parts ih =>
      intro hfit
      rw [value, KVal.CountsFit] at hfit
      exact readList_resumes attr
        (fun s hs => ih s hs (countsFit_of_mem hfit.right s hs)) hfit.right
  | vector e attr vec =>
      intro _hfit
      rw [ReadResumes, value, KVal.Progress, KVal.obj, bytes]
      exact ((readIntVectorData_resumes e.width_pos vec).header
        (KVal.vecHdr e.vectorTyp attr vec.length) (KVal.vecHdr_length _ _ _)
        (by decide)).map (fun x k b _hx => KdbBase.read_vector e vec.length attr x b)
  | symbolVector attr syms =>
      intro _hfit
      exact readSymbolVector_resumes attr syms
  | table attr typ colsAttr cols valsAttr parts ih =>
      intro hfit
      rw [value, KVal.CountsFit] at hfit
      have hcols := readSymbolVector_resumes colsAttr cols
      have hvals := readList_resumes valsAttr
        (fun s hs => ih s hs (countsFit_of_mem hfit.right.right s hs)) hfit.right.right
      have hhdr : [KdbType.table.i8, attr, typ].length = 3 := rfl
      have hparts := @readParts_resumes (.symbolVector colsAttr cols) (.list valsAttr parts)
        (fun t => t == .symbolVector) (fun t => t == .list) [KdbType.table.i8, attr, typ] 3
        hhdr (by decide) hcols hvals hfit.left hfit.right rfl rfl
      rw [ReadResumes, value, KVal.progress_table, KVal.obj]
      exact hparts.map (fun x k b _hx => KdbBase.read_table x.1 x.2 b)
  | dict step keys vals ihk ihv =>
      intro hfit
      rw [value, KVal.CountsFit] at hfit
      have hparts := readParts_resumes
        [if step = true then KdbType.stepDict.i8 else KdbType.dict.i8] rfl Nat.one_pos
        (ihk hfit.left) (ihv hfit.right) hfit.left hfit.right
        (p := fun _ => true) (q := fun _ => true) rfl rfl
      rw [ReadResumes, value, KVal.Progress, KVal.obj, bytes]
      exact hparts.map (fun x k b _hx => KdbBase.read_dict x.1 x.2 b)
  | function ctx attr text =>
      intro _hfit
      rw [ReadResumes, value, KVal.Progress, KVal.obj, bytes]
      exact ((readFunctionText_resumes text).header
        (KdbType.function.i8 :: ctx :: KVal.vecHdr .charVector attr text.length)
        (by simp) (by decide)).map
        (fun x k b _hx => KdbBase.read_function text.length x b)
  | primitive arity val =>
      intro _hfit
      rw [ReadResumes, value, KVal.Progress, KVal.obj]
      exact ((readPrimitiveData_resumes val).header [arity.typ.i8] rfl
        Nat.one_pos).map (fun x k b _hx => KdbBase.read_primitive arity x b)
  | projection parts ih =>
      intro hfit
      rw [value, KVal.CountsFit] at hfit
      rw [ReadResumes, value, KVal.Progress, KVal.obj, bytes, KVal.newObj, valueAll_length]
      exact ((readItems_resumes
        (fun s hs => ih s hs (countsFit_of_mem hfit.right s hs))
        hfit.right).header (KVal.projectionHdr parts.length)
        (KVal.projectionHdr_length _) (by decide)).map
        (fun x k b _hx => KdbBase.read_projection parts.length x b)

theorem read_resumes (v : KVal) (hfit : v.CountsFit) :
    Resumes v.encode v.newObj v.obj v.Progress v.newBytes KdbBase.read := by
  rcases Spelling.plain_renders v with ⟨hvalue, hbytes⟩
  have hplain := (Spelling.plain v).read_resumes
  rw [Spelling.ReadResumes, hvalue, hbytes] at hplain
  exact hplain hfit

theorem Spelling.slot_resumes (s : Spelling) (hfit : s.value.CountsFit) :
    Resumes s.bytes none (some s.value.obj) (Slot s.value.Progress) 0 readElem :=
  readElem_resumes (s.read_resumes hfit) hfit

theorem slot_resumes (v : KVal) (hfit : v.CountsFit) :
    Resumes v.encode none (some v.obj) (Slot v.Progress) 0 readElem := by
  rcases Spelling.plain_renders v with ⟨hvalue, hbytes⟩
  have hplain := (Spelling.plain v).slot_resumes
  rw [hvalue, hbytes] at hplain
  exact hplain hfit

end MgKdb
