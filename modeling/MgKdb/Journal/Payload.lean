import MgKdb.Journal.Scanner
import MgKdb.Wire.Value

/-!
# Payloads the scanner knows

The grammar of the payloads that the length scanner supports.  It is wider than the
encodings of values: a table may have any attribute, and a dict may be a step dict.
-/

namespace MgKdb

open Foundation

inductive Payload where
  | atom (e : Elem) (val : BitVec (8 * e.width))
  | symbolAtom (val : NulText)
  | vector (e : Elem) (attr : UInt8) (vec : List (BitVec (8 * e.width)))
  | symbolVector (attr : UInt8) (syms : List NulText)
  | list (attr : UInt8) (parts : List Payload)
  | dict (step : Bool) (keys vals : Payload)
  | table (attr : UInt8) (step : Bool) (cols vals : Payload)

namespace Payload

/-- Induction on a payload, with one hypothesis for each element of a list. -/
@[elab_as_elim, induction_eliminator]
theorem induct {motive : Payload -> Prop}
    (atom : forall e val, motive (.atom e val))
    (symbolAtom : forall val, motive (.symbolAtom val))
    (vector : forall e attr vec, motive (.vector e attr vec))
    (symbolVector : forall attr syms, motive (.symbolVector attr syms))
    (list : forall attr parts, (forall p, p ∈ parts -> motive p) ->
      motive (.list attr parts))
    (dict : forall step keys vals, motive keys -> motive vals ->
      motive (.dict step keys vals))
    (table : forall attr step cols vals, motive cols -> motive vals ->
      motive (.table attr step cols vals)) :
    forall p, motive p := by
  intro p
  refine Payload.rec (motive_1 := motive)
    (motive_2 := fun ps => forall p, p ∈ ps -> motive p)
    atom symbolAtom vector symbolVector list dict table ?_ ?_ p
  · intro p hp
    cases hp
  · intro p ps hp hps q hq
    rcases List.mem_cons.mp hq with hhead | htail
    · rw [hhead]
      exact hp
    · exact hps q htail

def dictTyp (step : Bool) : KdbType :=
  if step then .stepDict else .dict

mutual

def bytes : Payload -> List UInt8
  | atom e val => e.atomTyp.i8 :: wordBytes e.width val
  | symbolAtom val => KdbType.symbolAtom.i8 :: val.bytes
  | vector e attr vec =>
      KVal.vecHdr e.vectorTyp attr vec.length ++ wordsBytes e.width vec
  | symbolVector attr syms =>
      KVal.vecHdr .symbolVector attr syms.length ++ KVal.symsBytes syms
  | list attr parts => KVal.vecHdr .list attr parts.length ++ bytesAll parts
  | dict step keys vals => (dictTyp step).i8 :: (bytes keys ++ bytes vals)
  | table attr step cols vals =>
      KdbType.table.i8 :: attr :: (dictTyp step).i8 :: (bytes cols ++ bytes vals)

def bytesAll : List Payload -> List UInt8
  | [] => []
  | p :: ps => bytes p ++ bytesAll ps

end

theorem bytesAll_eq_flatten (ps : List Payload) :
    bytesAll ps = (ps.map bytes).flatten := by
  induction ps with
  | nil => rw [bytesAll, List.map_nil, List.flatten_nil]
  | cons p ps ih => rw [bytesAll, ih, List.map_cons, List.flatten_cons]

theorem bytes_pos (p : Payload) : 0 < p.bytes.length := by
  cases p <;> simp [bytes]

mutual

def WellFormed : Payload -> Prop
  | atom _ _ | symbolAtom _ => True
  | vector _ _ vec => vec.length < 2 ^ 31
  | symbolVector _ syms => syms.length < 2 ^ 31
  | list _ parts => parts.length < 2 ^ 31 ∧ WellFormedAll parts
  | dict _ keys vals => WellFormed keys ∧ WellFormed vals
  | table _ _ cols vals => WellFormed cols ∧ WellFormed vals

def WellFormedAll : List Payload -> Prop
  | [] => True
  | p :: ps => WellFormed p ∧ WellFormedAll ps

end

theorem wellFormedAll_iff {ps : List Payload} :
    WellFormedAll ps <-> forall p, p ∈ ps -> WellFormed p := by
  induction ps with
  | nil => simp [WellFormedAll]
  | cons p ps ih => simp [WellFormedAll, ih]

mutual

/-- Every dict, also the one in a table, is shorter than 2^31 bytes. -/
def DictsFit : Payload -> Prop
  | atom _ _ | symbolAtom _ | vector _ _ _ | symbolVector _ _ => True
  | list _ parts => DictsFitAll parts
  | dict _ keys vals =>
      1 + (bytes keys).length + (bytes vals).length < 2 ^ 31 ∧
        DictsFit keys ∧ DictsFit vals
  | table _ _ cols vals =>
      1 + (bytes cols).length + (bytes vals).length < 2 ^ 31 ∧
        DictsFit cols ∧ DictsFit vals

def DictsFitAll : List Payload -> Prop
  | [] => True
  | p :: ps => DictsFit p ∧ DictsFitAll ps

end

theorem dictsFitAll_iff {ps : List Payload} :
    DictsFitAll ps <-> forall p, p ∈ ps -> DictsFit p := by
  induction ps with
  | nil => simp [DictsFitAll]
  | cons p ps ih => simp [DictsFitAll, ih]

theorem length_le_bytesAll {p : Payload} {ps : List Payload} (h : p ∈ ps) :
    p.bytes.length <= (bytesAll ps).length := by
  induction ps with
  | nil => cases h
  | cons q qs ih =>
      rw [bytesAll, List.length_append]
      rcases List.mem_cons.mp h with hhead | htail
      · rw [hhead]
        omega
      · have hle := ih htail
        omega

theorem length_le_length_bytesAll (ps : List Payload) :
    ps.length <= (bytesAll ps).length := by
  induction ps with
  | nil => exact Nat.le_refl 0
  | cons p ps ih =>
      have hpos := p.bytes_pos
      rw [bytesAll, List.length_cons, List.length_append]
      omega

theorem dictsFit_of_length_lt (p : Payload) : p.bytes.length < 2 ^ 31 -> p.DictsFit := by
  induction p with
  | atom e val => simp [DictsFit]
  | symbolAtom val => simp [DictsFit]
  | vector e attr vec => simp [DictsFit]
  | symbolVector attr syms => simp [DictsFit]
  | list attr parts ih =>
      intro h
      rw [bytes, List.length_append] at h
      rw [DictsFit, dictsFitAll_iff]
      intro p hp
      have hle := length_le_bytesAll hp
      exact ih p hp (by omega)
  | dict step keys vals ihk ihv =>
      intro h
      rw [bytes, List.length_cons, List.length_append] at h
      exact ⟨by omega, ihk (by omega), ihv (by omega)⟩
  | table attr step cols vals ihc ihv =>
      intro h
      rw [bytes, List.length_cons, List.length_cons, List.length_cons,
        List.length_append] at h
      exact ⟨by omega, ihc (by omega), ihv (by omega)⟩

theorem wellFormed_of_length_lt (p : Payload) : p.bytes.length < 2 ^ 31 -> p.WellFormed := by
  induction p with
  | atom e val => simp [WellFormed]
  | symbolAtom val => simp [WellFormed]
  | vector e attr vec =>
      intro h
      rw [bytes, List.length_append, wordsBytes_length] at h
      have hcount : vec.length <= e.width * vec.length :=
        Nat.le_mul_of_pos_left _ e.width_pos
      rw [WellFormed]
      omega
  | symbolVector attr syms =>
      intro h
      rw [bytes, List.length_append] at h
      have hcount := KVal.length_le_symsBytes syms
      rw [WellFormed]
      omega
  | list attr parts ih =>
      intro h
      rw [bytes, List.length_append] at h
      have hcount := length_le_length_bytesAll parts
      refine ⟨by omega, wellFormedAll_iff.mpr ?_⟩
      intro p hp
      have hle := length_le_bytesAll hp
      exact ih p hp (by omega)
  | dict step keys vals ihk ihv =>
      intro h
      rw [bytes, List.length_cons, List.length_append] at h
      exact ⟨ihk (by omega), ihv (by omega)⟩
  | table attr step cols vals ihc ihv =>
      intro h
      rw [bytes, List.length_cons, List.length_cons, List.length_cons,
        List.length_append] at h
      exact ⟨ihc (by omega), ihv (by omega)⟩

/-!
## What the scanner finds
-/

def Measures (scan : List UInt8 -> Scan) (xs : List UInt8) : Prop :=
  forall rest, scan (xs ++ rest) = some (xs.length : Int)

theorem hdrLen_vecHdr {n : Nat} (hn : n < 2 ^ 31) (t : KdbType) (attr : UInt8)
    (tail : List UInt8) : hdrLen (KVal.vecHdr t attr n ++ tail) = n := by
  have hdrop : (KVal.vecHdr t attr n ++ tail).drop 2 = leBytes 4 n ++ tail := rfl
  rw [hdrLen, hdrop, i32At_of_front (by simp) List.prefix_rfl, i32_of_lt hn]

theorem drop_vecHdr (t : KdbType) (attr : UInt8) (n : Nat) (tail : List UInt8) :
    (KVal.vecHdr t attr n ++ tail).drop 6 = tail := by
  rw [← KVal.vecHdr_length t attr n, List.drop_left]

theorem symVecLoop_syms {src rest : List UInt8} (syms : List NulText) :
    forall {off : Nat}, off <= src.length ->
      src.drop off = KVal.symsBytes syms ++ rest ->
      symVecLoop src syms.length off =
        some ((off + (KVal.symsBytes syms).length : Nat) : Int) := by
  induction syms with
  | nil =>
      intro off _ _
      rfl
  | cons s syms ih =>
      intro off hoff hdrop
      rw [KVal.symsBytes_cons, List.append_assoc] at hdrop
      have hlen : src.length - off = (src.drop off).length := by
        rw [List.length_drop]
      have hpre : src.drop off <+: s.bytes ++ (KVal.symsBytes syms ++ rest) := by
        rw [hdrop]
      have hscan := s.strnlen_of_front hpre
      have hlong : s.text.length + 1 <= (src.drop off).length := by
        rw [hdrop, List.length_append, NulText.bytes_length]
        omega
      rw [Nat.min_eq_left (by omega)] at hscan
      rw [List.length_cons, symVecLoop, hlen, hscan, if_neg (by omega),
        ih (by omega) (by
          rw [← List.drop_drop, hdrop, ← s.bytes_length, List.drop_left])]
      rw [KVal.symsBytes_cons, List.length_append, NulText.bytes_length]
      congr 2
      omega

theorem listLoop_parts {payload : List UInt8 -> Scan} {src rest : List UInt8}
    (ps : List Payload) :
    forall {len : Nat}, (forall p, p ∈ ps -> Measures payload p.bytes) ->
      len <= src.length -> src.drop len = bytesAll ps ++ rest ->
      listLoop payload src ps.length len =
        some ((len + (bytesAll ps).length : Nat) : Int) := by
  induction ps with
  | nil =>
      intro len _ _ _
      rw [bytesAll]
      rfl
  | cons p ps ih =>
      intro len hparts hlen hdrop
      rw [bytesAll, List.append_assoc] at hdrop
      have hp := hparts p (by simp) (bytesAll ps ++ rest)
      have hlong : p.bytes.length <= (src.drop len).length := by
        rw [hdrop, List.length_append]
        omega
      rw [List.length_drop] at hlong
      rw [List.length_cons, listLoop, if_neg (by omega), hdrop, hp]
      simp only
      rw [if_neg (by omega), Int.toNat_natCast,
        ih (fun q hq => hparts q (List.mem_cons_of_mem p hq)) (by omega) (by
          rw [← List.drop_drop, hdrop, List.drop_left])]
      rw [bytesAll, List.length_append]
      congr 2
      omega

theorem i32OfInt_of_lt {n : Nat} (hn : n < 2 ^ 31) : i32OfInt n = n := by
  have h : i32OfInt n = i32 n := by
    rw [i32OfInt, i32, BitVec.ofInt_natCast]
  rw [h, i32_of_lt hn]

theorem dictLen_parts {payload : List UInt8 -> Scan} {xs ys : List UInt8}
    (hx : Measures payload xs) (hy : Measures payload ys)
    (hfit : 1 + xs.length + ys.length < 2 ^ 31) (rest : List UInt8) :
    dictLen payload (xs ++ ys ++ rest) =
      some ((1 + xs.length + ys.length : Nat) : Int) := by
  have hdrop : (xs ++ ys ++ rest).drop xs.length = ys ++ rest := by
    rw [List.append_assoc, List.drop_left]
  unfold dictLen
  rw [List.append_assoc, hx, ← List.append_assoc]
  simp only [i32OfInt_of_lt (show xs.length < 2 ^ 31 by omega), Int.toNat_natCast]
  rw [if_neg (by omega), if_neg (by simp), hdrop, hy]
  simp only [i32OfInt_of_lt (show ys.length < 2 ^ 31 by omega)]
  rw [if_neg (by omega), if_neg (by omega)]
  congr 1

/-! Which branch of the scanner a type takes. -/

theorem ipcPayloadLenOf_atom (e : Elem) (payload : List UInt8 -> Scan)
    (tail : List UInt8) :
    ipcPayloadLenOf payload (e.atomTyp.i8 :: tail) = some ((1 + e.width : Nat) : Int) := by
  cases e <;> rfl

theorem msgLenCmp_of_le {n w rem : Nat} (hrem : 6 + n * w <= rem) :
    msgLenCmp n w rem = some ((6 + n * w : Nat) : Int) := by
  rw [msgLenCmp, if_neg (by omega), Int.toNat_natCast, if_neg (by omega)]

theorem ipcPayloadLenOf_eq_list (payload : List UInt8 -> Scan) {src : List UInt8}
    (hsrc : src.length ≠ 0) (hhead : src.headD 0 = KdbType.list.i8) :
    ipcPayloadLenOf payload src = msgLenList payload src := by
  rw [ipcPayloadLenOf, if_neg hsrc, if_pos hhead]

theorem ipcPayloadLenOf_eq_symAtom (payload : List UInt8 -> Scan) {src : List UInt8}
    (hsrc : src.length ≠ 0) (hhead : src.headD 0 = KdbType.symbolAtom.i8) :
    ipcPayloadLenOf payload src = msgLenSymAtom src := by
  rw [ipcPayloadLenOf, if_neg hsrc, hhead, if_neg (by decide), if_pos (by decide),
    if_pos rfl]

theorem ipcPayloadLenOf_eq_symVec (payload : List UInt8 -> Scan) {src : List UInt8}
    (hsrc : src.length ≠ 0) (hhead : src.headD 0 = KdbType.symbolVector.i8) :
    ipcPayloadLenOf payload src = msgLenSymVec src := by
  rw [ipcPayloadLenOf, if_neg hsrc, hhead, if_neg (by decide), if_neg (by decide),
    if_pos (by decide), if_pos rfl]

theorem ipcPayloadLenOf_eq_vec (e : Elem) (payload : List UInt8 -> Scan)
    {src : List UInt8} (hsrc : src.length ≠ 0) (hhead : src.headD 0 = e.vectorTyp.i8) :
    ipcPayloadLenOf payload src = msgLenVec src := by
  rw [ipcPayloadLenOf, if_neg hsrc, hhead, if_neg (by cases e <;> decide),
    if_neg (by cases e <;> decide), if_pos (by cases e <;> decide),
    if_neg (by cases e <;> decide)]

theorem msgLenVec_eq_cmp (e : Elem) {src : List UInt8} (hsrc : ¬ src.length < 6)
    (hhead : src.headD 0 = e.vectorTyp.i8) :
    msgLenVec src = msgLenCmp (hdrLen src) e.width src.length := by
  rw [msgLenVec, if_neg hsrc, hhead, KdbType.ofI8_i8]
  cases e <;> rfl

theorem ipcPayloadLenOf_vector (e : Elem) (payload : List UInt8 -> Scan)
    (attr : UInt8) {n : Nat} (hn : n < 2 ^ 31) {tail : List UInt8}
    (htail : n * e.width <= tail.length) :
    ipcPayloadLenOf payload (KVal.vecHdr e.vectorTyp attr n ++ tail) =
      some ((6 + n * e.width : Nat) : Int) := by
  have hlen : 6 + n * e.width <= (KVal.vecHdr e.vectorTyp attr n ++ tail).length := by
    rw [List.length_append, KVal.vecHdr_length]
    omega
  have hhead : (KVal.vecHdr e.vectorTyp attr n ++ tail).headD 0 = e.vectorTyp.i8 := rfl
  rw [ipcPayloadLenOf_eq_vec e payload (by omega) hhead,
    msgLenVec_eq_cmp e (by omega) hhead, hdrLen_vecHdr hn, msgLenCmp_of_le hlen]

theorem ipcPayloadLenOf_vary {t : KdbType} (ht : t = .dict ∨ t = .stepDict ∨ t = .table)
    (payload : List UInt8 -> Scan) (tail : List UInt8) :
    ipcPayloadLenOf payload (t.i8 :: tail) = msgLenVary payload (t.i8 :: tail) := by
  rw [ipcPayloadLenOf, if_neg (by simp), List.headD_cons]
  rcases ht with rfl | rfl | rfl
  · rw [if_neg (by decide), if_neg (by decide), if_neg (by decide)]
  · rw [if_neg (by decide), if_neg (by decide), if_neg (by decide)]
  · rw [if_neg (by decide), if_neg (by decide), if_neg (by decide)]

theorem dictTyp_cases (step : Bool) :
    dictTyp step = .dict ∨ dictTyp step = .stepDict := by
  cases step
  · exact Or.inl rfl
  · exact Or.inr rfl

theorem msgLenVary_dict (payload : List UInt8 -> Scan) (step : Bool) (src : List UInt8) :
    msgLenVary payload ((dictTyp step).i8 :: src) = dictLen payload src := by
  have htable : (dictTyp step).i8 ≠ KdbType.table.i8 := by
    cases step <;> decide
  have hdict : (dictTyp step).i8 = KdbType.dict.i8 ∨
      (dictTyp step).i8 = KdbType.stepDict.i8 := by
    cases step <;> decide
  cases src with
  | nil => rw [msgLenVary, if_neg htable, if_pos hdict]
  | cons att src => rw [msgLenVary, if_neg htable, if_pos hdict]

theorem ipcPayloadLen_measures (p : Payload) :
    p.WellFormed -> p.DictsFit -> Measures ipcPayloadLen p.bytes := by
  induction p with
  | atom e val =>
      intro _ _ rest
      rw [bytes, ipcPayloadLen_eq, List.cons_append, ipcPayloadLenOf_atom,
        List.length_cons, wordBytes_length, Nat.add_comm]
  | symbolAtom val =>
      intro _ _ rest
      have hscan := val.strnlen_of_front (List.prefix_refl (val.bytes ++ rest))
      have hlen : (val.bytes ++ rest).length = val.text.length + 1 + rest.length := by
        rw [List.length_append, NulText.bytes_length]
      rw [Nat.min_eq_left (by omega)] at hscan
      rw [bytes, ipcPayloadLen_eq, List.cons_append,
        ipcPayloadLenOf_eq_symAtom _ (by simp) rfl, msgLenSymAtom, List.length_cons,
        List.drop_one, List.tail_cons, Nat.add_sub_cancel, hscan, if_neg (by omega),
        if_neg (by omega), List.length_cons, NulText.bytes_length]
      congr 1
      omega
  | vector e attr vec =>
      intro hfit _ rest
      rw [WellFormed] at hfit
      rw [bytes, ipcPayloadLen_eq, List.append_assoc, ipcPayloadLenOf_vector e _ attr hfit
        (by rw [List.length_append, wordsBytes_length, Nat.mul_comm]; omega),
        List.length_append, KVal.vecHdr_length, wordsBytes_length, Nat.mul_comm]
  | symbolVector attr syms =>
      intro hfit _ rest
      rw [WellFormed] at hfit
      have hlen : (KVal.vecHdr .symbolVector attr syms.length ++
          (KVal.symsBytes syms ++ rest)).length =
          6 + ((KVal.symsBytes syms).length + rest.length) := by
        rw [List.length_append, KVal.vecHdr_length, List.length_append]
      have hhead : (KVal.vecHdr .symbolVector attr syms.length ++
          (KVal.symsBytes syms ++ rest)).headD 0 = KdbType.symbolVector.i8 := rfl
      rw [bytes, ipcPayloadLen_eq, List.append_assoc,
        ipcPayloadLenOf_eq_symVec _ (by omega) hhead, msgLenSymVec, if_neg (by omega),
        hdrLen_vecHdr hfit, Int.toNat_natCast,
        symVecLoop_syms syms (by omega) (drop_vecHdr _ _ _ _), List.length_append,
        KVal.vecHdr_length]
  | list attr parts ih =>
      intro hfit hdicts rest
      rw [WellFormed, wellFormedAll_iff] at hfit
      rw [DictsFit, dictsFitAll_iff] at hdicts
      have hlen : (KVal.vecHdr .list attr parts.length ++
          (bytesAll parts ++ rest)).length =
          6 + ((bytesAll parts).length + rest.length) := by
        rw [List.length_append, KVal.vecHdr_length, List.length_append]
      have hhead : (KVal.vecHdr .list attr parts.length ++
          (bytesAll parts ++ rest)).headD 0 = KdbType.list.i8 := rfl
      rw [bytes, ipcPayloadLen_eq, List.append_assoc,
        ipcPayloadLenOf_eq_list _ (by omega) hhead, msgLenList, if_neg (by omega),
        hdrLen_vecHdr hfit.left, Int.toNat_natCast,
        listLoop_parts parts (fun p hp => ih p hp (hfit.right p hp) (hdicts p hp))
          (by omega) (drop_vecHdr _ _ _ _), List.length_append, KVal.vecHdr_length]
  | dict step keys vals ihk ihv =>
      intro hfit hdicts rest
      have htyp : dictTyp step = .dict ∨ dictTyp step = .stepDict ∨
          dictTyp step = .table := by
        rcases dictTyp_cases step with h | h
        · exact Or.inl h
        · exact Or.inr (Or.inl h)
      have hlen := dictLen_parts (ihk hfit.left hdicts.right.left)
        (ihv hfit.right hdicts.right.right) hdicts.left rest
      rw [bytes, ipcPayloadLen_eq, List.cons_append, ipcPayloadLenOf_vary htyp,
        msgLenVary_dict, hlen, List.length_cons, List.length_append]
      congr 2
      omega
  | table attr step cols vals ihc ihv =>
      intro hfit hdicts rest
      have hlen := dictLen_parts (ihc hfit.left hdicts.right.left)
        (ihv hfit.right hdicts.right.right) hdicts.left rest
      rw [bytes, ipcPayloadLen_eq, List.cons_append, List.cons_append, List.cons_append,
        ipcPayloadLenOf_vary (Or.inr (Or.inr rfl)), msgLenVary, if_pos rfl,
        msgLenVary_dict, hlen, List.length_cons, List.length_cons, List.length_cons,
        List.length_append, Option.map_some]
      congr 1
      push_cast
      omega

end Payload

end MgKdb
