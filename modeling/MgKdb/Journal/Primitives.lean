import MgKdb.Journal.Codec

/-!
# Primitives in scanned payloads

The sizes of the primitives are in the table of `msg_len_atom`, but their types are
outside the range of `isAtom`, so that the scanner takes them for something unknown.
A list or a dict around a primitive is answered with the code for that, and a table, which
adds two to it, with the length zero: a scan that comes to such a table goes on where it is.
-/

namespace MgKdb

open Foundation

namespace KVal

mutual

def Sized : KVal -> Prop
  | atom _ _ | symbolAtom _ | vector _ _ _ | symbolVector _ _ | primitive _ _ => True
  | list _ vals => SizedAll vals
  | table _ _ _ vals => SizedAll vals
  | dict keys vals => Sized keys ∧ Sized vals
  | exception _ | function _ | projection _ => False

def SizedAll : List KVal -> Prop
  | [] => True
  | v :: vs => Sized v ∧ SizedAll vs

end

mutual

def HasPrimitive : KVal -> Prop
  | primitive _ _ => True
  | list _ vals => HasPrimitiveAny vals
  | table _ _ _ vals => HasPrimitiveAny vals
  | dict keys vals => HasPrimitive keys ∨ HasPrimitive vals
  | projection parts => HasPrimitiveAny parts
  | exception _ | atom _ _ | symbolAtom _ | vector _ _ _ | symbolVector _ _ | function _ =>
      False

def HasPrimitiveAny : List KVal -> Prop
  | [] => False
  | v :: vs => HasPrimitive v ∨ HasPrimitiveAny vs

end

mutual

/-- Every dict, also the one in a table, is shorter than `2^31` bytes. -/
def DictsFit : KVal -> Prop
  | list _ vals => DictsFitAll vals
  | table colsAttr cols valsAttr vals =>
      1 + (encode (.symbolVector colsAttr cols)).length +
          (encode (.list valsAttr vals)).length < 2 ^ 31 ∧ DictsFitAll vals
  | dict keys vals =>
      1 + (encode keys).length + (encode vals).length < 2 ^ 31 ∧
        DictsFit keys ∧ DictsFit vals
  | projection parts => DictsFitAll parts
  | exception _ | atom _ _ | symbolAtom _ | vector _ _ _ | symbolVector _ _ | function _
  | primitive _ _ => True

def DictsFitAll : List KVal -> Prop
  | [] => True
  | v :: vs => DictsFit v ∧ DictsFitAll vs

end

theorem sizedAll_iff {vs : List KVal} : SizedAll vs <-> forall v, v ∈ vs -> Sized v := by
  induction vs with
  | nil => simp [SizedAll]
  | cons v vs ih => simp [SizedAll, ih]

theorem dictsFitAll_iff {vs : List KVal} :
    DictsFitAll vs <-> forall v, v ∈ vs -> DictsFit v := by
  induction vs with
  | nil => simp [DictsFitAll]
  | cons v vs ih => simp [DictsFitAll, ih]

/-!
## Scans that stall
-/

/-- The answer is an error, or a length up to a point from which no scan goes on. -/
def Stalls (src : List UInt8) (x : Scan) (n : Nat) : Prop :=
  x = some (-2) ∨
    exists r, r < n ∧ x = some (r : Int) ∧ ipcPayloadLen (src.drop r) = some 0

def Outcome (v : KVal) : Prop :=
  (¬ v.HasPrimitive -> Payload.Measures ipcPayloadLen v.encode) ∧
    (v.HasPrimitive -> forall rest,
      Stalls (v.encode ++ rest) (ipcPayloadLen (v.encode ++ rest)) v.encode.length)

theorem listLoop_stalled {src : List UInt8} {pos : Nat} (hle : pos <= src.length)
    (hzero : ipcPayloadLen (src.drop pos) = some 0) (n : Nat) :
    listLoop ipcPayloadLen src n pos = some (pos : Int) := by
  induction n with
  | zero => rfl
  | succ n ih =>
      rw [listLoop, if_neg (by omega), hzero]
      exact ih

theorem listLoop_measured {src rest : List UInt8} (vs : List KVal)
    (hvs : forall v, v ∈ vs -> Outcome v) (hnone : ¬ HasPrimitiveAny vs) :
    forall {len : Nat}, len <= src.length -> src.drop len = encodeAll vs ++ rest ->
      listLoop ipcPayloadLen src vs.length len =
        some ((len + (encodeAll vs).length : Nat) : Int) := by
  induction vs with
  | nil =>
      intro len _ _
      rfl
  | cons v vs ih =>
      intro len hle hdrop
      rw [HasPrimitiveAny, not_or] at hnone
      rw [encodeAll_cons, List.append_assoc] at hdrop
      have hv := (hvs v List.mem_cons_self).left hnone.left (encodeAll vs ++ rest)
      have hlong := congrArg List.length hdrop
      rw [List.length_drop, List.length_append] at hlong
      have hnext : src.drop (len + v.encode.length) = encodeAll vs ++ rest := by
        rw [← List.drop_drop, hdrop, List.drop_left]
      rw [List.length_cons, listLoop, if_neg (by omega), hdrop, hv]
      simp only
      rw [if_neg (by omega), Int.toNat_natCast,
        ih (fun u hu => hvs u (List.mem_cons_of_mem v hu)) hnone.right (by omega) hnext,
        encodeAll_cons, List.length_append, Nat.add_assoc]

theorem listLoop_stalls {src rest : List UInt8} (vs : List KVal)
    (hvs : forall v, v ∈ vs -> Outcome v) (hsome : HasPrimitiveAny vs) :
    forall {len : Nat}, len <= src.length -> src.drop len = encodeAll vs ++ rest ->
      Stalls src (listLoop ipcPayloadLen src vs.length len)
        (len + (encodeAll vs).length) := by
  induction vs with
  | nil => exact hsome.elim
  | cons v vs ih =>
      intro len hle hdrop
      rw [encodeAll_cons, List.append_assoc] at hdrop
      have hlong := congrArg List.length hdrop
      rw [List.length_drop, List.length_append] at hlong
      rw [List.length_cons, listLoop, if_neg (by omega), hdrop, encodeAll_cons,
        List.length_append]
      by_cases hhead : v.HasPrimitive
      · rcases (hvs v List.mem_cons_self).right hhead (encodeAll vs ++ rest) with
          hcode | ⟨r, hr, hlen, hzero⟩
        · rw [hcode]
          exact Or.inl rfl
        · rw [← hdrop, List.drop_drop] at hzero
          have hstalled := listLoop_stalled (show len + r <= src.length by omega) hzero vs.length
          rw [hlen]
          simp only
          rw [if_neg (by omega), Int.toNat_natCast, hstalled]
          exact Or.inr ⟨len + r, by omega, rfl, hzero⟩
      · have hv := (hvs v List.mem_cons_self).left hhead (encodeAll vs ++ rest)
        have hnext : src.drop (len + v.encode.length) = encodeAll vs ++ rest := by
          rw [← List.drop_drop, hdrop, List.drop_left]
        have hmore := ih (fun u hu => hvs u (List.mem_cons_of_mem v hu))
          (hsome.resolve_left hhead) (by omega) hnext
        rw [Nat.add_assoc] at hmore
        rw [hv]
        simp only
        rw [if_neg (by omega), Int.toNat_natCast]
        exact hmore

theorem dictLen_stalls {keys vals : List UInt8} (rest : List UInt8)
    (hfit : 1 + keys.length + vals.length < 2 ^ 31) (typ : UInt8)
    (hparts : (forall rest, Stalls (keys ++ rest) (ipcPayloadLen (keys ++ rest)) keys.length) ∨
      Payload.Measures ipcPayloadLen keys ∧
        forall rest, Stalls (vals ++ rest) (ipcPayloadLen (vals ++ rest)) vals.length) :
    Stalls (typ :: (keys ++ vals ++ rest)) (dictLen ipcPayloadLen (keys ++ vals ++ rest))
      (1 + keys.length + vals.length) := by
  have herror : i32OfInt (-2) = -2 := by decide
  unfold dictLen
  rw [List.append_assoc]
  rcases hparts with hkeys | ⟨hkeys, hvals⟩
  · rcases hkeys (vals ++ rest) with hcode | ⟨r, hr, hlen, hzero⟩
    · rw [hcode]
      simp only [herror]
      exact Or.inl rfl
    · have hlong : r <= (keys ++ (vals ++ rest)).length := by
        rw [List.length_append]
        omega
      have hnone : i32OfInt 0 = 0 := by decide
      rw [hlen]
      simp only [Payload.i32OfInt_of_lt (show r < 2 ^ 31 by omega), Int.toNat_natCast]
      rw [if_neg (by omega), if_neg (by omega), hzero]
      simp only [hnone]
      rw [if_neg (by omega), if_neg (by omega)]
      refine Or.inr ⟨r + 1, by omega, ?_, hzero⟩
      congr 1
      omega
  · rw [hkeys]
    simp only [Payload.i32OfInt_of_lt (show keys.length < 2 ^ 31 by omega), Int.toNat_natCast]
    rw [if_neg (by omega), if_neg (by rw [List.length_append]; omega), List.drop_left]
    rcases hvals rest with hcode | ⟨r, hr, hlen, hzero⟩
    · rw [hcode]
      simp only [herror]
      exact Or.inl rfl
    · rw [hlen]
      simp only [Payload.i32OfInt_of_lt (show r < 2 ^ 31 by omega)]
      rw [if_neg (by omega), if_neg (by omega)]
      refine Or.inr ⟨keys.length + r + 1, by omega, ?_, ?_⟩
      · congr 1
        omega
      · rw [List.drop_succ_cons, ← List.drop_drop, List.drop_left]
        exact hzero

theorem outcome_of_payload {v : KVal} (p : Payload) (hbytes : p.bytes = v.encode)
    (hwf : p.WellFormed) (hfit : p.DictsFit) (hnone : ¬ v.HasPrimitive) : Outcome v :=
  ⟨fun _ => hbytes ▸ p.ipcPayloadLen_measures hwf hfit, fun h => absurd h hnone⟩

theorem outcome_list (attr : UInt8) {vals : List KVal} (hcount : vals.length < 2 ^ 31)
    (hvals : forall v, v ∈ vals -> Outcome v) : Outcome (.list attr vals) := by
  have hlist : forall rest, ipcPayloadLen (encode (.list attr vals) ++ rest) =
      listLoop ipcPayloadLen (encode (.list attr vals) ++ rest) vals.length 6 ∧
      (encode (.list attr vals) ++ rest).drop 6 = encodeAll vals ++ rest ∧
      6 <= (encode (.list attr vals) ++ rest).length := by
    intro rest
    rw [encode, List.append_assoc]
    have hlen : 6 <= (vecHdr .list attr vals.length ++ (encodeAll vals ++ rest)).length := by
      rw [List.length_append, vecHdr_length]
      omega
    refine ⟨?_, Payload.drop_vecHdr _ _ _ _, hlen⟩
    rw [ipcPayloadLen_eq, Payload.ipcPayloadLenOf_eq_list _ (by omega) rfl, msgLenList,
      if_neg (by omega), Payload.hdrLen_vecHdr hcount, Int.toNat_natCast]
  have hlen : (encode (.list attr vals)).length = 6 + (encodeAll vals).length := by
    rw [encode, List.length_append, vecHdr_length]
  constructor
  · intro hnone rest
    rcases hlist rest with ⟨hscan, hdrop, hlong⟩
    rw [hscan, hlen]
    exact listLoop_measured vals hvals hnone hlong hdrop
  · intro hsome rest
    rcases hlist rest with ⟨hscan, hdrop, hlong⟩
    rw [hscan, hlen]
    exact listLoop_stalls vals hvals hsome hlong hdrop

theorem outcome_table (colsAttr : UInt8) (cols : List NulText) {valsAttr : UInt8}
    {vals : List KVal} (hcols : cols.length < 2 ^ 31) (hvals : Outcome (.list valsAttr vals))
    (hfit : 1 + (encode (.symbolVector colsAttr cols)).length +
      (encode (.list valsAttr vals)).length < 2 ^ 31) :
    Outcome (.table colsAttr cols valsAttr vals) := by
  have hkeys : Payload.Measures ipcPayloadLen (encode (.symbolVector colsAttr cols)) := by
    have h := (Payload.symbolVector colsAttr cols).ipcPayloadLen_measures hcols trivial
    rwa [Payload.bytes, ← encode] at h
  have hlen : (encode (.table colsAttr cols valsAttr vals)).length =
      2 + (1 + (encode (.symbolVector colsAttr cols)).length +
        (encode (.list valsAttr vals)).length) := by
    rw [encode_table, List.length_append, tableHdr_length, List.length_append]
    omega
  have hscan : forall rest, ipcPayloadLen (encode (.table colsAttr cols valsAttr vals) ++ rest) =
      (dictLen ipcPayloadLen (encode (.symbolVector colsAttr cols) ++
        encode (.list valsAttr vals) ++ rest)).map (fun len => 2 + len) := by
    intro rest
    have hbytes : encode (.table colsAttr cols valsAttr vals) ++ rest =
        KdbType.table.i8 :: 0 :: KdbType.dict.i8 ::
          (encode (.symbolVector colsAttr cols) ++ encode (.list valsAttr vals) ++ rest) := by
      rw [encode_table, tableHdr, List.append_assoc]
      rfl
    rw [hbytes, ipcPayloadLen_eq, Payload.ipcPayloadLenOf_vary (Or.inr (Or.inr rfl)),
      msgLenVary, if_pos rfl]
    exact congrArg (Option.map fun len => 2 + len)
      (Payload.msgLenVary_dict ipcPayloadLen false _)
  constructor
  · intro hnone rest
    rw [hscan, Payload.dictLen_parts hkeys (hvals.left hnone) hfit, hlen]
    rfl
  · intro hsome rest
    have hdict := dictLen_stalls rest hfit KdbType.dict.i8
      (Or.inr ⟨hkeys, hvals.right hsome⟩)
    rcases hdict with hcode | ⟨r, hr, hr', hzero⟩
    · refine Or.inr ⟨0, by omega, ?_, ?_⟩
      · rw [hscan, hcode]
        rfl
      · rw [List.drop_zero, hscan, hcode]
        rfl
    · refine Or.inr ⟨2 + r, by omega, ?_, ?_⟩
      · rw [hscan, hr']
        rfl
      · rw [← List.drop_drop, encode_table, List.append_assoc]
        exact hzero

theorem outcome (v : KVal) : v.Sized -> v.CountsFit -> v.DictsFit -> Outcome v := by
  induction v with
  | exception msg => exact fun h => h.elim
  | atom e val =>
      exact fun _ _ _ => outcome_of_payload (.atom e val) (by rw [Payload.bytes, encode])
        trivial trivial id
  | symbolAtom val =>
      exact fun _ _ _ => outcome_of_payload (.symbolAtom val) (by rw [Payload.bytes, encode])
        trivial trivial id
  | list attr vals ih =>
      rintro hsized ⟨hcount, hcounts⟩ hfit
      rw [Sized, sizedAll_iff] at hsized
      rw [countsFitAll_iff] at hcounts
      rw [DictsFit, dictsFitAll_iff] at hfit
      exact outcome_list attr hcount fun v hv => ih v hv (hsized v hv) (hcounts v hv) (hfit v hv)
  | vector e attr vec =>
      exact fun _ hcount _ => outcome_of_payload (.vector e attr vec)
        (by rw [Payload.bytes, encode]) hcount trivial id
  | symbolVector attr syms =>
      exact fun _ hcount _ => outcome_of_payload (.symbolVector attr syms)
        (by rw [Payload.bytes, encode]) hcount trivial id
  | table colsAttr cols valsAttr vals ih =>
      rintro hsized ⟨hcols, hcount, hcounts⟩ ⟨hfit, hfits⟩
      rw [Sized, sizedAll_iff] at hsized
      rw [countsFitAll_iff] at hcounts
      rw [dictsFitAll_iff] at hfits
      exact outcome_table colsAttr cols hcols (outcome_list valsAttr hcount fun v hv =>
        ih v hv (hsized v hv) (hcounts v hv) (hfits v hv)) hfit
  | dict keys vals ihk ihv =>
      rintro ⟨hsizedKeys, hsizedVals⟩ ⟨hcountKeys, hcountVals⟩ ⟨hfit, hfitKeys, hfitVals⟩
      have hkeys := ihk hsizedKeys hcountKeys hfitKeys
      have hvals := ihv hsizedVals hcountVals hfitVals
      have hscan : forall rest, ipcPayloadLen (encode (.dict keys vals) ++ rest) =
          dictLen ipcPayloadLen (encode keys ++ encode vals ++ rest) := by
        intro rest
        rw [encode, List.cons_append, ipcPayloadLen_eq,
          Payload.ipcPayloadLenOf_vary (Or.inl rfl)]
        exact Payload.msgLenVary_dict ipcPayloadLen false _
      have hlen : (encode (.dict keys vals)).length =
          1 + (encode keys).length + (encode vals).length := by
        rw [encode, List.length_cons, List.length_append]
        omega
      constructor
      · intro hnone rest
        rw [HasPrimitive, not_or] at hnone
        rw [hscan, hlen]
        exact Payload.dictLen_parts (hkeys.left hnone.left) (hvals.left hnone.right) hfit rest
      · intro hsome rest
        have hparts : (forall rest, Stalls (encode keys ++ rest)
              (ipcPayloadLen (encode keys ++ rest)) (encode keys).length) ∨
            Payload.Measures ipcPayloadLen (encode keys) ∧ forall rest,
              Stalls (encode vals ++ rest) (ipcPayloadLen (encode vals ++ rest))
                (encode vals).length := by
          by_cases hfirst : keys.HasPrimitive
          · exact Or.inl (hkeys.right hfirst)
          · exact Or.inr ⟨hkeys.left hfirst, hvals.right (hsome.resolve_left hfirst)⟩
        have hdict := dictLen_stalls rest hfit KdbType.dict.i8 hparts
        rw [hscan, hlen, encode, List.cons_append]
        exact hdict
  | function text => exact fun h => h.elim
  | primitive arity val =>
      intro _ _ _
      refine ⟨fun hnone => absurd trivial hnone, fun _ rest => Or.inl ?_⟩
      rw [encode, ipcPayloadLen_eq]
      cases arity <;> rfl
  | projection parts => exact fun h => h.elim

/--
A value with a primitive in it is never answered with its size.  In a dict of
`2^31` bytes or more the lengths of the parts are cut down to 32 bits, and the scan
may go on somewhere inside a part without coming to the primitive.
-/
theorem ipcPayloadLen_primitive (v : KVal) (hsized : v.Sized) (hcounts : v.CountsFit)
    (hsome : v.HasPrimitive) (hfit : v.DictsFit) (rest : List UInt8) :
    ipcPayloadLen (v.encode ++ rest) ≠ some (v.encode.length : Int) := by
  intro hscan
  rcases (outcome v hsized hcounts hfit).right hsome rest with hcode | ⟨r, hr, hlen, _⟩
  · rw [hcode] at hscan
    have hlength := Option.some.inj hscan
    omega
  · rw [hlen] at hscan
    have hlength := Option.some.inj hscan
    omega

/-- A table of one row with the generic null in it. -/
theorem ipcPayloadLen_primitive_table :
    ipcPayloadLen ((KVal.table 0 [⟨[97], by decide⟩] 0
        [.list 0 [.primitive .unary 255]]).encode ++ [0]) ≠
      some ((KVal.table 0 [⟨[97], by decide⟩] 0
        [.list 0 [.primitive .unary 255]]).encode.length : Int) :=
  ipcPayloadLen_primitive (.table 0 [⟨[97], by decide⟩] 0 [.list 0 [.primitive .unary 255]])
    (by simp [Sized, SizedAll]) (by simp [CountsFit, CountsFitAll])
    (by simp [HasPrimitive, HasPrimitiveAny])
    (by simp only [DictsFit, DictsFitAll]; decide +kernel) [0]

/-- The generic null alone. -/
theorem ipcPayloadLen_primitive_null :
    ipcPayloadLen (KVal.primitive .unary 255).encode = some (-2) ∧
      (KVal.primitive .unary 255).obj.wireSz = some 2 := by
  decide +kernel

end KVal

end MgKdb
