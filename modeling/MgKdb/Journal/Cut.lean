import MgKdb.Journal.Payload

/-!
# The scanner on a cut payload

A journal whose last record was not written completely ends inside a payload.  The
scanner should say so.  It does, unless the end lies where it does not look: it sees
only the type of an atom, and it adds two to whatever it finds inside a table.
-/

namespace MgKdb

open Foundation

inductive CutPlace where
  /-- Where the scanner looks. -/
  | checked
  /-- In the value of an atom of fixed width, or right behind the type of a table. -/
  | unchecked
  /-- Inside a table that nothing follows. -/
  | inTable
  /-- Inside a table that something follows, or with a dict of 2^31 bytes in the way. -/
  | lost
  deriving DecidableEq, Repr

namespace CutPlace

/-- The place in a payload of which the part that is cut is not the last one. -/
def followed : CutPlace -> CutPlace
  | checked => checked
  | unchecked => unchecked
  | inTable | lost => lost

def tabled : CutPlace -> CutPlace
  | checked | inTable => inTable
  | unchecked => unchecked
  | lost => lost

def measured (fits : Prop) [Decidable fits] (place : CutPlace) : CutPlace :=
  if fits ∨ place = checked then place else lost

/-- What the scanner makes of the front of a payload of `full` bytes. -/
def Says (full : Nat) : CutPlace -> Scan -> Prop
  | checked, res => res = some (-1)
  | unchecked, res => res = none ∨ res = some (full : Int)
  | inTable, res => exists n : Nat, n <= full ∧ res = some (n : Int)
  | lost, _ => True

theorem says_measured {fits : Prop} [Decidable fits] {full : Nat} {place : CutPlace}
    {res : Scan} (h : fits ∨ place = checked -> place.Says full res) :
    (place.measured fits).Says full res := by
  rw [measured]
  split
  next hfits => exact h hfits
  next => trivial

theorem says_tabled {full : Nat} {place : CutPlace} {res : Scan} (h : place.Says full res) :
    place.tabled.Says (2 + full) (res.map (fun len => 2 + len)) := by
  cases place with
  | checked =>
      refine ⟨1, by omega, ?_⟩
      rw [show res = some (-1) from h]
      rfl
  | unchecked =>
      rcases h with rfl | rfl
      · exact Or.inl rfl
      · exact Or.inr rfl
  | inTable =>
      rcases h with ⟨n, hn, rfl⟩
      exact ⟨2 + n, by omega, rfl⟩
  | lost => trivial

end CutPlace

namespace Payload

mutual

def decDictsFit : (p : Payload) -> Decidable p.DictsFit
  | atom _ _ => isTrue trivial
  | symbolAtom _ => isTrue trivial
  | vector _ _ _ => isTrue trivial
  | symbolVector _ _ => isTrue trivial
  | list _ parts => decDictsFitAll parts
  | dict _ keys vals =>
      have := decDictsFit keys
      have := decDictsFit vals
      inferInstanceAs (Decidable (1 + (bytes keys).length + (bytes vals).length < 2 ^ 31 ∧
        DictsFit keys ∧ DictsFit vals))
  | table _ _ cols vals =>
      have := decDictsFit cols
      have := decDictsFit vals
      inferInstanceAs (Decidable (1 + (bytes cols).length + (bytes vals).length < 2 ^ 31 ∧
        DictsFit cols ∧ DictsFit vals))

def decDictsFitAll : (ps : List Payload) -> Decidable (DictsFitAll ps)
  | [] => isTrue trivial
  | p :: ps =>
      have := decDictsFit p
      have := decDictsFitAll ps
      inferInstanceAs (Decidable (DictsFit p ∧ DictsFitAll ps))

end

instance (p : Payload) : Decidable p.DictsFit :=
  decDictsFit p

def pairPlace (keys vals : Payload) (keysPlace valsPlace : Nat -> CutPlace) (k : Nat) :
    CutPlace :=
  (if k < keys.bytes.length then (keysPlace k).followed
    else if keys.DictsFit ∧ keys.bytes.length < 2 ^ 31 then
      valsPlace (k - keys.bytes.length)
    else .lost).measured (1 + keys.bytes.length + vals.bytes.length < 2 ^ 31)

mutual

/-- The place of a cut behind the first `k` bytes. -/
def cutPlace : Payload -> Nat -> CutPlace
  | atom _ _, k => if k = 0 then .checked else .unchecked
  | symbolAtom _, _ => .checked
  | vector _ _ _, _ => .checked
  | symbolVector _ _, _ => .checked
  | list _ parts, k => if k < 6 then .checked else cutPlaces parts (k - 6)
  | dict _ keys vals, k =>
      if k = 0 then .checked
      else pairPlace keys vals (cutPlace keys) (cutPlace vals) (k - 1)
  | table _ _ cols vals, k =>
      if k = 0 then .checked
      else if k = 1 then .unchecked
      else if k = 2 then .inTable
      else (pairPlace cols vals (cutPlace cols) (cutPlace vals) (k - 3)).tabled

def cutPlaces : List Payload -> Nat -> CutPlace
  | [], _ => .checked
  | p :: ps, k =>
      if k < p.bytes.length then
        if ps = [] then cutPlace p k else (cutPlace p k).followed
      else if p.DictsFit then cutPlaces ps (k - p.bytes.length)
      else .lost

end

/-!
## The parts
-/

theorem symVecLoop_cut {src : List UInt8} (syms : List NulText) :
    forall {off : Nat}, off <= src.length -> src.drop off <+: KVal.symsBytes syms ->
      (src.drop off).length < (KVal.symsBytes syms).length ->
      symVecLoop src syms.length off = some (-1) := by
  induction syms with
  | nil =>
      intro off _ _ hlt
      simp at hlt
  | cons s syms ih =>
      intro off hoff hpre hlt
      rw [KVal.symsBytes_cons] at hpre hlt
      have hscan := s.strnlen_of_front hpre
      have hlen : (src.drop off).length = src.length - off := List.length_drop
      have hs := s.bytes_length
      rw [List.length_append] at hlt
      rw [hlen] at hscan
      rw [List.length_cons, symVecLoop, hscan]
      by_cases hshort : src.length - off <= s.text.length
      · rw [if_pos (by omega)]
      · rw [if_neg (by omega), Nat.min_eq_left (by omega)]
        have hfront : s.bytes <+: src.drop off :=
          List.prefix_of_prefix_length_le (List.prefix_append _ _) hpre (by omega)
        have hdrop := hpre.drop s.bytes.length
        rw [List.drop_left, List.drop_drop, hs] at hdrop
        refine ih (by omega) hdrop ?_
        rw [List.length_drop]
        omega

/-- The scanner is given the front of a payload, but not all of it. -/
def SaysCut (p : Payload) : Prop :=
  forall front, front <+: p.bytes -> front.length < p.bytes.length ->
    (p.cutPlace front.length).Says p.bytes.length (ipcPayloadLen front)

theorem listLoop_cut {src : List UInt8} (ps : List Payload) :
    forall {len : Nat}, (forall p, p ∈ ps -> p.WellFormed ∧ p.SaysCut) ->
      len <= src.length -> src.drop len <+: bytesAll ps ->
      src.length - len < (bytesAll ps).length ->
      (cutPlaces ps (src.length - len)).Says (len + (bytesAll ps).length)
        (listLoop ipcPayloadLen src ps.length len) := by
  induction ps with
  | nil =>
      intro len _ _ _ hlt
      simp [bytesAll] at hlt
  | cons p ps ih =>
      intro len hparts hlen hpre hlt
      have hdroplen : (src.drop len).length = src.length - len := List.length_drop
      rcases hparts p List.mem_cons_self with ⟨hwf, hcut⟩
      rw [bytesAll] at hpre hlt ⊢
      rw [List.length_append] at hlt ⊢
      rw [cutPlaces, List.length_cons, listLoop, if_neg (show ¬ src.length < len by omega)]
      by_cases hin : src.length - len < p.bytes.length
      · -- the cut is in this element
        have hfront : src.drop len <+: p.bytes :=
          List.prefix_of_prefix_length_le hpre (List.prefix_append _ _) (by omega)
        have hcut := hcut _ hfront (by omega)
        rw [hdroplen] at hcut
        rw [if_pos hin]
        by_cases hlast : ps = []
        · rw [if_pos hlast, hlast]
          cases hplace : p.cutPlace (src.length - len) with
          | checked =>
              rw [hplace] at hcut
              rw [hcut]
              rfl
          | unchecked =>
              rw [hplace] at hcut
              rcases hcut with hnone | hfull
              · rw [hnone]
                exact Or.inl rfl
              · rw [hfull]
                simp only
                rw [if_neg (by omega)]
                exact Or.inr rfl
          | inTable =>
              rw [hplace] at hcut
              rcases hcut with ⟨n, hn, hres⟩
              rw [hres]
              simp only
              rw [if_neg (by omega)]
              exact ⟨len + n, by omega, rfl⟩
          | lost => trivial
        · obtain ⟨n, hn⟩ : exists n, ps.length = n + 1 :=
            Nat.exists_eq_add_one.mpr (List.length_pos_of_ne_nil hlast)
          rw [if_neg hlast, hn]
          cases hplace : p.cutPlace (src.length - len) with
          | checked =>
              rw [hplace] at hcut
              rw [hcut]
              rfl
          | unchecked =>
              rw [hplace] at hcut
              rcases hcut with hnone | hfull
              · rw [hnone]
                exact Or.inl rfl
              · -- the next element would begin behind the end
                rw [hfull]
                simp only
                rw [if_neg (by omega), listLoop, if_pos (by omega)]
                exact Or.inl rfl
          | inTable => trivial
          | lost => trivial
      · rw [if_neg hin]
        by_cases hfit : p.DictsFit
        · have hmeasure := p.ipcPayloadLen_measures hwf hfit
          have hfront : p.bytes <+: src.drop len :=
            List.prefix_of_prefix_length_le (List.prefix_append _ _) hpre (by omega)
          rcases hfront with ⟨rest, hrest⟩
          have hdrop : src.drop (len + p.bytes.length) = rest := by
            rw [← List.drop_drop, ← hrest, List.drop_left]
          rw [← hrest, List.prefix_append_right_inj] at hpre
          have hmore := @ih (len + p.bytes.length)
            (fun q hq => hparts q (List.mem_cons_of_mem p hq)) (by omega)
            (by rw [hdrop]; exact hpre) (by omega)
          rw [if_pos hfit, ← hrest, hmeasure]
          simp only
          rw [if_neg (by omega), Int.toNat_natCast, Nat.sub_sub, ← Nat.add_assoc]
          exact hmore
        · rw [if_neg hfit]
          trivial

theorem dictLen_cut {keys vals : Payload} (hwf : keys.WellFormed) (hkeys : keys.SaysCut)
    (hvals : vals.SaysCut) {src : List UInt8} (hpre : src <+: keys.bytes ++ vals.bytes)
    (hlt : src.length < keys.bytes.length + vals.bytes.length) :
    (pairPlace keys vals keys.cutPlace vals.cutPlace src.length).Says
      (1 + keys.bytes.length + vals.bytes.length) (dictLen ipcPayloadLen src) := by
  rw [pairPlace]
  refine CutPlace.says_measured (fun hfits => ?_)
  rw [dictLen]
  by_cases hin : src.length < keys.bytes.length
  · have hcut := hkeys src
      (List.prefix_of_prefix_length_le hpre (List.prefix_append _ _) (by omega)) hin
    rw [if_pos hin] at hfits ⊢
    cases hplace : keys.cutPlace src.length with
    | checked =>
        rw [hplace] at hcut
        rw [hcut]
        rfl
    | unchecked =>
        rw [hplace] at hcut hfits
        have hshort := hfits.resolve_right (by simp [CutPlace.followed])
        rcases hcut with hnone | hfull
        · rw [hnone]
          exact Or.inl rfl
        · -- the second part would begin behind the end
          rw [hfull]
          simp only [i32OfInt_of_lt (show keys.bytes.length < 2 ^ 31 by omega)]
          rw [if_neg (by omega), if_pos (by omega)]
          exact Or.inl rfl
    | inTable => trivial
    | lost => trivial
  · rw [if_neg hin] at hfits ⊢
    by_cases hfit : keys.DictsFit ∧ keys.bytes.length < 2 ^ 31
    · rw [if_pos hfit] at hfits ⊢
      have hfront : keys.bytes <+: src :=
        List.prefix_of_prefix_length_le (List.prefix_append _ _) hpre (by omega)
      rcases hfront with ⟨rest, rfl⟩
      rw [List.prefix_append_right_inj] at hpre
      rw [List.length_append, Nat.add_sub_cancel_left] at hfits ⊢
      rw [List.length_append] at hlt
      have hcut := hvals rest hpre (by omega)
      rw [keys.ipcPayloadLen_measures hwf hfit.left]
      simp only [i32OfInt_of_lt hfit.right, Int.toNat_natCast]
      rw [if_neg (by omega), if_neg (by omega), List.drop_left]
      cases hplace : vals.cutPlace rest.length with
      | checked =>
          rw [hplace] at hcut
          rw [hcut]
          rfl
      | unchecked =>
          rw [hplace] at hcut hfits
          have hshort := hfits.resolve_right (by simp)
          rcases hcut with hnone | hfull
          · rw [hnone]
            exact Or.inl rfl
          · rw [hfull]
            simp only [i32OfInt_of_lt (show vals.bytes.length < 2 ^ 31 by omega)]
            rw [if_neg (by omega), if_neg (by omega)]
            exact Or.inr rfl
      | inTable =>
          rw [hplace] at hcut hfits
          have hshort := hfits.resolve_right (by simp)
          rcases hcut with ⟨n, hn, hres⟩
          rw [hres]
          simp only [i32OfInt_of_lt (show n < 2 ^ 31 by omega)]
          rw [if_neg (by omega), if_neg (by omega)]
          exact ⟨1 + keys.bytes.length + n, by omega, rfl⟩
      | lost => trivial
    · rw [if_neg hfit]
      trivial

/-!
## The whole payload
-/

theorem ipcPayloadLen_nil : ipcPayloadLen [] = some (-1) := by
  rw [ipcPayloadLen_eq]
  rfl

theorem exists_tail {hdr bytes front : List UInt8} (hpre : front <+: hdr ++ bytes)
    (hlong : hdr.length <= front.length) :
    exists tail, front = hdr ++ tail ∧ tail <+: bytes := by
  have hhdr : hdr <+: front :=
    List.prefix_of_prefix_length_le (List.prefix_append _ _) hpre hlong
  rcases hhdr with ⟨tail, rfl⟩
  exact ⟨tail, rfl, (List.prefix_append_right_inj hdr).mp hpre⟩

theorem exists_cons {typ : UInt8} {bytes front : List UInt8} (hpre : front <+: typ :: bytes)
    (hne : front ≠ []) : exists tail, front = typ :: tail ∧ tail <+: bytes := by
  cases front with
  | nil => exact absurd rfl hne
  | cons b tail =>
      rcases List.cons_prefix_cons.mp hpre with ⟨rfl, htail⟩
      exact ⟨tail, rfl, htail⟩

theorem head_of_cut {typ : UInt8} {bytes front : List UInt8}
    (hpre : front <+: typ :: bytes) (hne : front ≠ []) : front.headD 0 = typ := by
  rcases exists_cons hpre hne with ⟨tail, rfl, _⟩
  rfl

theorem cutPlace_zero (p : Payload) : p.cutPlace 0 = .checked := by
  cases p <;> rfl

theorem cutPlace_atom {k : Nat} (hk : k ≠ 0) (e : Elem) (val : BitVec (8 * e.width)) :
    (atom e val).cutPlace k = .unchecked :=
  if_neg hk

theorem cutPlace_dict {k : Nat} (hk : k ≠ 0) (step : Bool) (keys vals : Payload) :
    (dict step keys vals).cutPlace k = pairPlace keys vals keys.cutPlace vals.cutPlace (k - 1) :=
  if_neg hk

theorem cutPlace_table {k : Nat} (hk : k ≠ 0) (attr : UInt8) (step : Bool)
    (cols vals : Payload) :
    (table attr step cols vals).cutPlace k =
      if k = 1 then .unchecked
      else if k = 2 then .inTable
      else (pairPlace cols vals cols.cutPlace vals.cutPlace (k - 3)).tabled :=
  if_neg hk

theorem saysCut_of_ne_nil {p : Payload}
    (h : forall front, front ≠ [] -> front <+: p.bytes -> front.length < p.bytes.length ->
      (p.cutPlace front.length).Says p.bytes.length (ipcPayloadLen front)) :
    p.SaysCut := by
  intro front hpre hlt
  by_cases hnil : front = []
  · rw [hnil, ipcPayloadLen_nil, List.length_nil, cutPlace_zero]
    rfl
  · exact h front hnil hpre hlt

theorem saysCut_atom (e : Elem) (val : BitVec (8 * e.width)) : (atom e val).SaysCut := by
  refine saysCut_of_ne_nil ?_
  intro front hnil hpre hlt
  rw [bytes] at hpre hlt ⊢
  rcases exists_cons hpre hnil with ⟨tail, rfl, _⟩
  rw [cutPlace_atom (by simp), ipcPayloadLen_eq, ipcPayloadLenOf_atom,
    List.length_cons, wordBytes_length, Nat.add_comm]
  exact Or.inr rfl

theorem saysCut_symbolAtom (val : NulText) : (symbolAtom val).SaysCut := by
  refine saysCut_of_ne_nil ?_
  intro front hnil hpre hlt
  rw [bytes] at hpre hlt
  rcases exists_cons hpre hnil with ⟨tail, rfl, htail⟩
  rw [List.length_cons, List.length_cons, NulText.bytes_length] at hlt
  rw [← List.append_nil val.bytes] at htail
  have hscan := val.strnlen_of_front htail
  change CutPlace.checked.Says _ _
  rw [ipcPayloadLen_eq, ipcPayloadLenOf_eq_symAtom _ (by simp) rfl,
    msgLenSymAtom]
  split
  next => rfl
  next =>
    rw [List.length_cons, Nat.add_sub_cancel, List.drop_one, List.tail_cons, hscan,
      Nat.min_eq_right (by omega), if_pos rfl]
    rfl

theorem saysCut_vector {e : Elem} {attr : UInt8} {vec : List (BitVec (8 * e.width))}
    (hwf : (vector e attr vec).WellFormed) : (vector e attr vec).SaysCut := by
  rw [WellFormed] at hwf
  refine saysCut_of_ne_nil ?_
  intro front hnil hpre hlt
  rw [bytes] at hpre hlt
  have hhead := head_of_cut hpre hnil
  change CutPlace.checked.Says _ _
  rw [ipcPayloadLen_eq, ipcPayloadLenOf_eq_vec e _ (by simpa using hnil) hhead]
  by_cases hshort : front.length < 6
  · rw [msgLenVec, if_pos hshort]
    rfl
  · rcases exists_tail hpre (by rw [KVal.vecHdr_length]; omega) with ⟨tail, hfront, _⟩
    rw [List.length_append, KVal.vecHdr_length, wordsBytes_length, Nat.mul_comm] at hlt
    rw [msgLenVec_eq_cmp e hshort hhead, hfront, hdrLen_vecHdr hwf, ← hfront,
      msgLenCmp, if_neg (by omega), Int.toNat_natCast, if_pos (by omega)]
    rfl

theorem saysCut_symbolVector {attr : UInt8} {syms : List NulText}
    (hwf : (symbolVector attr syms).WellFormed) : (symbolVector attr syms).SaysCut := by
  rw [WellFormed] at hwf
  refine saysCut_of_ne_nil ?_
  intro front hnil hpre hlt
  rw [bytes] at hpre hlt
  change CutPlace.checked.Says _ _
  rw [ipcPayloadLen_eq,
    ipcPayloadLenOf_eq_symVec _ (by simpa using hnil) (head_of_cut hpre hnil),
    msgLenSymVec]
  by_cases hshort : front.length < 6
  · rw [if_pos hshort]
    rfl
  · rcases exists_tail hpre (by rw [KVal.vecHdr_length]; omega) with
      ⟨tail, hfront, htail⟩
    rw [List.length_append, KVal.vecHdr_length] at hlt
    have hdrop : front.drop 6 = tail := by rw [hfront, drop_vecHdr]
    have hlen : hdrLen front = syms.length := by rw [hfront, hdrLen_vecHdr hwf]
    rw [if_neg hshort, hlen, Int.toNat_natCast]
    exact symVecLoop_cut syms (by omega) (by rw [hdrop]; exact htail)
      (by rw [List.length_drop]; omega)

theorem saysCut_list {attr : UInt8} {parts : List Payload}
    (hwf : (list attr parts).WellFormed) (ih : forall p, p ∈ parts -> p.WellFormed -> p.SaysCut) :
    (list attr parts).SaysCut := by
  rw [WellFormed, wellFormedAll_iff] at hwf
  refine saysCut_of_ne_nil ?_
  intro front hnil hpre hlt
  rw [bytes] at hpre hlt ⊢
  change CutPlace.Says _ (if front.length < 6 then .checked else _) _
  rw [ipcPayloadLen_eq,
    ipcPayloadLenOf_eq_list _ (by simpa using hnil) (head_of_cut hpre hnil),
    msgLenList]
  by_cases hshort : front.length < 6
  · rw [if_pos hshort, if_pos hshort]
    rfl
  · rcases exists_tail hpre (by rw [KVal.vecHdr_length]; omega) with
      ⟨tail, hfront, htail⟩
    rw [List.length_append, KVal.vecHdr_length] at hlt
    have hdrop : front.drop 6 = tail := by rw [hfront, drop_vecHdr]
    have hlen : hdrLen front = parts.length := by
      rw [hfront, hdrLen_vecHdr hwf.left]
    rw [if_neg hshort, if_neg hshort, hlen, Int.toNat_natCast, List.length_append,
      KVal.vecHdr_length]
    exact listLoop_cut parts
      (fun p hp => ⟨hwf.right p hp, ih p hp (hwf.right p hp)⟩) (by omega)
      (by rw [hdrop]; exact htail) (by omega)

theorem saysCut_dict {step : Bool} {keys vals : Payload} (hkeys : keys.WellFormed)
    (ihk : keys.SaysCut) (ihv : vals.SaysCut) : (dict step keys vals).SaysCut := by
  refine saysCut_of_ne_nil ?_
  intro front hnil hpre hlt
  rw [bytes] at hpre hlt ⊢
  rcases exists_cons hpre hnil with ⟨tail, rfl, htail⟩
  have htyp : dictTyp step = .dict ∨ dictTyp step = .stepDict ∨
      dictTyp step = .table := by
    cases step <;> simp [dictTyp]
  rw [List.length_cons, List.length_cons, List.length_append] at hlt
  have hpair := dictLen_cut hkeys ihk ihv htail (by omega)
  rw [cutPlace_dict (by simp), ipcPayloadLen_eq, ipcPayloadLenOf_vary htyp,
    msgLenVary_dict, List.length_cons, List.length_cons, List.length_append,
    Nat.add_sub_cancel]
  rwa [show keys.bytes.length + vals.bytes.length + 1 =
    1 + keys.bytes.length + vals.bytes.length by omega]

theorem saysCut_table {attr : UInt8} {step : Bool} {cols vals : Payload}
    (hcols : cols.WellFormed) (ihc : cols.SaysCut) (ihv : vals.SaysCut) :
    (table attr step cols vals).SaysCut := by
  refine saysCut_of_ne_nil ?_
  intro front hnil hpre hlt
  rw [bytes] at hpre hlt ⊢
  rcases exists_cons hpre hnil with ⟨front, rfl, hatt⟩
  rw [cutPlace_table (by simp), ipcPayloadLen_eq,
    ipcPayloadLenOf_vary (Or.inr (Or.inr rfl))]
  by_cases hone : front = []
  · rw [hone, List.length_singleton, if_pos rfl]
    exact Or.inl rfl
  · rcases exists_cons hatt hone with ⟨front, rfl, hdict⟩
    rw [if_neg (by simp), msgLenVary, if_pos rfl]
    by_cases htwo : front = []
    · rw [htwo, if_pos (by simp)]
      exact ⟨1, by simp, rfl⟩
    · rcases exists_cons hdict htwo with ⟨tail, rfl, htail⟩
      simp only [List.length_cons, List.length_append] at hlt
      have hpair := dictLen_cut hcols ihc ihv htail (by omega)
      rw [if_neg (by simp), msgLenVary_dict]
      simp only [List.length_cons, List.length_append]
      rw [show cols.bytes.length + vals.bytes.length + 1 + 1 + 1 =
        2 + (1 + cols.bytes.length + vals.bytes.length) by omega]
      exact CutPlace.says_tabled hpair

theorem saysCut (p : Payload) : p.WellFormed -> p.SaysCut := by
  induction p with
  | atom e val => exact fun _ => saysCut_atom e val
  | symbolAtom val => exact fun _ => saysCut_symbolAtom val
  | vector e attr vec => exact saysCut_vector
  | symbolVector attr syms => exact saysCut_symbolVector
  | list attr parts ih => exact fun hwf => saysCut_list hwf ih
  | dict step keys vals ihk ihv =>
      rintro ⟨hkeys, hvals⟩
      exact saysCut_dict hkeys (ihk hkeys) (ihv hvals)
  | table attr step cols vals ihc ihv =>
      rintro ⟨hcols, hvals⟩
      exact saysCut_table hcols (ihc hcols) (ihv hvals)

/--
The scanner answers -1 for the front of a payload that is cut where it looks, and a
length or nothing at all for one that is cut where it does not.
-/
theorem ipcPayloadLen_front (p : Payload) (hwf : p.WellFormed) (front : List UInt8)
    (hpre : front <+: p.bytes) (hlt : front.length < p.bytes.length) :
    (p.cutPlace front.length = .checked -> ipcPayloadLen front = some (-1)) ∧
      (p.cutPlace front.length ≠ .checked -> p.cutPlace front.length ≠ .lost ->
        ipcPayloadLen front ≠ some (-1)) := by
  have hcut := p.saysCut hwf front hpre hlt
  cases hplace : p.cutPlace front.length with
  | checked =>
      rw [hplace] at hcut
      exact ⟨fun _ => hcut, fun h => absurd rfl h⟩
  | unchecked =>
      rw [hplace] at hcut
      refine ⟨fun h => absurd h (by simp), fun _ _ => ?_⟩
      rcases hcut with hnone | hfull
      · rw [hnone]
        simp
      · rw [hfull]
        simp
  | inTable =>
      rw [hplace] at hcut
      refine ⟨fun h => absurd h (by simp), fun _ _ => ?_⟩
      rcases hcut with ⟨n, _, hn⟩
      rw [hn]
      simp
  | lost => exact ⟨fun h => absurd h (by simp), fun _ h => absurd rfl h⟩

/-- A list cut inside its last element, a vector of two shorts. -/
theorem ipcPayloadLen_front_vector :
    ipcPayloadLen ((Payload.list 0 [.atom .bool 1, .vector .short 0 [1, 2]]).bytes.take 16) =
      some (-1) :=
  ((Payload.list 0 [.atom .bool 1, .vector .short 0 [1, 2]]).ipcPayloadLen_front
    (by simp [WellFormed, WellFormedAll]) _ (List.take_prefix _ _)
    (by decide +kernel)).left (by decide +kernel)

/-- A long atom of which only the type is there is answered by nine. -/
theorem ipcPayloadLen_front_atom :
    ¬ forall p : Payload, p.WellFormed -> forall front, front <+: p.bytes ->
      front.length < p.bytes.length -> ipcPayloadLen front = some (-1) := by
  intro hclaim
  have hanswer := hclaim (.atom .long 7) trivial [KdbType.longAtom.i8]
    ⟨[7, 0, 0, 0, 0, 0, 0, 0], by decide +kernel⟩ (by decide +kernel)
  revert hanswer
  decide +kernel

end Payload

end MgKdb
