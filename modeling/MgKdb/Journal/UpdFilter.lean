import MgKdb.Journal.Outline

/-!
# The filter for tickerplant updates

`_filter_upd_msg` looks for a call of a function for one of a set of tables.
It walks over the raw bytes; the length that it is told bounds only the search for
the end of the function's name.  A read beyond the end of the buffer has no result
here.
-/

namespace MgKdb

open Foundation

/-- A `uint64_t` or an `int64_t` sum as an `int64_t`. -/
def i64 (x : Int) : Int :=
  (BitVec.ofInt 64 x).toInt

/-- `"upd"` -/
def updName : List UInt8 :=
  [117, 112, 100]

theorem nulFree_updName : NulFree updName := by
  decide

theorem nulFree_tblName : NulFree [116] := by
  decide

/-- The call `(`upd;`t;7)`. -/
def updCall : Payload :=
  .list 0 [.symbolAtom ⟨updName, nulFree_updName⟩, .symbolAtom ⟨[116], nulFree_tblName⟩,
    .atom .long 7]

/-- `strnlen`, of which the bound may lie beyond the buffer. -/
def strnlenIn (src : List UInt8) (max : Nat) : Option Nat :=
  if src.length < max ∧ strnlen src max = src.length then none
  else some (strnlen src max)

def stringView (src : List UInt8) : Option (List UInt8) :=
  if strnlen src src.length = src.length then none
  else some (src.take (strnlen src src.length))

/-- The part of `_filter_upd_msg` from the second element on. -/
def matchesTable (src : List UInt8) (off : Nat) (tbl_names : List (List UInt8)) :
    Option Bool :=
  match src[off]? with
  | none => none
  | some typ =>
      if typ ≠ KdbType.symbolAtom.i8 then some false
      else
        (stringView (src.drop (off + 1))).map (fun tbl => decide (tbl ∈ tbl_names))

/-- The part of `_filter_upd_msg` from the name of the function on. -/
def matchesName (src : List UInt8) (len : Nat) (fn_name : List UInt8)
    (tbl_names : List (List UInt8)) : Option Bool :=
  match strnlenIn (src.drop 7) (u64 (len - 7)) with
  | none => none
  | some fln =>
      if fln ≠ fn_name.length then some false
      else if (src.drop 7).take fln ≠ fn_name then some false
      else matchesTable src (8 + fln) tbl_names

/-- Whether `_filter_upd_msg` answers `+len`. -/
def matchesUpd (src : List UInt8) (len : Nat) (fn_name : List UInt8)
    (tbl_names : List (List UInt8)) : Option Bool :=
  match src[0]? with
  | none => none
  | some typ =>
      if typ ≠ KdbType.list.i8 then some false
      else if src.length < 6 then none
      else if hdrLen src < 3 then some false
      else
        match src[6]? with
        | none => none
        | some typ =>
            if typ ≠ KdbType.symbolAtom.i8 then some false
            else matchesName src len fn_name tbl_names

def filterUpdMsg (src : List UInt8) (len : Nat) (fn_name : List UInt8)
    (tbl_names : List (List UInt8)) : Option Int :=
  (matchesUpd src len fn_name tbl_names).map
    (fun matched => i64 (if matched then len else -len))

/-- `KdbUpdMsgFilter::filter_msg`, on the `rem` bytes that are in the buffer. -/
def filterMsg (src fn_name : List UInt8) (tbl_names : List (List UInt8)) :
    Option Int :=
  if src.length < 8 then some (-1)
  else if src.headD 0 ≠ 1 then some (-2)
  else if i32At (src.drop 4) < 0 then some (-2)
  else if src.length < (i32At (src.drop 4)).toNat then some (-1)
  else
    (filterUpdMsg (src.drop 8) (u64 (i32At (src.drop 4) - 8)) fn_name tbl_names).map
      (fun res => if res < 0 then res - 8 else res + 8)

/-!
## Payloads
-/

theorem i64_of_lt {x : Int} (hlow : -2 ^ 63 <= x) (hhigh : x < 2 ^ 63) : i64 x = x := by
  rw [i64, BitVec.toInt_ofInt]
  exact Int.bmod_eq_of_le (by omega) (by omega)

theorem strnlenIn_terminated {s : List UInt8} (h : NulFree s) (tail : List UInt8)
    {max : Nat} (hmax : s.length < max) :
    strnlenIn (s ++ 0 :: tail) max = some s.length := by
  have hscan := strnlen_terminated h tail hmax
  rw [strnlenIn, if_neg, hscan]
  rw [hscan, List.length_append, List.length_cons]
  omega

theorem stringView_terminated {s : List UInt8} (h : NulFree s) (tail : List UInt8) :
    stringView (s ++ 0 :: tail) = some s := by
  have hscan : strnlen (s ++ 0 :: tail) (s ++ 0 :: tail).length = s.length :=
    strnlen_terminated h tail (by simp)
  rw [stringView, hscan, if_neg (by simp), List.take_left]

theorem stringView_eq_some {src s : List UInt8} :
    stringView src = some s <-> NulFree s ∧ s ++ [0] <+: src := by
  constructor
  · intro h
    rcases strnlen_spec src src.length with ⟨hle, hfree, hstop⟩
    unfold stringView at h
    split at h
    · cases h
    · rename_i hne
      cases h
      have htake := List.take_add_one (l := src) (i := strnlen src src.length)
      rw [hstop (by omega), Option.toList_some] at htake
      exact ⟨hfree, htake ▸ List.take_prefix _ _⟩
  · rintro ⟨hfree, rest, rfl⟩
    rw [List.append_assoc]
    exact stringView_terminated hfree rest

theorem stringView_isSome {src : List UInt8} :
    (exists s, stringView src = some s) <-> 0 ∈ src := by
  rw [← strnlen_lt_iff, stringView]
  have hle := (strnlen_spec src src.length).left
  split
  · refine ⟨fun h => ?_, fun h => by omega⟩
    rcases h with ⟨s, hs⟩
    cases hs
  · exact ⟨fun _ => by omega, fun _ => ⟨_, rfl⟩⟩

theorem isUpdCall_short (fn_name : List UInt8) (tbl_names : List (List UInt8))
    {syms : List (Option NulText)} (h : syms.length < 3) :
    isUpdCall fn_name tbl_names syms = false := by
  match syms with
  | [] => rfl
  | [_] => simp [isUpdCall]
  | [_, _] => simp [isUpdCall]
  | _ :: _ :: _ :: _ => simp at h; omega

theorem isUpdCall_three (fn_name : List UInt8) (tbl_names : List (List UInt8))
    (fn : NulText) (second third : Option NulText) (more : List (Option NulText)) :
    isUpdCall fn_name tbl_names (some fn :: second :: third :: more) =
      match second with
      | none => false
      | some tbl => decide (fn.text = fn_name ∧ tbl.text ∈ tbl_names) := by
  cases second <;> rfl

theorem exists_three {α : Type} {xs : List α} (h : ¬ xs.length < 3) :
    exists a b c more, xs = a :: b :: c :: more := by
  match xs with
  | [] => exact absurd (by simp) h
  | [_] => exact absurd (by simp) h
  | [_, _] => exact absurd (by simp) h
  | a :: b :: c :: more => exact ⟨a, b, c, more, rfl⟩

theorem matchesUpd_call {src fn_name : List UInt8} {tbl_names : List (List UInt8)}
    {len : Nat} (fn : NulText) (part : Outline.Part) (parts : List Outline.Part)
    {rest : List UInt8} (hlist : src[0]? = some KdbType.list.i8) (hroom : 6 <= src.length)
    (hcount : 3 <= hdrLen src) (hlen : 7 + fn.text.length < len) (hbound : len < 2 ^ 64)
    (hdrop : src.drop 6 = KdbType.symbolAtom.i8 :: (fn.bytes ++
      (part.bytes ++ (Outline.partsBytes parts ++ rest)))) :
    matchesUpd src len fn_name tbl_names =
      some (match part.symbol with
        | none => false
        | some tbl => decide (fn.text = fn_name ∧ tbl.text ∈ tbl_names)) := by
  have hat : forall i, src[6 + i]? = (src.drop 6)[i]? := fun i => List.getElem?_drop.symm
  have hdrop7 : src.drop 7 = fn.text ++ 0 :: (part.bytes ++
      (Outline.partsBytes parts ++ rest)) := by
    rw [show 7 = 6 + 1 from rfl, ← List.drop_drop, hdrop]
    simp [NulText.bytes]
  have hscan := strnlenIn_terminated fn.nulFree
    (part.bytes ++ (Outline.partsBytes parts ++ rest))
    (show fn.text.length < u64 (len - 7) by unfold u64; omega)
  have hdrop8 : src.drop (8 + fn.text.length) =
      part.bytes ++ (Outline.partsBytes parts ++ rest) := by
    rw [show 8 + fn.text.length = 7 + (fn.text.length + 1) by omega, ← List.drop_drop,
      hdrop7, ← List.drop_drop, List.drop_left]
    rfl
  have hat8 : src[8 + fn.text.length]? =
      (part.bytes ++ (Outline.partsBytes parts ++ rest))[0]? := by
    rw [← hdrop8, List.getElem?_drop, Nat.add_zero]
  have hfirst : src[6]? = some KdbType.symbolAtom.i8 := by
    rw [show 6 = 6 + 0 from rfl, hat, hdrop]
    rfl
  rw [matchesUpd, hlist]
  simp only
  rw [if_neg (by simp), if_neg (by omega), if_neg (by omega), hfirst]
  simp only
  rw [if_neg (by simp), matchesName, hdrop7, hscan]
  simp only
  rw [List.take_left]
  by_cases hfn : fn.text = fn_name
  · rw [if_neg (by rw [hfn]; simp), if_neg (by rw [hfn]; simp), matchesTable, hat8]
    cases part with
    | other typ more htyp =>
        simp only [Outline.Part.bytes, List.cons_append, List.getElem?_cons_zero]
        rw [if_pos htyp]
        rfl
    | symbolAtom tbl =>
        have hdrop9 : src.drop (8 + fn.text.length + 1) =
            tbl.text ++ 0 :: (Outline.partsBytes parts ++ rest) := by
          rw [← List.drop_drop, hdrop8]
          simp [Outline.Part.bytes, NulText.bytes]
        simp only [Outline.Part.bytes, List.cons_append, List.getElem?_cons_zero]
        rw [if_neg (by simp), hdrop9, stringView_terminated tbl.nulFree]
        simp [Outline.Part.symbol, hfn]
  · have hno : (match part.symbol with
        | none => false
        | some tbl => decide (fn.text = fn_name ∧ tbl.text ∈ tbl_names)) = false := by
      cases part.symbol <;> simp [hfn]
    rw [hno, if_pos hfn]
    split <;> rfl

theorem matchesUpd_outline (o : Outline) (hcount : o.CountFits)
    (hbound : o.bytes.length < 2 ^ 64) (fn_name : List UInt8)
    (tbl_names : List (List UInt8)) (rest : List UInt8) :
    matchesUpd (o.bytes ++ rest) o.bytes.length fn_name tbl_names =
      some (o.isUpd fn_name tbl_names) := by
  cases o with
  | other typ more htyp =>
      rw [matchesUpd, Outline.bytes, List.cons_append, List.getElem?_cons_zero]
      simp only
      rw [if_pos htyp]
      rfl
  | list attr parts =>
      obtain ⟨src, hsrc⟩ : exists src, src = (Outline.list attr parts).bytes ++ rest :=
        ⟨_, rfl⟩
      have hlist : src[0]? = some KdbType.list.i8 := by rw [hsrc]; rfl
      have hroom : 6 <= src.length := by
        rw [hsrc, Outline.bytes, List.append_assoc, List.length_append,
          KVal.vecHdr_length]
        omega
      have hlen : hdrLen src = parts.length := by
        rw [hsrc, Outline.bytes, List.append_assoc, Payload.hdrLen_vecHdr hcount]
      have hdrop : src.drop 6 = Outline.partsBytes parts ++ rest := by
        rw [hsrc, Outline.bytes, List.append_assoc, Payload.drop_vecHdr]
      rw [← hsrc, Outline.isUpd]
      by_cases hthree : parts.length < 3
      · rw [matchesUpd, hlist]
        simp only
        rw [if_neg (by simp), if_neg (by omega), if_pos (by omega), isUpdCall_short]
        simpa using hthree
      · rcases exists_three hthree with ⟨first, second, third, more, rfl⟩
        rw [Outline.partsBytes_cons, Outline.partsBytes_cons,
          List.append_assoc, List.append_assoc] at hdrop
        have hmany : 3 <= hdrLen src := by
          rw [hlen]
          simp only [List.length_cons]
          omega
        cases first with
        | symbolAtom fn =>
            have hlong : 7 + fn.text.length < (Outline.list attr
                (.symbolAtom fn :: second :: third :: more)).bytes.length := by
              have hpos := second.bytes_pos
              rw [Outline.bytes, List.length_append, KVal.vecHdr_length,
                Outline.partsBytes_cons, Outline.partsBytes_cons, List.length_append,
                List.length_append, Outline.Part.bytes, List.length_cons,
                NulText.bytes_length]
              omega
            rw [matchesUpd_call fn second (third :: more) hlist hroom hmany hlong hbound
              hdrop, List.map_cons, List.map_cons, List.map_cons, Outline.Part.symbol,
              isUpdCall_three]
        | other typ tail htyp =>
            have hfirst : src[6]? = some typ := by
              have hat : (src.drop 6)[0]? = some typ := by rw [hdrop]; rfl
              rwa [List.getElem?_drop] at hat
            rw [matchesUpd, hlist]
            simp only
            rw [if_neg (by simp), if_neg (by omega), if_neg (by omega), hfirst]
            simp only
            rw [if_pos htyp]
            rfl

theorem verdict_i64 {n : Nat} (hn : n < 2 ^ 63) (matched : Bool) :
    i64 (if matched then (n : Int) else -n) = if matched then (n : Int) else -n := by
  refine i64_of_lt ?_ ?_
  · split <;> omega
  · split <;> omega

theorem filterUpdMsg_outline (o : Outline) (hcount : o.CountFits)
    (hlen : o.bytes.length < 2 ^ 63) (fn_name : List UInt8)
    (tbl_names : List (List UInt8)) (rest : List UInt8) :
    filterUpdMsg (o.bytes ++ rest) o.bytes.length fn_name tbl_names =
      some (if o.isUpd fn_name tbl_names then (o.bytes.length : Int)
        else -o.bytes.length) := by
  rw [filterUpdMsg, matchesUpd_outline o hcount (by omega), Option.map_some,
    verdict_i64 hlen]

theorem KVal.isUpd_iff {v : KVal} {fn_name : List UInt8}
    {tbl_names : List (List UInt8)} :
    v.isUpd fn_name tbl_names = true <->
      exists attr fn tbl third more,
        v = .list attr (.symbolAtom fn :: .symbolAtom tbl :: third :: more) ∧
          fn.text = fn_name ∧ tbl.text ∈ tbl_names := by
  constructor
  · intro h
    cases v with
    | list attr vals =>
        by_cases hthree : vals.length < 3
        · rw [KVal.isUpd, isUpdCall_short _ _ (by simpa using hthree)] at h
          cases h
        · rcases exists_three hthree with ⟨first, second, third, more, rfl⟩
          cases first with
          | symbolAtom fn =>
              cases second with
              | symbolAtom tbl =>
                  exact ⟨attr, fn, tbl, third, more, rfl, of_decide_eq_true h⟩
              | _ => cases h
          | _ => cases h
    | _ => cases h
  · rintro ⟨attr, fn, tbl, third, more, rfl, hfn, htbl⟩
    exact decide_eq_true ⟨hfn, htbl⟩

theorem Outline.isUpd_iff {o : Outline} {fn_name : List UInt8} {tbl_names : List (List UInt8)} :
    o.isUpd fn_name tbl_names = true <->
      exists attr fn tbl third more,
        o = .list attr (.symbolAtom fn :: .symbolAtom tbl :: third :: more) ∧
          fn.text = fn_name ∧ tbl.text ∈ tbl_names := by
  constructor
  · intro h
    cases o with
    | other typ rest htyp => cases h
    | list attr parts =>
        by_cases hthree : parts.length < 3
        · rw [isUpd, isUpdCall_short _ _ (by simpa using hthree)] at h
          cases h
        · rcases exists_three hthree with ⟨first, second, third, more, rfl⟩
          rcases first with fn | _
          · rcases second with tbl | _
            · exact ⟨attr, fn, tbl, third, more, rfl, of_decide_eq_true h⟩
            · cases h
          · cases h
  · rintro ⟨attr, fn, tbl, third, more, rfl, hfn, htbl⟩
    exact decide_eq_true ⟨hfn, htbl⟩

/--
On a whole payload, with nothing readable behind it or with any bytes, the filter answers its
length: positive where the payload is a `call`, negative elsewhere.
-/
def FilterTells (fn_name : List UInt8) (tbl_names : List (List UInt8)) (payload : List UInt8)
    (call : Prop) : Prop :=
  forall rest,
    (filterUpdMsg (payload ++ rest) payload.length fn_name tbl_names =
      some (payload.length : Int) <-> call) ∧
    (¬ call -> filterUpdMsg (payload ++ rest) payload.length fn_name tbl_names =
      some (-(payload.length : Int)))

theorem Outline.filterTells (o : Outline) (hcount : o.CountFits) (hlen : o.bytes.length < 2 ^ 63)
    (fn_name : List UInt8) (tbl_names : List (List UInt8)) :
    FilterTells fn_name tbl_names o.bytes (o.isUpd fn_name tbl_names = true) := by
  intro rest
  have hpos := o.bytes_pos
  rw [filterUpdMsg_outline o hcount hlen]
  cases o.isUpd fn_name tbl_names
  · refine ⟨⟨fun h => ?_, fun h => by cases h⟩, fun _ => rfl⟩
    have hneg := Option.some.inj h
    simp only [Bool.false_eq_true, if_false] at hneg
    omega
  · exact ⟨⟨fun _ => rfl, fun _ => rfl⟩, fun h => absurd rfl h⟩

/--
The filter tells the calls with `fn_name` and one of the tables from everything else, among the
values and among all payloads, whatever the type bytes and the attributes inside.
-/
theorem KVal.filterUpdMsg_encode (fn_name : NulText) (tbl_names : List (List UInt8)) :
    (forall v : KVal, v.CountsFit -> v.encode.length < 2 ^ 63 ->
      FilterTells fn_name.text tbl_names v.encode
        (exists attr fn tbl third more,
          v = .list attr (.symbolAtom fn :: .symbolAtom tbl :: third :: more) ∧
            fn.text = fn_name.text ∧ tbl.text ∈ tbl_names)) ∧
    (forall o : Outline, o.CountFits -> o.bytes.length < 2 ^ 63 ->
      FilterTells fn_name.text tbl_names o.bytes
        (exists attr fn tbl third more,
          o = .list attr (.symbolAtom fn :: .symbolAtom tbl :: third :: more) ∧
            fn.text = fn_name.text ∧ tbl.text ∈ tbl_names)) := by
  constructor
  · intro v hfit hlen
    rcases v.exists_outline hfit with ⟨o, hbytes, hcount, hupd⟩
    have htells := o.filterTells hcount (by rw [hbytes]; exact hlen) fn_name.text tbl_names
    rw [hbytes, hupd, KVal.isUpd_iff] at htells
    exact htells
  · intro o hcount hlen
    rw [← Outline.isUpd_iff]
    exact o.filterTells hcount hlen fn_name.text tbl_names

/-- The call `(`upd;`t;7)`, for a set with `t` in it, and one with a datetime for the `7`. -/
theorem KVal.filterUpdMsg_encode_upd :
    filterUpdMsg ((KVal.list 0 [.symbolAtom ⟨[117, 112, 100], by decide⟩,
        .symbolAtom ⟨[116], by decide⟩, .atom .long 7]).encode ++ [])
      (KVal.list 0 [.symbolAtom ⟨[117, 112, 100], by decide⟩,
        .symbolAtom ⟨[116], by decide⟩, .atom .long 7]).encode.length
      [117, 112, 100] [[116]] =
    some ((KVal.list 0 [.symbolAtom ⟨[117, 112, 100], by decide⟩,
        .symbolAtom ⟨[116], by decide⟩, .atom .long 7]).encode.length : Int) ∧
    filterUpdMsg ((Outline.list 0 [.symbolAtom ⟨[117, 112, 100], by decide⟩,
        .symbolAtom ⟨[116], by decide⟩,
        .other 0xf1 (List.replicate 8 0) (by decide)]).bytes ++ [])
      (Outline.list 0 [.symbolAtom ⟨[117, 112, 100], by decide⟩,
        .symbolAtom ⟨[116], by decide⟩,
        .other 0xf1 (List.replicate 8 0) (by decide)]).bytes.length
      [117, 112, 100] [[116]] =
    some ((Outline.list 0 [.symbolAtom ⟨[117, 112, 100], by decide⟩,
        .symbolAtom ⟨[116], by decide⟩,
        .other 0xf1 (List.replicate 8 0) (by decide)]).bytes.length : Int) :=
  ⟨((KVal.filterUpdMsg_encode ⟨[117, 112, 100], by decide⟩ [[116]]).left _
      (by simp [CountsFit, CountsFitAll]) (by decide +kernel) []).left.mpr
      ⟨0, ⟨[117, 112, 100], by decide⟩, ⟨[116], by decide⟩, .atom .long 7, [], rfl, rfl,
        by decide⟩,
    ((KVal.filterUpdMsg_encode ⟨[117, 112, 100], by decide⟩ [[116]]).right _
      (by rw [Outline.CountFits]; decide) (by decide +kernel) []).left.mpr
      ⟨0, ⟨[117, 112, 100], by decide⟩, ⟨[116], by decide⟩,
        .other 0xf1 (List.replicate 8 0) (by decide), [], rfl, rfl, by decide⟩⟩

end MgKdb
