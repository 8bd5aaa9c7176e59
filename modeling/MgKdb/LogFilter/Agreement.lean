import MgKdb.LogFilter.Relevance

/-!
# The two filters

The log filter and the filter for tickerplant updates look at the same messages.  On what
both support they agree.
-/

namespace MgKdb

open Foundation

namespace Payload

mutual

def Common : Payload -> Prop
  | atom _ _ | symbolAtom _ | symbolVector _ _ => True
  | vector e _ _ => e ≠ .guid
  | list _ parts => CommonAll parts
  | dict step keys vals => step = false ∧ Common keys ∧ Common vals
  | table _ step cols vals => step = false ∧ Common cols ∧ Common vals

def CommonAll : List Payload -> Prop
  | [] => True
  | p :: ps => Common p ∧ CommonAll ps

end

theorem commonAll_iff {ps : List Payload} :
    CommonAll ps <-> forall p, p ∈ ps -> Common p := by
  induction ps with
  | nil => exact iff_of_true trivial (List.forall_mem_nil _)
  | cons p ps ih =>
      rw [List.forall_mem_cons, <- ih]
      exact Iff.rfl

def named (tbl_names : List NulText) : Payload -> Bool
  | symbolAtom val => decide (val ∈ tbl_names)
  | _ => false

mutual

def logVal : Payload -> LogVal
  | atom e val => .atom (.elem e) val
  | symbolAtom val => .symbolAtom val
  | vector e attr vec => .vector (.elem e) attr vec
  | symbolVector attr syms => .symbolVector attr syms
  | list attr parts => .list attr (logVals parts)
  | dict _ keys vals => .dict (logVal keys) (logVal vals)
  | table attr _ cols vals => .table attr (logVal cols) (logVal vals)

def logVals : List Payload -> List LogVal
  | [] => []
  | p :: ps => logVal p :: logVals ps

end

theorem logVals_eq_map (ps : List Payload) : logVals ps = ps.map logVal := by
  induction ps with
  | nil => rfl
  | cons p ps ih =>
      rw [List.map_cons, <- ih]
      rfl

theorem bytesAll_logVals {ps : List Payload}
    (h : forall p, p ∈ ps -> p.logVal.bytes = p.bytes) :
    LogVal.bytesAll (logVals ps) = bytesAll ps := by
  induction ps with
  | nil => rfl
  | cons p ps ih =>
      show p.logVal.bytes ++ LogVal.bytesAll (logVals ps) = p.bytes ++ bytesAll ps
      rw [h p List.mem_cons_self, ih (fun q hq => h q (List.mem_cons_of_mem p hq))]

theorem bytes_logVal (p : Payload) : p.Common -> p.logVal.bytes = p.bytes := by
  induction p with
  | atom e val => exact fun _ => rfl
  | symbolAtom val => exact fun _ => rfl
  | vector e attr vec => exact fun _ => rfl
  | symbolVector attr syms => exact fun _ => rfl
  | list attr parts ih =>
      intro h
      have hparts := commonAll_iff.mp h
      show KVal.vecHdr .list attr (logVals parts).length ++ LogVal.bytesAll (logVals parts) =
        KVal.vecHdr .list attr parts.length ++ bytesAll parts
      rw [bytesAll_logVals (fun p hp => ih p hp (hparts p hp)), logVals_eq_map,
        List.length_map]
  | dict step keys vals ihk ihv =>
      rintro ⟨rfl, hkeys, hvals⟩
      show KdbType.dict.i8 :: (keys.logVal.bytes ++ vals.logVal.bytes) =
        KdbType.dict.i8 :: (keys.bytes ++ vals.bytes)
      rw [ihk hkeys, ihv hvals]
  | table attr step cols vals ihc ihv =>
      rintro ⟨rfl, hcols, hvals⟩
      show KdbType.table.i8 :: attr :: KdbType.dict.i8 ::
          (cols.logVal.bytes ++ vals.logVal.bytes) =
        KdbType.table.i8 :: attr :: KdbType.dict.i8 :: (cols.bytes ++ vals.bytes)
      rw [ihc hcols, ihv hvals]

theorem wellFormed_logVal (p : Payload) : p.WellFormed -> p.logVal.WellFormed := by
  induction p with
  | atom e val => exact fun _ => trivial
  | symbolAtom val => exact fun _ => trivial
  | vector e attr vec => exact fun h => h
  | symbolVector attr syms => exact fun h => h
  | list attr parts ih =>
      rintro ⟨hcount, hparts⟩
      rw [wellFormedAll_iff] at hparts
      refine ⟨?_, LogVal.everywhereAll_iff.mpr ?_⟩
      · show (logVals parts).length < 2 ^ 31
        rwa [logVals_eq_map, List.length_map]
      · intro q hq
        rw [logVals_eq_map, List.mem_map] at hq
        rcases hq with ⟨p, hp, rfl⟩
        exact ih p hp (hparts p hp)
  | dict step keys vals ihk ihv => exact fun h => ⟨trivial, ihk h.left, ihv h.right⟩
  | table attr step cols vals ihc ihv => exact fun h => ⟨trivial, ihc h.left, ihv h.right⟩

theorem accepted_logVal (p : Payload) :
    p.Common -> p.bytes.length < 2 ^ 31 -> p.logVal.Accepted := by
  induction p with
  | atom e val => exact fun _ _ => LogVal.accepted_atom _ _
  | symbolAtom val => exact fun _ _ => LogVal.accepted_symbolAtom _
  | vector e attr vec =>
      intro h hsize
      have hlen : (wordsBytes e.width vec).length = vec.length * e.width := by
        rw [wordsBytes_length, Nat.mul_comm]
      rw [bytes, List.length_append, hlen] at hsize
      refine (LogVal.accepted_vector (.elem e) attr vec).mpr
        ⟨fun heq => h (LogElem.elem.inj heq), ?_⟩
      show vec.length * e.width < 2 ^ 31
      omega
  | symbolVector attr syms => exact fun _ _ => LogVal.accepted_symbolVector _ _
  | list attr parts ih =>
      intro h hsize
      have hparts := commonAll_iff.mp h
      rw [bytes, List.length_append] at hsize
      refine (LogVal.accepted_list attr (logVals parts)).mpr ?_
      rw [logVals_eq_map]
      intro q hq
      rcases List.mem_map.mp hq with ⟨p, hp, rfl⟩
      have hle := length_le_bytesAll hp
      exact ih p hp (hparts p hp) (by omega)
  | dict step keys vals ihk ihv =>
      rintro ⟨_, hkeys, hvals⟩ hsize
      rw [bytes, List.length_cons, List.length_append] at hsize
      exact (LogVal.accepted_dict keys.logVal vals.logVal).mpr
        ⟨ihk hkeys (by omega), ihv hvals (by omega)⟩
  | table attr step cols vals ihc ihv =>
      rintro ⟨_, hcols, hvals⟩ hsize
      rw [bytes] at hsize
      simp only [List.length_cons, List.length_append] at hsize
      exact (LogVal.accepted_dict cols.logVal vals.logVal).mpr
        ⟨ihc hcols (by omega), ihv hvals (by omega)⟩

theorem isName_logVal {tbl_names : List NulText} (p : Payload) :
    p.logVal.IsName tbl_names <-> p.named tbl_names = true := by
  cases p with
  | symbolAtom val =>
      constructor
      · rintro ⟨_, heq, hmem⟩
        cases heq
        exact decide_eq_true hmem
      · intro h
        exact ⟨val, rfl, of_decide_eq_true h⟩
  | _ =>
      refine iff_of_false ?_ Bool.false_ne_true
      rintro ⟨_, heq, _⟩
      cases heq

end Payload

theorem isUpd_list {tbl_names : List NulText} {attr : UInt8} {fn : NulText}
    (hfn : fn.text = updName) (second third : Payload) (more : List Payload) :
    (Payload.list attr (.symbolAtom fn :: second :: third :: more)).isUpd updName
      (tbl_names.map NulText.text) = second.named tbl_names := by
  rw [Payload.isUpd, List.map_cons, List.map_cons, List.map_cons, Payload.symbol,
    isUpdCall_three]
  cases second with
  | symbolAtom tbl =>
      have hmem : tbl.text ∈ tbl_names.map NulText.text <-> tbl ∈ tbl_names := by
        rw [List.mem_map]
        constructor
        · rintro ⟨name, hname, htext⟩
          exact NulText.eq_of_text htext ▸ hname
        · intro h
          exact ⟨tbl, h, rfl⟩
      simp [Payload.symbol, Payload.named, hfn, hmem]
  | _ => rfl

theorem mgChkMsg_common (p : Payload) (hcommon : p.Common) (hsize : p.bytes.length < 2 ^ 31)
    (tbl_names : List NulText) (rest : List UInt8) :
    mgChkMsg (p.bytes ++ rest) tbl_names 0 =
      some (p.bytes.length, p.logVal.mark tbl_names (-1) 0 0) := by
  have hvalue := (mgChkMsg_value p.logVal (p.wellFormed_logVal (p.wellFormed_of_length_lt hsize))
    tbl_names 0 rest).gives (p.accepted_logVal hcommon hsize)
  rwa [p.bytes_logVal hcommon] at hvalue

/--
On a payload that both support the two scanners find the same length, and on a call of
`upd` the two filters agree.
-/
theorem mgChkMsg_agrees (p : Payload) (hcommon : p.Common)
    (hsize : p.bytes.length < 2 ^ 31) (tbl_names : List NulText) (rest : List UInt8) :
    exists rel, mgChkMsg (p.bytes ++ rest) tbl_names 0 = some (p.bytes.length, rel) ∧
      ipcPayloadLen (p.bytes ++ rest) = some (p.bytes.length : Int) ∧
      forall attr fn parts, p = .list attr (.symbolAtom fn :: parts) ->
        fn.text = updName -> 2 <= parts.length -> exists res,
          filterUpdMsg (p.bytes ++ rest) p.bytes.length updName
              (tbl_names.map NulText.text) = some res ∧
            (rel = 1 <-> 0 < res) := by
  have hwf := p.wellFormed_of_length_lt hsize
  refine ⟨_, mgChkMsg_common p hcommon hsize tbl_names rest,
    p.ipcPayloadLen_measures hwf (p.dictsFit_of_length_lt hsize) rest, ?_⟩
  rintro attr fn parts rfl hfn hmany
  obtain ⟨second, third, more, rfl⟩ : exists second third more,
      parts = second :: third :: more := by
    cases parts with
    | nil => simp at hmany
    | cons second parts =>
        cases parts with
        | nil => simp at hmany
        | cons third more => exact ⟨second, third, more, rfl⟩
  have hname : LogVal.NamesTable tbl_names
      (Payload.logVals (.symbolAtom fn :: second :: third :: more)) <->
        second.named tbl_names = true := by
    rw [<- second.isName_logVal]
    constructor
    · rintro ⟨_, hq, hname⟩
      cases hq
      exact hname
    · intro h
      exact ⟨_, rfl, h⟩
  rcases Payload.exists_outline _ hwf with ⟨o, hbytes, hcount, hupd⟩
  have hfilter := filterUpdMsg_outline o hcount (by rw [hbytes]; omega) updName
    (tbl_names.map NulText.text) rest
  rw [hbytes, hupd, isUpd_list hfn] at hfilter
  refine ⟨_, hfilter, ?_⟩
  have hpos := Payload.bytes_pos (.list attr (.symbolAtom fn :: second :: third :: more))
  rw [Payload.logVal, LogVal.mark_list]
  simp only [hname]
  cases second.named tbl_names
  · simp
  · simpa using hpos

/-- The call with a byte behind it, for a set with `t` in it. -/
theorem mgChkMsg_agrees_upd : exists rel res,
    mgChkMsg (updCall.bytes ++ [255]) [⟨[116], by decide⟩] 0 = some (23, rel) ∧
      filterUpdMsg (updCall.bytes ++ [255]) 23 updName [[116]] = some res ∧
      (rel = 1 <-> 0 < res) := by
  rcases mgChkMsg_agrees updCall (by simp [updCall, Payload.Common, Payload.CommonAll])
    (by decide +kernel) [⟨[116], by decide⟩] [255] with ⟨rel, hchk, _, hupd⟩
  rcases hupd _ _ _ rfl rfl (by decide) with ⟨res, hfilter, hagree⟩
  exact ⟨rel, res, hchk, hfilter, hagree⟩

end MgKdb
