import MgKdb.Journal.UpdFilter

/-!
# The filter on arbitrary bytes

The filter takes the declared length of a message as it is, and looks at the bytes
of a list as far as they go on matching.  What it answers can be trusted exactly when
the bytes that it comes to look at are there.
-/

namespace MgKdb

open Foundation

/-- A list of three elements or more, as its header says, that begins like a call. -/
def BeginsCall (fn_name : List UInt8) (tbl_names : List (List UInt8))
    (payload : List UInt8) : Prop :=
  exists attr n tbl rest, 3 <= n ∧ n < 2 ^ 31 ∧ tbl ∈ tbl_names ∧
    payload = KVal.vecHdr .list attr n ++ (KdbType.symbolAtom.i8 :: (fn_name ++ [0]) ++
      (KdbType.symbolAtom.i8 :: (tbl ++ [0]) ++ rest))

def msgLen (src : List UInt8) : Int :=
  i32At (src.drop 4)

def Lawful (src fn_name : List UInt8) (tbl_names : List (List UInt8)) : Prop :=
  exists res, filterMsg src fn_name tbl_names = some res ∧
    (res = -1 ∨ res = -2 ∨
      (8 < msgLen src ∧ msgLen src <= src.length ∧
        (res = -msgLen src ∨
          (res = msgLen src ∧ BeginsCall fn_name tbl_names
            ((src.drop 8).take (msgLen src - 8).toNat)))))

/--
The bytes that the filter comes to look at are in the buffer: the header of a list,
the type of its first element if it has three, the end of the first name, the type of
the second element if that is the name looked for, and the end of the second name.
If that is one of the tables it ends inside the payload, of `n` bytes.
-/
def Framed (q : List UInt8) (n : Nat) (fn_name : List UInt8)
    (tbl_names : List (List UInt8)) : Prop :=
  q[0]? = some KdbType.list.i8 -> 6 <= q.length ∧
    (3 <= hdrLen q -> 7 <= q.length ∧
      (q[6]? = some KdbType.symbolAtom.i8 ->
        (n < 7 -> 0 ∈ q.drop 7) ∧
        (strnlen (q.drop 7) (u64 (n - 7)) = fn_name.length ->
          (q.drop 7).take fn_name.length = fn_name -> 8 + fn_name.length < q.length ∧
            (q[8 + fn_name.length]? = some KdbType.symbolAtom.i8 ->
              0 ∈ q.drop (9 + fn_name.length) ∧
              forall tbl, tbl ∈ stringView (q.drop (9 + fn_name.length)) ->
                tbl ∈ tbl_names -> 9 + fn_name.length + tbl.length < n))))

instance decidableNameEnds (name : Option (List UInt8)) (tbl_names : List (List UInt8))
    (off n : Nat) :
    Decidable (forall tbl, tbl ∈ name -> tbl ∈ tbl_names -> off + tbl.length < n) :=
  inferInstance

instance (q : List UInt8) (n : Nat) (fn_name : List UInt8)
    (tbl_names : List (List UInt8)) : Decidable (Framed q n fn_name tbl_names) := by
  unfold Framed
  infer_instance

/-!
## What the filter has seen when it agrees
-/

theorem take_listHdr {q : List UInt8} (htyp : q[0]? = some KdbType.list.i8)
    (hroom : 6 <= q.length) (hcount : 0 <= hdrLen q) :
    exists attr, q.take 6 = KVal.vecHdr .list attr (hdrLen q).toNat := by
  match q with
  | [] => simp at hroom
  | [_] => simp at hroom
  | typ :: attr :: more =>
      rw [List.length_cons, List.length_cons] at hroom
      have hfield := leBytes_i32At (show 4 <= more.length by omega) hcount
      cases htyp
      refine ⟨attr, ?_⟩
      rw [KVal.vecHdr, hdrLen, List.drop_succ_cons, List.drop_succ_cons, List.drop_zero,
        hfield]
      rfl

theorem take_call {q fn_name : List UInt8} (htyp : q[0]? = some KdbType.list.i8)
    (hroom : 6 <= q.length) (hcount : 3 <= hdrLen q)
    (hsym : q[6]? = some KdbType.symbolAtom.i8)
    (hfn : fn_name ++ [0] <+: q.drop 7) :
    exists attr, q = KVal.vecHdr .list attr (hdrLen q).toNat ++
      (KdbType.symbolAtom.i8 :: (fn_name ++ [0]) ++ q.drop (8 + fn_name.length)) := by
  rcases take_listHdr htyp hroom (by omega) with ⟨attr, hhdr⟩
  rcases hfn with ⟨more, hmore⟩
  have hlt : 6 < q.length := (List.getElem?_eq_some_iff.mp hsym).choose
  have hsplit : q.drop 6 = KdbType.symbolAtom.i8 :: q.drop 7 := by
    rw [List.drop_eq_getElem_cons hlt, (List.getElem?_eq_some_iff.mp hsym).choose_spec]
  have hdrop : q.drop (8 + fn_name.length) = more := by
    rw [show 8 + fn_name.length = 7 + (fn_name ++ [0]).length by simp; omega,
      ← List.drop_drop, ← hmore, List.drop_left]
  refine ⟨attr, ?_⟩
  rw [← hhdr, hdrop, List.cons_append, hmore, ← hsplit, List.take_append_drop]

theorem length_le_of_terminated {s u bs : List UInt8} (hfree : NulFree s)
    (hs : s ++ [0] <+: bs) (hu : u ++ [0] <+: bs) : s.length <= u.length := by
  by_contra hlt
  have hpre : u ++ [0] <+: s := by
    refine List.prefix_of_prefix_length_le hu ((List.prefix_append s [0]).trans hs) ?_
    rw [List.length_append, List.length_singleton]
    omega
  exact hfree (hpre.subset (by simp))

theorem beginsCall_iff {q fn_name tbl : List UInt8} {tbl_names : List (List UInt8)}
    {n : Nat} (hn : n <= q.length) (htyp : q[0]? = some KdbType.list.i8)
    (hroom : 6 <= q.length) (hcount : 3 <= hdrLen q)
    (hsym : q[6]? = some KdbType.symbolAtom.i8)
    (hfn : 7 + fn_name.length < n -> fn_name ++ [0] <+: q.drop 7)
    (hsym2 : q[8 + fn_name.length]? = some KdbType.symbolAtom.i8)
    (htbl : stringView (q.drop (9 + fn_name.length)) = some tbl) :
    (decide (tbl ∈ tbl_names) = true -> BeginsCall fn_name tbl_names (q.take n)) <->
      (tbl ∈ tbl_names -> 9 + fn_name.length + tbl.length < n) := by
  rcases stringView_eq_some.mp htbl with ⟨hfree, hpre⟩
  constructor
  · intro h hmem
    rcases h (decide_eq_true hmem) with ⟨attr, k, tbl', rest, _, _, _, hcall⟩
    have hlen := congrArg List.length hcall
    rw [List.length_take, Nat.min_eq_left hn] at hlen
    simp only [List.length_append, KVal.vecHdr_length, List.length_cons,
      List.length_nil] at hlen
    have hpre' : tbl' ++ [0] <+: q.drop (9 + fn_name.length) := by
      obtain ⟨hdr, hhdr⟩ : exists hdr, hdr = KVal.vecHdr .list attr k ++
          (KdbType.symbolAtom.i8 :: (fn_name ++ [0]) ++ [KdbType.symbolAtom.i8]) :=
        ⟨_, rfl⟩
      have hhlen : 9 + fn_name.length = hdr.length := by
        rw [hhdr]
        simp only [List.length_append, KVal.vecHdr_length, List.length_cons,
          List.length_nil]
        omega
      have hq : q = hdr ++ ((tbl' ++ [0]) ++ (rest ++ q.drop n)) := by
        calc q = q.take n ++ q.drop n := (List.take_append_drop n q).symm
          _ = _ := by rw [hcall, hhdr]; simp
      rw [hq, hhlen, List.drop_left]
      exact List.prefix_append _ _
    have hle := length_le_of_terminated hfree hpre hpre'
    omega
  · intro h hmem
    have hlt := h (of_decide_eq_true hmem)
    rcases take_call htyp hroom hcount hsym (hfn (by omega)) with ⟨attr, hq⟩
    have hhigh : (hdrLen q).toNat < 2 ^ 31 := by
      have hrange := i32At_range (q.drop 2)
      unfold hdrLen at hcount ⊢
      omega
    rcases hpre with ⟨more, hmore⟩
    have hlt2 : 8 + fn_name.length < q.length := (List.getElem?_eq_some_iff.mp hsym2).choose
    have hsplit : q.drop (8 + fn_name.length) =
        KdbType.symbolAtom.i8 :: (tbl ++ [0]) ++ more := by
      rw [List.drop_eq_getElem_cons hlt2,
        (List.getElem?_eq_some_iff.mp hsym2).choose_spec, List.cons_append, hmore]
      rw [show 8 + fn_name.length + 1 = 9 + fn_name.length by omega]
    rw [hsplit] at hq
    obtain ⟨front, hfront⟩ : exists front, front =
        KVal.vecHdr .list attr (hdrLen q).toNat ++
          (KdbType.symbolAtom.i8 :: (fn_name ++ [0]) ++
            (KdbType.symbolAtom.i8 :: (tbl ++ [0]))) := ⟨_, rfl⟩
    have hflen : front.length + (n - front.length) = n := by
      rw [hfront]
      simp only [List.length_append, KVal.vecHdr_length, List.length_cons,
        List.length_nil]
      omega
    have hqf : q = front ++ more := by
      rw [hfront]
      exact hq.trans (by simp)
    refine ⟨attr, (hdrLen q).toNat, tbl, more.take (n - front.length), by omega, hhigh,
      of_decide_eq_true hmem, ?_⟩
    rw [← hflen, hqf, List.take_length_add_append, ← hqf, hflen, hfront]
    simp

/-!
## The law
-/

section Law

variable {q fn_name : List UInt8} {tbl_names : List (List UInt8)} {n : Nat}

def Trusted (fn_name : List UInt8) (tbl_names : List (List UInt8)) (payload : List UInt8)
    (x : Option Bool) : Prop :=
  exists matched, x = some matched ∧
    (matched = true -> BeginsCall fn_name tbl_names payload)

theorem trusted_none (payload : List UInt8) :
    ¬ Trusted fn_name tbl_names payload none := by
  rintro ⟨matched, h, _⟩
  cases h

theorem trusted_false (payload : List UInt8) :
    Trusted fn_name tbl_names payload (some false) :=
  ⟨false, rfl, fun h => by cases h⟩

theorem strnlenIn_name (hn : n <= q.length) (hq : q.length + 8 < 2 ^ 64)
    (h7 : 7 <= q.length) :
    ((n < 7 -> 0 ∈ q.drop 7) -> strnlenIn (q.drop 7) (u64 (n - 7)) =
      some (strnlen (q.drop 7) (u64 (n - 7)))) ∧
    (¬ (n < 7 -> 0 ∈ q.drop 7) -> strnlenIn (q.drop 7) (u64 (n - 7)) = none) := by
  by_cases hshort : n < 7
  · have hbound : (q.drop 7).length < u64 (n - 7) := by
      rw [List.length_drop]
      unfold u64
      omega
    have hall : strnlen (q.drop 7) (u64 (n - 7)) =
        strnlen (q.drop 7) (q.drop 7).length := by
      rw [strnlen, strnlen, List.take_length, List.take_of_length_le (by omega)]
    have hle := (strnlen_spec (q.drop 7) (q.drop 7).length).left
    have hend : strnlen (q.drop 7) (q.drop 7).length < (q.drop 7).length <->
        0 ∈ q.drop 7 := strnlen_lt_iff
    rw [strnlenIn, hall]
    constructor
    · intro h
      have := hend.mpr (h hshort)
      rw [if_neg (by omega)]
    · intro h
      have hno : ¬ 0 ∈ q.drop 7 := fun hmem => h (fun _ => hmem)
      rw [← hend] at hno
      rw [if_pos (by omega)]
  · have hbound : ¬ (q.drop 7).length < u64 (n - 7) := by
      rw [List.length_drop]
      unfold u64
      omega
    rw [strnlenIn, if_neg (fun h => hbound h.left)]
    exact ⟨fun _ => rfl, fun h => absurd (fun h7 => absurd h7 hshort) h⟩

theorem name_terminated (hn : n <= q.length) (hq : q.length + 8 < 2 ^ 64)
    (hlen : 7 + fn_name.length < n)
    (hscan : strnlen (q.drop 7) (u64 (n - 7)) = fn_name.length)
    (htake : (q.drop 7).take fn_name.length = fn_name) : fn_name ++ [0] <+: q.drop 7 := by
  rcases strnlen_spec (q.drop 7) (u64 (n - 7)) with ⟨_, _, hstop⟩
  rw [hscan] at hstop
  have hbound : u64 (n - 7) = n - 7 := by
    unfold u64
    omega
  have hzero := hstop (by
    rw [List.length_drop, hbound]
    omega)
  have hmore := List.take_add_one (l := q.drop 7) (i := fn_name.length)
  rw [hzero, Option.toList_some, htake] at hmore
  exact hmore ▸ List.take_prefix _ _

theorem matchesTable_trusted_iff (hn : n <= q.length) (hq : q.length + 8 < 2 ^ 64)
    (htyp : q[0]? = some KdbType.list.i8) (hroom : 6 <= q.length)
    (hcount : 3 <= hdrLen q) (hsym : q[6]? = some KdbType.symbolAtom.i8)
    (hscan : strnlen (q.drop 7) (u64 (n - 7)) = fn_name.length)
    (htake : (q.drop 7).take fn_name.length = fn_name) :
    Trusted fn_name tbl_names (q.take n)
        (matchesTable q (8 + fn_name.length) tbl_names) <->
      8 + fn_name.length < q.length ∧
        (q[8 + fn_name.length]? = some KdbType.symbolAtom.i8 ->
          0 ∈ q.drop (9 + fn_name.length) ∧
          forall tbl, tbl ∈ stringView (q.drop (9 + fn_name.length)) ->
            tbl ∈ tbl_names -> 9 + fn_name.length + tbl.length < n) := by
  rw [matchesTable, show 8 + fn_name.length + 1 = 9 + fn_name.length by omega]
  cases hat : q[8 + fn_name.length]? with
  | none =>
      have hlen := List.getElem?_eq_none_iff.mp hat
      exact ⟨fun h => absurd h (trusted_none _), fun h => by omega⟩
  | some typ =>
      have hlen : 8 + fn_name.length < q.length := (List.getElem?_eq_some_iff.mp hat).choose
      simp only
      by_cases hsym2 : typ = KdbType.symbolAtom.i8
      · rw [if_neg (by simpa using hsym2)]
        rw [hsym2] at hat
        by_cases hend : 0 ∈ q.drop (9 + fn_name.length)
        · rcases stringView_isSome.mpr hend with ⟨tbl, htbl⟩
          have hiff := @beginsCall_iff q fn_name tbl tbl_names n hn htyp hroom hcount hsym
            (fun hlong => name_terminated hn hq hlong hscan htake) hat htbl
          rw [htbl, Option.map_some]
          constructor
          · rintro ⟨matched, hmatched, hcall⟩
            cases hmatched
            refine ⟨hlen, fun _ => ⟨hend, fun tbl' htbl' => ?_⟩⟩
            cases htbl'
            exact hiff.mp hcall
          · rintro ⟨_, h⟩
            exact ⟨_, rfl, hiff.mpr ((h (by rw [hsym2])).right tbl rfl)⟩
        · have hnone : stringView (q.drop (9 + fn_name.length)) = none := by
            cases htbl : stringView (q.drop (9 + fn_name.length)) with
            | none => rfl
            | some tbl => exact absurd (stringView_isSome.mp ⟨tbl, htbl⟩) hend
          rw [hnone]
          exact ⟨fun h => absurd h (trusted_none _),
            fun h => absurd (h.right (by rw [hsym2])).left hend⟩
      · rw [if_pos hsym2]
        exact ⟨fun _ => ⟨hlen, fun h => absurd (Option.some.inj h) hsym2⟩,
          fun _ => trusted_false _⟩

theorem matchesName_trusted_iff (hn : n <= q.length) (hq : q.length + 8 < 2 ^ 64)
    (htyp : q[0]? = some KdbType.list.i8) (h7 : 7 <= q.length)
    (hcount : 3 <= hdrLen q) (hsym : q[6]? = some KdbType.symbolAtom.i8) :
    Trusted fn_name tbl_names (q.take n) (matchesName q n fn_name tbl_names) <->
      (n < 7 -> 0 ∈ q.drop 7) ∧
        (strnlen (q.drop 7) (u64 (n - 7)) = fn_name.length ->
          (q.drop 7).take fn_name.length = fn_name -> 8 + fn_name.length < q.length ∧
            (q[8 + fn_name.length]? = some KdbType.symbolAtom.i8 ->
              0 ∈ q.drop (9 + fn_name.length) ∧
              forall tbl, tbl ∈ stringView (q.drop (9 + fn_name.length)) ->
                tbl ∈ tbl_names -> 9 + fn_name.length + tbl.length < n)) := by
  rcases strnlenIn_name hn hq h7 with ⟨hfound, hlost⟩
  rw [matchesName]
  by_cases hend : n < 7 -> 0 ∈ q.drop 7
  swap
  · rw [hlost hend]
    exact ⟨fun h => absurd h (trusted_none _), fun h => absurd h.left hend⟩
  rw [hfound hend]
  simp only
  by_cases hscan : strnlen (q.drop 7) (u64 (n - 7)) = fn_name.length
  swap
  · rw [if_pos hscan]
    exact ⟨fun _ => ⟨hend, fun h => absurd h hscan⟩, fun _ => trusted_false _⟩
  rw [if_neg (by simpa using hscan), hscan]
  by_cases htake : (q.drop 7).take fn_name.length = fn_name
  swap
  · rw [if_pos htake]
    exact ⟨fun _ => ⟨hend, fun _ h => absurd h htake⟩, fun _ => trusted_false _⟩
  rw [if_neg (by simpa using htake),
    matchesTable_trusted_iff hn hq htyp (by omega) hcount hsym hscan htake]
  exact ⟨fun h => ⟨hend, fun _ _ => h⟩, fun h => h.right rfl htake⟩

theorem matchesUpd_trusted_iff (hpos : 0 < n) (hn : n <= q.length)
    (hq : q.length + 8 < 2 ^ 64) :
    Trusted fn_name tbl_names (q.take n) (matchesUpd q n fn_name tbl_names) <->
      Framed q n fn_name tbl_names := by
  unfold matchesUpd Framed
  cases hhead : q[0]? with
  | none =>
      have hlen := List.getElem?_eq_none_iff.mp hhead
      omega
  | some typ =>
      simp only
      by_cases htyp : typ = KdbType.list.i8
      swap
      · rw [if_pos htyp]
        exact ⟨fun _ h => absurd (Option.some.inj h) htyp, fun _ => trusted_false _⟩
      rw [htyp] at hhead
      rw [htyp, if_neg (by simp)]
      by_cases hroom : 6 <= q.length
      swap
      · rw [if_pos (by omega)]
        exact ⟨fun h => absurd h (trusted_none _), fun h => absurd (h rfl).left hroom⟩
      rw [if_neg (by omega)]
      by_cases hcount : 3 <= hdrLen q
      swap
      · rw [if_pos (by omega)]
        exact ⟨fun _ _ => ⟨hroom, fun h => absurd h hcount⟩, fun _ => trusted_false _⟩
      rw [if_neg (by omega)]
      cases hat : q[6]? with
      | none =>
          have hlen := List.getElem?_eq_none_iff.mp hat
          refine ⟨fun h => absurd h (trusted_none _), fun h => ?_⟩
          have h7 := ((h rfl).right hcount).left
          omega
      | some typ' =>
          have h7 : 7 <= q.length := (List.getElem?_eq_some_iff.mp hat).choose
          simp only
          by_cases hsym : typ' = KdbType.symbolAtom.i8
          swap
          · rw [if_pos hsym]
            exact ⟨fun _ _ => ⟨hroom, fun _ => ⟨h7, fun h => absurd (Option.some.inj h) hsym⟩⟩,
              fun _ => trusted_false _⟩
          rw [hsym] at hat
          rw [hsym, if_neg (by simp), matchesName_trusted_iff hn hq hhead h7 hcount hat]
          exact ⟨fun h _ => ⟨hroom, fun _ => ⟨h7, fun _ => h⟩⟩,
            fun h => ((h trivial).right hcount).right rfl⟩

end Law

section Message

variable {src fn_name : List UInt8} {tbl_names : List (List UInt8)}

structure Complete (src : List UInt8) : Prop where
  header : 8 <= src.length
  endian : src.headD 0 = 1
  declared : 0 <= msgLen src
  whole : msgLen src <= src.length

theorem filterMsg_incomplete (h : ¬ Complete src) :
    filterMsg src fn_name tbl_names = some (-1) ∨
      filterMsg src fn_name tbl_names = some (-2) := by
  unfold filterMsg
  by_cases h8 : src.length < 8
  · exact Or.inl (if_pos h8)
  rw [if_neg h8]
  by_cases hend : src.headD 0 = 1
  swap
  · exact Or.inr (if_pos hend)
  rw [if_neg (by simpa using hend)]
  by_cases hneg : i32At (src.drop 4) < 0
  · exact Or.inr (if_pos hneg)
  rw [if_neg hneg]
  refine Or.inl (if_pos ?_)
  by_contra hlong
  exact h ⟨by omega, hend, by unfold msgLen; omega, by unfold msgLen; omega⟩

theorem filterMsg_complete (h : Complete src) :
    filterMsg src fn_name tbl_names =
      (filterUpdMsg (src.drop 8) (u64 (msgLen src - 8)) fn_name tbl_names).map
        (fun res => if res < 0 then res - 8 else res + 8) := by
  have hdeclared := h.declared
  have hwhole := h.whole
  have hheader := h.header
  unfold msgLen at hdeclared hwhole
  rw [filterMsg, if_neg (by omega), if_neg (by simpa using h.endian), if_neg (by omega),
    if_neg (by omega)]
  rfl

theorem filterMsg_short (h : Complete src) (hshort : msgLen src <= 8) :
    ¬ Lawful src fn_name tbl_names := by
  rintro ⟨res, hres, hlaw⟩
  have hdeclared := h.declared
  rw [filterMsg_complete h, filterUpdMsg, Option.map_map] at hres
  rcases Option.map_eq_some_iff.mp hres with ⟨matched, _, hvalue⟩
  have hn : (u64 (msgLen src - 8) : Int) = if msgLen src = 8 then 0 else
      2 ^ 64 + (msgLen src - 8) := by
    unfold u64
    split <;> omega
  have hpos : i64 (u64 (msgLen src - 8)) = msgLen src - 8 := by
    rw [i64, BitVec.toInt_ofInt, hn]
    split
    · rw [Int.bmod_eq_of_le (by omega) (by omega)]
      omega
    · rw [Int.bmod_def]
      omega
  have hneg : i64 (-(u64 (msgLen src - 8) : Int)) = 8 - msgLen src := by
    rw [i64, BitVec.toInt_ofInt, hn]
    split
    · rw [Int.bmod_eq_of_le (by omega) (by omega)]
      omega
    · rw [Int.bmod_def]
      omega
  cases matched
  · simp only [Function.comp_apply, Bool.false_eq_true, if_false, hneg] at hvalue
    split at hvalue <;> omega
  · simp only [Function.comp_apply, if_true, hpos] at hvalue
    split at hvalue <;> omega

/--
What the filter answers can be trusted exactly when a message that is there has a
payload, and the bytes of it that the filter comes to look at.
-/
theorem filterMsg_lawful_iff (hrem : src.length < 2 ^ 64) :
    Lawful src fn_name tbl_names <->
      (Complete src -> 8 < msgLen src ∧
        Framed (src.drop 8) (msgLen src - 8).toNat fn_name tbl_names) := by
  by_cases h : Complete src
  swap
  · refine ⟨fun _ hc => absurd hc h, fun _ => ?_⟩
    rcases filterMsg_incomplete h with hres | hres
    · exact ⟨_, hres, Or.inl rfl⟩
    · exact ⟨_, hres, Or.inr (Or.inl rfl)⟩
  by_cases hshort : msgLen src <= 8
  · refine ⟨fun hlaw => absurd hlaw (filterMsg_short h hshort), fun hmeets => ?_⟩
    have := (hmeets h).left
    omega
  have hwhole := h.whole
  have hrange := (i32At_range (src.drop 4)).right
  obtain ⟨n, hn⟩ : exists n : Nat, msgLen src = n + 8 := ⟨(msgLen src - 8).toNat, by omega⟩
  have hq : (src.drop 8).length = src.length - 8 := List.length_drop
  have hsub : u64 (msgLen src - 8) = n := by
    unfold u64
    omega
  have hnat : (msgLen src - 8).toNat = n := by omega
  have hsmall : n < 2 ^ 63 := by
    unfold msgLen at hn
    omega
  have htrusted := @matchesUpd_trusted_iff (src.drop 8) fn_name tbl_names n
    (by omega) (by omega) (by omega)
  have hlaw : Lawful src fn_name tbl_names <-> Trusted fn_name tbl_names
      ((src.drop 8).take n) (matchesUpd (src.drop 8) n fn_name tbl_names) := by
    unfold Lawful Trusted
    rw [filterMsg_complete h, hsub, hnat, filterUpdMsg]
    cases matchesUpd (src.drop 8) n fn_name tbl_names with
    | none => simp
    | some matched =>
        simp only [Option.map_some, Option.some.injEq, verdict_i64 hsmall,
          exists_eq_left']
        cases matched
        · have hres : (if -(n : Int) < 0 then -(n : Int) - 8 else -(n : Int) + 8) =
              -msgLen src := by
            split <;> omega
          simp only [Bool.false_eq_true, if_false, false_implies, hres, iff_true]
          exact Or.inr (Or.inr ⟨by omega, by omega, Or.inl trivial⟩)
        · have hres : (if (n : Int) < 0 then (n : Int) - 8 else (n : Int) + 8) =
              msgLen src := by
            split <;> omega
          simp only [if_true, forall_const, hres]
          constructor
          · rintro (h1 | h2 | ⟨_, _, hneg | ⟨_, hcall⟩⟩)
            · omega
            · omega
            · omega
            · exact hcall
          · exact fun hcall => Or.inr (Or.inr ⟨by omega, by omega, Or.inr ⟨trivial, hcall⟩⟩)
  rw [hlaw, htrusted, hnat]
  exact ⟨fun hframed _ => ⟨by omega, hframed⟩, fun hmeets => (hmeets h).right⟩

end Message

end MgKdb
