import MgKdb.LogFilter.Reify

/-!
# The scanners together

A message is scanned twice when it is of interest, by scanners that know nothing of each
other.  They must find every part of it in the same place.
-/

namespace MgKdb

open Foundation

namespace LogVal

inductive Inside : LogVal -> Nat -> LogVal -> Prop where
  | self (p : LogVal) : Inside p 0 p
  | element (attr : UInt8) (before after : List LogVal) {q r : LogVal} {off : Nat}
      (h : Inside q off r) :
      Inside (list attr (before ++ q :: after)) (6 + (bytesAll before).length + off) r
  | key (vals : LogVal) {keys r : LogVal} {off : Nat} (h : Inside keys off r) :
      Inside (dict keys vals) (1 + off) r
  | val (keys : LogVal) {vals r : LogVal} {off : Nat} (h : Inside vals off r) :
      Inside (dict keys vals) (1 + keys.bytes.length + off) r
  | flip (attr : UInt8) {cols vals r : LogVal} {off : Nat}
      (h : Inside (dict cols vals) off r) : Inside (table attr cols vals) (2 + off) r

theorem bytesAll_append (ps qs : List LogVal) :
    bytesAll (ps ++ qs) = bytesAll ps ++ bytesAll qs := by
  rw [bytesAll_eq_flatten, bytesAll_eq_flatten, bytesAll_eq_flatten, List.map_append,
    List.flatten_append]

theorem Inside.drop {p q : LogVal} {off : Nat} (h : Inside p off q) :
    forall rest : List UInt8, exists more, (p.bytes ++ rest).drop off = q.bytes ++ more := by
  induction h with
  | self p => exact fun rest => ⟨rest, rfl⟩
  | element attr before after h ih =>
      intro rest
      rcases ih (bytesAll after ++ rest) with ⟨more, hmore⟩
      refine ⟨more, ?_⟩
      rw [bytes, bytesAll_append, bytesAll, <- List.drop_drop, <- List.drop_drop,
        List.append_assoc, Payload.drop_vecHdr, List.append_assoc, List.drop_left,
        List.append_assoc, hmore]
  | key vals h ih =>
      intro rest
      rcases ih (vals.bytes ++ rest) with ⟨more, hmore⟩
      refine ⟨more, ?_⟩
      rw [bytes, Nat.add_comm, List.cons_append, List.drop_succ_cons, List.append_assoc, hmore]
  | val keys h ih =>
      intro rest
      rcases ih rest with ⟨more, hmore⟩
      refine ⟨more, ?_⟩
      rw [bytes, Nat.add_assoc, Nat.add_comm, List.cons_append, List.drop_succ_cons,
        List.append_assoc, <- List.drop_drop, List.drop_left, hmore]
  | flip attr h ih =>
      intro rest
      rcases ih rest with ⟨more, hmore⟩
      refine ⟨more, ?_⟩
      have hdict : forall cols vals : LogVal,
          (dict cols vals).bytes = KdbType.dict.i8 :: (cols.bytes ++ vals.bytes) :=
        fun cols vals => by rw [bytes]
      rw [hdict] at hmore
      rw [bytes, Nat.add_comm, List.cons_append, List.cons_append, List.drop_succ_cons,
        List.drop_succ_cons, hmore]

theorem Inside.everywhere {P : LogVal -> Prop} {p q : LogVal} {off : Nat}
    (hcover : forall attr cols vals, P (table attr cols vals) -> P (dict cols vals))
    (h : Inside p off q) : Everywhere P p -> Everywhere P q := by
  induction h with
  | self p => exact fun hp => hp
  | element attr before after h ih =>
      rintro ⟨_, hparts⟩
      rw [everywhereAll_iff] at hparts
      exact ih (hparts _ (List.mem_append_right _ List.mem_cons_self))
  | key vals h ih => exact fun hp => ih hp.right.left
  | val keys h ih => exact fun hp => ih hp.right.right
  | flip attr h ih => exact fun hp => ih ⟨hcover _ _ _ hp.left, hp.right⟩

end LogVal

/--
At every value in a value of supported types both scanners advance by the size of its
encoding, and the object that is built is the one that holds it.
-/
theorem scanners_agree {api : KApi} (hapi : api.Documented) (p : LogVal)
    (hwf : p.WellFormed) (hhandled : p.Handled) (hfits : p.DataFits) (rest : List UInt8)
    (tbl_names : List NulText) {q : LogVal} {off : Nat} (h : LogVal.Inside p off q) :
    (forall relevant level index : Int, exists relevant' : Int,
      mgChkMatchAndGetLen tbl_names ((p.bytes ++ rest).drop off) relevant level index =
        some (q.bytes.length, relevant')) ∧
      mgReifyMsg api ((p.bytes ++ rest).drop off) = some (q.bytes.length, q.kObj) := by
  have hqwf : q.WellFormed := h.everywhere (fun _ _ _ _ => trivial) hwf
  have hok : q.Accepted :=
    ⟨h.everywhere (fun _ _ _ _ => trivial) hhandled,
      h.everywhere (fun _ _ _ _ => trivial) hfits⟩
  rcases h.drop rest with ⟨more, hmore⟩
  rw [hmore]
  refine ⟨fun relevant level index => ?_, (mgReifyMsg_value hapi q hqwf more).gives hok⟩
  refine ⟨_, (LogVal.checks q hqwf _ level index _ more relevant List.prefix_rfl
    (Nat.lt_succ_self _)).gives ⟨hok, ?_⟩⟩
  show q.bytes.length <= (q.bytes ++ more).length + q.unread
  rw [List.length_append]
  omega

/-!
## A q without surprises
-/

def vectorWidth (typ : UInt8) : Nat :=
  match KdbType.ofI8 typ with
  | some .guidVector => 16
  | some .timespanVector | some .datetimeVector | some .timestampVector | some .floatVector
  | some .longVector => 8
  | some .timeVector | some .secondVector | some .minuteVector | some .dateVector
  | some .monthVector | some .realVector | some .intVector => 4
  | some .shortVector => 2
  | _ => 1

def plainKtn (typ : UInt8) (n : Nat) : KObj :=
  if typ = KdbType.symbolVector.i8 then .symbols 0 (List.replicate n [])
  else if typ = KdbType.list.i8 then .list 0 (List.replicate n (.symbol []))
  else .vector typ 0 (List.replicate (n * vectorWidth typ) 0)

def plainApi : KApi where
  ka typ := .atom typ []
  ku g := .atom KdbType.guidAtom.i8 g
  ks := .symbol
  ss s := s
  ktn := plainKtn
  xT := .table
  xD := .dict

theorem plainKtn_elems (e : LogElem) (n : Nat) :
    plainKtn e.vectorTyp.i8 n =
      .vector e.vectorTyp.i8 0 (List.replicate (n * e.width) 0) := by
  cases e with
  | elem e => cases e <;> rfl
  | datetime => rfl

theorem plainApi_documented : plainApi.Documented where
  ka := fun _ => ⟨[], rfl⟩
  ku := fun _ => rfl
  ks := fun _ => rfl
  ss := fun _ => rfl
  ktn_elems := fun e n => ⟨0, _, plainKtn_elems e n, List.length_replicate⟩
  ktn_symbols := fun _ => ⟨0, _, rfl, List.length_replicate⟩
  ktn_list := fun _ => ⟨0, _, rfl, List.length_replicate⟩
  xT := fun _ _ => rfl
  xD := fun _ _ => rfl

/-- `(`t;1 2i!3 4i)`: the values of the dict begin behind 24 bytes. -/
theorem scanners_agree_dict :
    (forall relevant level index : Int, exists relevant' : Int,
      mgChkMatchAndGetLen [] (((LogVal.list 0 [.symbolAtom ⟨[116], nulFree_tblName⟩,
        .dict (.vector (.elem .int) 0 [1, 2]) (.vector (.elem .int) 0 [3, 4])]).bytes ++
          []).drop 24) relevant level index = some (14, relevant')) ∧
      mgReifyMsg plainApi (((LogVal.list 0 [.symbolAtom ⟨[116], nulFree_tblName⟩,
        .dict (.vector (.elem .int) 0 [1, 2]) (.vector (.elem .int) 0 [3, 4])]).bytes ++
          []).drop 24) =
        some (14, .vector 6 0 [3, 0, 0, 0, 4, 0, 0, 0]) :=
  scanners_agree plainApi_documented _
    (by simp [LogVal.WellFormed, LogVal.Everywhere, LogVal.EverywhereAll, LogVal.CountFits])
    (by simp [LogVal.Handled, LogVal.Everywhere, LogVal.EverywhereAll, LogVal.TypHandled])
    (by simp [LogVal.DataFits, LogVal.Everywhere, LogVal.EverywhereAll, LogVal.ElemsFit,
      LogElem.width, Elem.width]) [] []
    (LogVal.Inside.element 0 [.symbolAtom ⟨[116], nulFree_tblName⟩] []
      (LogVal.Inside.val (.vector (.elem .int) 0 [1, 2])
        (LogVal.Inside.self (.vector (.elem .int) 0 [3, 4]))))

/-!
## What is decoded
-/

def Decodes (api : KApi) (tbl_names : List NulText) (p : LogVal) (rest : List UInt8) : Prop :=
  (forall relevant level index : Int, exists relevant' : Int,
    mgChkMatchAndGetLen tbl_names (p.bytes ++ rest) relevant level index =
      some (p.bytes.length, relevant')) ∧
    exists obj, mgReifyMsg api (p.bytes ++ rest) = some (p.bytes.length, obj)

/--
A value is decoded exactly when neither it nor a value inside it is a vector of guids or of
a type that no scanner knows, and the data of every vector are shorter than 2^31 bytes.
-/
theorem decodes_iff {api : KApi} (hapi : api.Documented) (tbl_names : List NulText)
    (p : LogVal) (hwf : p.WellFormed) (rest : List UInt8) :
    Decodes api tbl_names p rest <-> p.Handled ∧ p.DataFits := by
  constructor
  · rintro ⟨_, obj, hobj⟩
    by_contra hno
    rw [(mgReifyMsg_value hapi p hwf rest).denies hno] at hobj
    cases hobj
  · rintro ⟨hhandled, hfits⟩
    rcases scanners_agree hapi p hwf hhandled hfits rest tbl_names (LogVal.Inside.self p) with
      ⟨hchk, hobj⟩
    exact ⟨hchk, _, hobj⟩

/-- Two ints. -/
theorem decodes_iff_ints :
    Decodes plainApi [] (.vector (.elem .int) 0 [1, 2]) [] <->
      (LogVal.vector (.elem .int) 0 [1, 2]).Handled ∧
        (LogVal.vector (.elem .int) 0 [1, 2]).DataFits :=
  decodes_iff plainApi_documented [] (.vector (.elem .int) 0 [1, 2])
    (show 2 < 2 ^ 31 by decide) []

/-- One guid: both readers of vectors read it, and no scanner asks them to. -/
theorem decodes_iff_guid :
    (LogVal.vector (.elem .guid) 0 [1]).WellFormed ∧
      mgReadVecOld KdbType.guidVector.i8
        ((LogVal.vector (.elem .guid) 0 [1]).bytes.drop 1) = some 21 ∧
      mgReadVec plainApi KdbType.guidVector.i8
          ((LogVal.vector (.elem .guid) 0 [1]).bytes.drop 1) =
        some (21, .vector 2 0 [1, 0, 0, 0, 0, 0, 0, 0, 0, 0, 0, 0, 0, 0, 0, 0]) ∧
      mgChkMsg (LogVal.vector (.elem .guid) 0 [1]).bytes [] 0 = none ∧
      mgReifyMsg plainApi (LogVal.vector (.elem .guid) 0 [1]).bytes = none ∧
      ¬ Decodes plainApi [] (.vector (.elem .guid) 0 [1]) [] := by
  refine ⟨show 1 < 2 ^ 31 by decide, rfl, rfl, rfl, rfl, ?_⟩
  rintro ⟨_, obj, hobj⟩
  have hnone : mgReifyMsg plainApi ((LogVal.vector (.elem .guid) 0 [1]).bytes ++ []) = none := rfl
  rw [hnone] at hobj
  cases hobj

/-!
## Sizes of vectors
-/
/-- Both readers advance behind the elements, and the one that copies them copies them all. -/
def AdvancesExactly (api : KApi) (e : LogElem) (n : Nat) (src : List UInt8) : Prop :=
  mgReadVecOld e.vectorTyp.i8 src = some (5 + n * e.width) ∧
    mgReadVec api e.vectorTyp.i8 src =
      some (5 + n * e.width,
        KObj.vector e.vectorTyp.i8 (src.headD 0) ((src.drop 5).take (n * e.width)))

/--
With the data of `n` elements present, both readers of vectors advance by their size
exactly when it is an `int`.
-/
theorem advancesExactly_iff {api : KApi} (hapi : api.Documented) (e : LogElem) {n : Nat}
    {src : List UInt8} (hcount : i32At (src.drop 1) = n)
    (hdata : 5 + n * e.width <= src.length) :
    AdvancesExactly api e n src <-> n * e.width < 2 ^ 31 := by
  have hlong : 5 <= src.length := by omega
  rw [AdvancesExactly, (mgReadVecOld_eq e hlong hcount).isSome_iff,
    (mgReadVec_eq hapi e hlong hcount).isSome_iff]
  exact ⟨fun h => h.left.left, fun h => ⟨⟨h, hdata⟩, h, hdata⟩⟩

/-- Two longs, with a byte behind them. -/
theorem advancesExactly_iff_longs :
    AdvancesExactly plainApi (.elem .long) 2
        [0, 2, 0, 0, 0, 7, 0, 0, 0, 0, 0, 0, 0, 8, 0, 0, 0, 0, 0, 0, 0, 255] <->
      2 * 8 < 2 ^ 31 :=
  advancesExactly_iff plainApi_documented (.elem .long) rfl (by decide)

def longData (n : Nat) : List UInt8 :=
  0 :: (leBytes 4 n ++ List.replicate (n * 8) 0)

theorem i32At_longData {n : Nat} (hn : n < 2 ^ 31) : i32At ((longData n).drop 1) = n := by
  rw [longData, List.drop_one, List.tail_cons, i32At_of_front (by simp) List.prefix_rfl,
    i32_of_lt hn]

theorem longData_length (n : Nat) : (longData n).length = 5 + n * 8 := by
  rw [longData, List.length_cons, List.length_append, leBytes_length, List.length_replicate]
  omega

theorem not_advances_longData {n : Nat} (hn : n < 2 ^ 31) (hbig : 2 ^ 31 <= n * 8) :
    i32At ((longData n).drop 1) = n ∧ 5 + n * 8 <= (longData n).length ∧
      ¬ AdvancesExactly plainApi (.elem .long) n (longData n) := by
  have hlen := longData_length n
  refine ⟨i32At_longData hn, by omega, ?_⟩
  rintro ⟨hold, _⟩
  rw [(mgReadVecOld_eq (.elem .long) (by omega) (i32At_longData hn)).denies] at hold
  · cases hold
  · rintro ⟨hfit, _⟩
    change n * 8 < 2 ^ 31 at hfit
    omega

/-- 2^28 longs have 2^31 bytes, which is no `int`. -/
theorem advancesExactly_overflow :
    i32At ((longData (2 ^ 28)).drop 1) = (2 ^ 28 : Nat) ∧
      5 + 2 ^ 28 * 8 <= (longData (2 ^ 28)).length ∧
      ¬ AdvancesExactly plainApi (.elem .long) (2 ^ 28) (longData (2 ^ 28)) :=
  not_advances_longData (by decide) (by decide)

end MgKdb
