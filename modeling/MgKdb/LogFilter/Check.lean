import MgKdb.Journal.UpdFilter
import MgKdb.LogFilter.Values

/-!
# The log filter

A scanner of its own, written in C for use from within q: it measures a payload and notes
whether the payload is a call for one of the tables.  It trusts its input.  There is no
end that it knows of, and it calls `abort` at a type it does not support.
-/

namespace MgKdb

open Foundation

/-- The length, and the value of `*relevant`; `none` is an abort or worse. -/
abbrev ChkOut := Option (Nat × Int)

/-- Copying the elements of a vector behind its type; `len * width` is an int. -/
def mgCopy (width : Nat) (src : List UInt8) : Option Nat :=
  if 2 ^ 31 <= (i32At (src.drop 1)).toNat * width then none
  else if src.length < 5 + (i32At (src.drop 1)).toNat * width then none
  else some (5 + (i32At (src.drop 1)).toNat * width)

/-- The loop over the symbols of a vector, of which `n` are left. -/
def mgSymLoop (src : List UInt8) : Nat -> Nat -> Option Nat
  | 0, off => some off
  | n + 1, off =>
      match stringView (src.drop off) with
      | none => none
      | some s => mgSymLoop src n (off + (s.length + 1))

/-- `mg_read_vec_OLD`; `ktn` is not asked for a negative number of elements. -/
def mgReadVecOld (typ : UInt8) (src : List UInt8) : Option Nat :=
  if src.length < 5 ∨ i32At (src.drop 1) < 0 then none
  else
    match KdbType.ofI8 typ with
    | some .timeVector | some .secondVector | some .minuteVector | some .dateVector
    | some .monthVector | some .realVector | some .intVector => mgCopy 4 src
    | some .timespanVector | some .datetimeVector | some .timestampVector
    | some .floatVector | some .longVector => mgCopy 8 src
    | some .shortVector => mgCopy 2 src
    | some .charVector | some .byteVector | some .boolVector => mgCopy 1 src
    | some .guidVector => mgCopy 16 src
    | some .symbolVector => mgSymLoop src (i32At (src.drop 1)).toNat 5
    | _ => some 5

def mgChkName (tbl_names : List NulText) (pos : List UInt8) (len : Nat)
    (relevant level index : Int) : Int :=
  if level = 1 ∧ index = 1 then
    tbl_names.foldl
      (fun relevant name =>
        if strncmp name.bytes pos (len + 1) = 0 then 1 else relevant) relevant
  else relevant

section Parts

variable (chk : List UInt8 -> Int -> Int -> Int -> ChkOut)

/-- The loop over the elements of a list, of which `n` are left. -/
def mgChkList (src : List UInt8) (level : Int) : Nat -> Int -> Nat -> Int -> ChkOut
  | 0, _, off, relevant => some (off, relevant)
  | n + 1, i, off, relevant =>
      match chk (src.drop off) relevant level i with
      | none => none
      | some out => mgChkList src level n (i + 1) (off + out.1) out.2

def mgChkDict (src : List UInt8) (relevant level : Int) : ChkOut :=
  match chk (src.drop 1) relevant level 0 with
  | none => none
  | some keys =>
      match chk (src.drop (1 + keys.1)) keys.2 level 1 with
      | none => none
      | some vals => some (1 + keys.1 + vals.1, vals.2)

/-- `mg_chk_match_and_get_len`, `level` having been increased. -/
def mgChkOf (tbl_names : List NulText) (src : List UInt8) (relevant level index : Int) :
    ChkOut :=
  match src with
  | [] => none
  | typ :: rest =>
      match KdbType.ofI8 typ with
      | some .timeAtom | some .secondAtom | some .minuteAtom | some .dateAtom
      | some .monthAtom | some .realAtom | some .intAtom => some (1 + 4, relevant)
      | some .timespanAtom | some .datetimeAtom | some .timestampAtom | some .floatAtom
      | some .longAtom => some (1 + 8, relevant)
      | some .shortAtom => some (1 + 2, relevant)
      | some .charAtom | some .byteAtom | some .boolAtom => some (1 + 1, relevant)
      | some .guidAtom => some (1 + 16, relevant)
      | some .symbolAtom =>
          (stringView rest).map (fun pos =>
            (1 + (1 + pos.length),
              mgChkName tbl_names rest pos.length relevant level index))
      | some .list =>
          if rest.length < 5 ∨ i32At (rest.drop 1) < 0 then none
          else mgChkList chk src level (i32At (rest.drop 1)).toNat 0 6 relevant
      | some .boolVector | some .charVector | some .byteVector | some .shortVector
      | some .intVector | some .realVector | some .monthVector | some .dateVector
      | some .minuteVector | some .secondVector | some .timeVector | some .longVector
      | some .floatVector | some .timestampVector | some .datetimeVector
      | some .timespanVector | some .symbolVector =>
          (mgReadVecOld typ rest).map (fun len => (1 + len, relevant))
      | some .table =>
          (chk (src.drop 2) relevant level 0).map (fun out => (2 + out.1, out.2))
      | some .dict => mgChkDict chk src relevant level
      | _ => none

end Parts

/-- Every part starts behind the first byte of what it is a part of. -/
def mgChkFuel (tbl_names : List NulText) :
    Nat -> List UInt8 -> Int -> Int -> Int -> ChkOut
  | 0, _, _, _, _ => none
  | n + 1, src, relevant, level, index =>
      mgChkOf (mgChkFuel tbl_names n) tbl_names src relevant (level + 1) index

def mgChkMatchAndGetLen (tbl_names : List NulText) (src : List UInt8)
    (relevant level index : Int) : ChkOut :=
  mgChkFuel tbl_names (src.length + 1) src relevant level index

def mgChkMsg (src : List UInt8) (tbl_names : List NulText) (relevant : Int) : ChkOut :=
  mgChkMatchAndGetLen tbl_names src relevant (-1) 0

/-!
## What is noted
-/

namespace LogVal

mutual

/-- `*relevant` behind a value. -/
def mark (tbl_names : List NulText) (level index : Int) : LogVal -> Int -> Int
  | symbolAtom val, relevant =>
      if level = 0 ∧ index = 1 ∧ val ∈ tbl_names then 1 else relevant
  | list _ parts, relevant => markAll tbl_names (level + 1) 0 parts relevant
  | dict keys vals, relevant =>
      mark tbl_names (level + 1) 1 vals (mark tbl_names (level + 1) 0 keys relevant)
  | table _ cols vals, relevant =>
      mark tbl_names (level + 1 + 1) 1 vals (mark tbl_names (level + 1 + 1) 0 cols relevant)
  | _, relevant => relevant

/-- The same behind the elements of a list, from number `i` on. -/
def markAll (tbl_names : List NulText) (level : Int) : Int -> List LogVal -> Int -> Int
  | _, [], relevant => relevant
  | i, p :: ps, relevant =>
      markAll tbl_names level (i + 1) ps (mark tbl_names level i p relevant)

end
end LogVal

theorem mgChkName_eq (tbl_names : List NulText) (val : NulText) (rest : List UInt8)
    (relevant level index : Int) :
    mgChkName tbl_names (val.bytes ++ rest) val.text.length relevant (level + 1) index =
      if level = 0 ∧ index = 1 ∧ val ∈ tbl_names then 1 else relevant := by
  have hcmp : forall name : NulText,
      strncmp name.bytes (val.bytes ++ rest) (val.text.length + 1) = 0 <-> name = val := by
    intro name
    have h := strncmp_eq_zero name.nulFree val.nulFree [] rest
    rw [NulText.bytes, NulText.bytes, List.append_assoc, List.singleton_append, h]
    exact ⟨NulText.eq_of_text, congrArg NulText.text⟩
  have hfold : forall names : List NulText, forall relevant : Int,
      names.foldl
        (fun relevant name =>
          if strncmp name.bytes (val.bytes ++ rest) (val.text.length + 1) = 0 then 1
          else relevant) relevant =
        if val ∈ names then 1 else relevant := by
    intro names
    induction names with
    | nil => simp
    | cons name names ih =>
        intro relevant
        rw [List.foldl_cons, ih]
        simp only [hcmp, List.mem_cons]
        by_cases hname : name = val
        · simp [hname]
        · have hname' : val ≠ name := fun h => hname h.symm
          simp [hname, hname']
  rw [mgChkName, hfold]
  by_cases hat : level = 0 ∧ index = 1
  · rw [if_pos (by omega)]
    simp [hat]
  · rw [if_neg (by omega), if_neg (fun h => hat ⟨h.left, h.right.left⟩)]

/-!
## Texts and fronts
-/

theorem stringView_front (sym : NulText) {src rest : List UInt8}
    (hpre : src <+: sym.bytes ++ rest) :
    GivesWhen (sym.bytes.length <= src.length) sym.text (stringView src) := by
  constructor
  · intro hlen
    rw [(eq_append_of_front hpre hlen).left, NulText.bytes, List.append_assoc]
    exact stringView_terminated sym.nulFree _
  · intro hlen
    rw [sym.bytes_length] at hlen
    rw [stringView, if_pos]
    rw [sym.strnlen_of_front hpre]
    omega

section Symbols

variable {σ : Type}

def readSym (next : List UInt8 -> σ -> σ) (src : List UInt8) (s : σ) : Option (Nat × σ) :=
  (stringView src).map (fun text => (text.length + 1, next text s))

theorem reads_readSym (next : List UInt8 -> σ -> σ) (bound : Nat) (sym : NulText) :
    symbols.Reads (readSym next) (fun sym s => next sym.text s) bound sym := by
  intro src rest s hpre _
  have hview := (stringView_front sym hpre).map (fun text => (text.length + 1, next text s))
  have hiff : symbols.Readable src sym <-> sym.bytes.length <= src.length :=
    ⟨fun h => h.right, fun h => ⟨trivial, h⟩⟩
  have hlen : (symbols.enc sym).length = sym.text.length + 1 := sym.bytes_length
  rw [hlen]
  exact hview.of_iff hiff

theorem readAll_symbols (next : List UInt8 -> σ -> σ) (syms : List NulText)
    {src rest : List UInt8} {off : Nat} (s : σ) (hoff : off <= src.length)
    (hpre : src.drop off <+: KVal.symsBytes syms ++ rest) :
    GivesWhen (off + (KVal.symsBytes syms).length <= src.length)
      (off + (KVal.symsBytes syms).length, syms.foldl (fun s sym => next sym.text s) s)
      (readAll (readSym next) src syms.length off s) := by
  rw [<- symbols_encAll] at hpre ⊢
  refine (Coding.readAll_front syms s
    (fun sym _ => reads_readSym next ((src.drop off).length + 1) sym) (Nat.succ_pos _) hoff
    (Nat.lt_succ_self _) hpre).of_iff ?_
  rw [Coding.AllReadable, symbols_lastSlack]
  exact ⟨fun h => ⟨fun _ _ => trivial, h⟩, fun h => h.right⟩

end Symbols

theorem mgSymLoop_eq (src : List UInt8) (n off : Nat) :
    mgSymLoop src n off = (readAll (readSym (fun _ u => u)) src n off ()).map Prod.fst := by
  induction n generalizing off with
  | zero => rfl
  | succ n ih =>
      rw [mgSymLoop, readAll, readSym]
      cases stringView (src.drop off) with
      | none => rfl
      | some text => exact ih _

/-- The front of a vector or a list: there is nothing of it, or the type, or all of what
stands before the elements. -/
theorem front_vecHdr {n : Nat} (hn : n < 2 ^ 31) (t : KdbType) (attr : UInt8)
    {body src : List UInt8} (hpre : src <+: KVal.vecHdr t attr n ++ body) :
    src = [] ∨ exists tail, src = t.i8 :: tail ∧
      (5 <= tail.length -> i32At (tail.drop 1) = n ∧ tail.drop 5 <+: body ∧
        tail.headD 0 = attr) := by
  cases src with
  | nil => exact Or.inl rfl
  | cons typ tail =>
      have hcons : typ :: tail <+: t.i8 :: (attr :: leBytes 4 n ++ body) := hpre
      rcases List.cons_prefix_cons.mp hcons with ⟨rfl, htail⟩
      refine Or.inr ⟨tail, rfl, fun hlong => ?_⟩
      have hlen : (attr :: leBytes 4 n).length <= tail.length := by simpa using hlong
      rcases eq_append_of_front htail hlen with ⟨heq, hrest⟩
      have hfive : (attr :: leBytes 4 n).length = 5 := by simp
      rw [hfive] at heq hrest
      refine ⟨?_, hrest, ?_⟩
      · rw [heq, List.cons_append, List.drop_one, List.tail_cons,
          i32At_of_front (by simp) List.prefix_rfl, i32_of_lt hn]
      · rw [heq]
        rfl

theorem mgSymLoop_front (syms : List NulText) {src rest : List UInt8} {off : Nat}
    (hoff : off <= src.length) (hpre : src.drop off <+: KVal.symsBytes syms ++ rest) :
    GivesWhen (off + (KVal.symsBytes syms).length <= src.length)
      (off + (KVal.symsBytes syms).length) (mgSymLoop src syms.length off) := by
  rw [mgSymLoop_eq]
  exact (readAll_symbols (fun _ u => u) syms () hoff hpre).map Prod.fst

/-!
## What is measured
-/

/-! Which branch a type takes. -/

theorem mgChkOf_atom (e : LogElem) (chk : List UInt8 -> Int -> Int -> Int -> ChkOut)
    (tbl_names : List NulText) (rest : List UInt8) (relevant level index : Int) :
    mgChkOf chk tbl_names (e.atomTyp.i8 :: rest) relevant level index =
      some (1 + e.width, relevant) := by
  cases e with
  | elem e => cases e <;> rfl
  | datetime => rfl

theorem mgChkOf_vector {e : LogElem} (he : e ≠ .elem .guid)
    (chk : List UInt8 -> Int -> Int -> Int -> ChkOut) (tbl_names : List NulText)
    (rest : List UInt8) (relevant level index : Int) :
    mgChkOf chk tbl_names (e.vectorTyp.i8 :: rest) relevant level index =
      (mgReadVecOld e.vectorTyp.i8 rest).map (fun len => (1 + len, relevant)) := by
  cases e with
  | elem e =>
      cases e with
      | guid => exact absurd rfl he
      | _ => rfl
  | datetime => rfl

theorem mgChkOf_other {typ : UInt8} (h : foreignTyp typ = true)
    (chk : List UInt8 -> Int -> Int -> Int -> ChkOut) (tbl_names : List NulText)
    (rest : List UInt8) (relevant level index : Int) :
    mgChkOf chk tbl_names (typ :: rest) relevant level index = none := by
  rw [mgChkOf]
  rw [foreignTyp] at h
  split at h
  all_goals first | rename_i heq; rw [heq] | cases h

theorem mgReadVecOld_vector (e : LogElem) {src : List UInt8} (hlong : 5 <= src.length)
    (hcount : 0 <= i32At (src.drop 1)) :
    mgReadVecOld e.vectorTyp.i8 src = mgCopy e.width src := by
  rw [mgReadVecOld, if_neg (by omega), KdbType.ofI8_i8]
  cases e with
  | elem e => cases e <;> rfl
  | datetime => rfl

theorem mgCopy_eq (width : Nat) (src : List UInt8) :
    GivesWhen ((i32At (src.drop 1)).toNat * width < 2 ^ 31 ∧
        5 + (i32At (src.drop 1)).toNat * width <= src.length)
      (5 + (i32At (src.drop 1)).toNat * width) (mgCopy width src) := by
  rw [mgCopy]
  split
  next h => exact GivesWhen.none_of (by omega)
  next h =>
    split
    next h' => exact GivesWhen.none_of (by omega)
    next h' => exact GivesWhen.some_of (by omega)

def chkPart (chk : List UInt8 -> Int -> Int -> Int -> ChkOut) (level : Int)
    (src : List UInt8) (s : Int × Int) : Option (Nat × (Int × Int)) :=
  (chk src s.2 level s.1).map (fun out => (out.1, (s.1 + 1, out.2)))

theorem mgChkList_eq (chk : List UInt8 -> Int -> Int -> Int -> ChkOut) (src : List UInt8)
    (level : Int) (n : Nat) : forall (i : Int) (off : Nat) (relevant : Int),
      mgChkList chk src level n i off relevant =
        (readAll (chkPart chk level) src n off (i, relevant)).map
          (fun out => (out.1, out.2.2)) := by
  induction n with
  | zero => exact fun i off relevant => rfl
  | succ n ih =>
      intro i off relevant
      rw [mgChkList, readAll, chkPart]
      cases chk (src.drop off) relevant level i with
      | none => rfl
      | some out => exact ih (i + 1) (off + out.1) out.2

theorem mgChkDict_eq (chk : List UInt8 -> Int -> Int -> Int -> ChkOut) (src : List UInt8)
    (relevant level : Int) :
    mgChkDict chk src relevant level =
      (readAll (chkPart chk level) src 2 1 (0, relevant)).map
        (fun out => (out.1, out.2.2)) := by
  rw [mgChkDict, readAll, chkPart]
  cases chk (src.drop 1) relevant level 0 with
  | none => rfl
  | some keys =>
      simp only [Option.map_some]
      rw [readAll, chkPart]
      simp only [Int.zero_add]
      cases chk (src.drop (1 + keys.1)) keys.2 level 1 with
      | none => rfl
      | some vals => rfl

namespace LogVal

/-- The filter measures a value when it is shown enough of it, and notes what it should. -/
def Checks (tbl_names : List NulText) (n : Nat) (p : LogVal) : Prop :=
  forall (level index : Int) (src rest : List UInt8) (relevant : Int),
    src <+: p.bytes ++ rest -> src.length < n ->
    GivesWhen (measured.Readable src p)
      (p.bytes.length, p.mark tbl_names level index relevant)
      (mgChkFuel tbl_names n src relevant level index)

section Checks

variable {tbl_names : List NulText} {n : Nat}

theorem Checks.chkPart {p : LogVal} (h : p.Checks tbl_names n) (level : Int) :
    measured.Reads (MgKdb.chkPart (mgChkFuel tbl_names n) level)
      (fun p s => (s.1 + 1, p.mark tbl_names level s.1 s.2)) n p :=
  fun src rest s hpre hlt =>
    (h level s.1 src rest s.2 hpre hlt).map (fun out => (out.1, (s.1 + 1, out.2)))

theorem foldl_mark (level : Int) (ps : List LogVal) :
    forall (i relevant : Int),
      (ps.foldl (fun s p => (s.1 + 1, p.mark tbl_names level s.1 s.2)) (i, relevant)).2 =
        markAll tbl_names level i ps relevant := by
  induction ps with
  | nil => exact fun i relevant => by rw [markAll, List.foldl_nil]
  | cons p ps ih => exact fun i relevant => by rw [markAll, List.foldl_cons, ih]

theorem checks_parts (level i relevant : Int) (ps : List LogVal)
    (hparts : forall p, p ∈ ps -> p.Checks tbl_names n) {src rest : List UInt8} {off : Nat}
    (hpos : 0 < off) (hoff : off <= src.length) (hlt : src.length < n + 1)
    (hpre : src.drop off <+: bytesAll ps ++ rest) :
    GivesWhen (measured.AllReadable src off ps)
      (off + (bytesAll ps).length, markAll tbl_names level i ps relevant)
      ((readAll (MgKdb.chkPart (mgChkFuel tbl_names n) level) src ps.length off
        (i, relevant)).map (fun out => (out.1, out.2.2))) := by
  have hdrop : (src.drop off).length = src.length - off := List.length_drop
  rw [<- measured_encAll] at hpre ⊢
  rw [<- foldl_mark]
  exact (Coding.readAll_front ps (i, relevant) (fun p hp => (hparts p hp).chkPart level)
    (by omega) hoff (by omega) hpre).map (fun out => (out.1, out.2.2))

theorem not_readable_nil (p : LogVal) : ¬ measured.Readable [] p := by
  rintro ⟨_, hle⟩
  have hlt := p.unread_lt
  change p.bytes.length <= 0 + p.unread at hle
  omega

theorem allReadable_parts (src : List UInt8) (attr : UInt8) (parts : List LogVal) :
    measured.Readable src (.list attr parts) <-> measured.AllReadable src 6 parts := by
  rw [Coding.Readable, Coding.AllReadable, measured_encAll, measured_lastSlack]
  show (list attr parts).Accepted ∧ (list attr parts).bytes.length <= _ + unread _ <-> _
  rw [accepted_list, bytes, unread, List.length_append, KVal.vecHdr_length]
  exact Iff.rfl

theorem allReadable_pair (src : List UInt8) (keys vals : LogVal) :
    measured.Readable src (.dict keys vals) <->
      measured.AllReadable src 1 [keys, vals] := by
  rw [Coding.Readable, Coding.AllReadable, measured_encAll, measured_lastSlack]
  show (dict keys vals).Accepted ∧ (dict keys vals).bytes.length <= _ + unread _ <->
    (forall p, p ∈ [keys, vals] -> p.Accepted) ∧ _
  rw [accepted_dict, bytes, unread, unreadLast, unreadLast, bytesAll, bytesAll, bytesAll,
    List.append_nil, List.length_cons, Nat.add_comm, List.forall_mem_cons,
    List.forall_mem_singleton]

theorem not_readable_short (attr : UInt8) (parts : List LogVal) {src : List UInt8}
    (hlt : src.length < 6) : ¬ measured.Readable src (.list attr parts) := by
  rintro ⟨_, hle⟩
  have hlast := unreadLast_le (fun p (_ : p ∈ parts) => p.unread_lt)
  change (list attr parts).bytes.length <= _ + (list attr parts).unread at hle
  rw [bytes_list_length, unread] at hle
  omega

theorem checks_list (attr : UInt8) (parts : List LogVal) (hcount : parts.length < 2 ^ 31)
    (hparts : forall p, p ∈ parts -> p.Checks tbl_names n) :
    (list attr parts).Checks tbl_names (n + 1) := by
  intro level index src rest relevant hpre hlt
  rw [bytes, List.append_assoc] at hpre
  rcases front_vecHdr hcount .list attr hpre with rfl | ⟨tail, rfl, htail⟩
  · exact GivesWhen.none_of (not_readable_nil _)
  · have hbranch : mgChkFuel tbl_names (n + 1) (KdbType.list.i8 :: tail) relevant level index =
        if tail.length < 5 ∨ i32At (tail.drop 1) < 0 then none
        else mgChkList (mgChkFuel tbl_names n) (KdbType.list.i8 :: tail) (level + 1)
          (i32At (tail.drop 1)).toNat 0 6 relevant := rfl
    rw [hbranch]
    by_cases hlong : 5 <= tail.length
    · rcases htail hlong with ⟨hlen, hbody, _⟩
      have hchecks := checks_parts (level + 1) 0 relevant parts hparts (Nat.succ_pos 5)
        (by rw [List.length_cons]; omega) hlt
        (show (KdbType.list.i8 :: tail).drop 6 <+: bytesAll parts ++ rest from hbody)
      rw [if_neg (by omega), hlen, Int.toNat_natCast, mgChkList_eq]
      have hmark : (list attr parts).mark tbl_names level index relevant =
          markAll tbl_names (level + 1) 0 parts relevant := rfl
      rw [bytes_list_length, hmark]
      exact hchecks.of_iff (allReadable_parts _ attr parts)
    · rw [if_pos (by omega)]
      exact GivesWhen.none_of (not_readable_short attr parts (by rw [List.length_cons]; omega))

theorem checks_dict (keys vals : LogVal) (hkeys : keys.Checks tbl_names n)
    (hvals : vals.Checks tbl_names n) : (dict keys vals).Checks tbl_names (n + 1) := by
  intro level index src rest relevant hpre hlt
  cases src with
  | nil => exact GivesWhen.none_of (not_readable_nil _)
  | cons typ tail =>
      rw [bytes] at hpre
      rcases List.cons_prefix_cons.mp hpre with ⟨rfl, htail⟩
      have hbranch : mgChkFuel tbl_names (n + 1) (KdbType.dict.i8 :: tail) relevant level index =
          mgChkDict (mgChkFuel tbl_names n) (KdbType.dict.i8 :: tail) relevant (level + 1) := rfl
      have hparts : forall p, p ∈ [keys, vals] -> p.Checks tbl_names n := by
        simp [hkeys, hvals]
      have hbody : (KdbType.dict.i8 :: tail).drop 1 <+: bytesAll [keys, vals] ++ rest := by
        rw [bytesAll, bytesAll, bytesAll, List.append_nil]
        exact htail
      have hchecks := checks_parts (level + 1) 0 relevant [keys, vals] hparts (Nat.succ_pos 0)
        (by rw [List.length_cons]; omega) hlt hbody
      rw [hbranch, mgChkDict_eq]
      have hout : (dict keys vals).bytes.length = 1 + (bytesAll [keys, vals]).length := by
        rw [bytes_dict_length, bytesAll, bytesAll, bytesAll, List.append_nil, List.length_append,
          Nat.add_assoc]
      have hmark : (dict keys vals).mark tbl_names level index relevant =
          markAll tbl_names (level + 1) 0 [keys, vals] relevant := rfl
      rw [hout, hmark]
      exact hchecks.of_iff (allReadable_pair _ keys vals)

theorem readable_table (attr : UInt8) (cols vals : LogVal) (src : List UInt8) :
    measured.Readable src (.table attr cols vals) <->
      measured.Readable (src.drop 2) (.dict cols vals) := by
  have hlt := (dict cols vals).unread_lt
  show (table attr cols vals).Accepted ∧ (table attr cols vals).bytes.length <= _ + unread _ <->
    (dict cols vals).Accepted ∧ (dict cols vals).bytes.length <= _ + unread _
  rw [accepted_table, List.length_drop]
  rw [unread] at hlt ⊢
  rw [unread, bytes_table_length]
  constructor
  · rintro ⟨hok, hle⟩
    exact ⟨hok, by omega⟩
  · rintro ⟨hok, hle⟩
    exact ⟨hok, by omega⟩

theorem checks_table (attr : UInt8) (cols vals : LogVal)
    (hdict : (dict cols vals).Checks tbl_names n) :
    (table attr cols vals).Checks tbl_names (n + 1) := by
  intro level index src rest relevant hpre hlt
  cases src with
  | nil => exact GivesWhen.none_of (not_readable_nil _)
  | cons typ tail =>
      rw [bytes] at hpre
      rcases List.cons_prefix_cons.mp hpre with ⟨rfl, htail⟩
      have hbranch : mgChkFuel tbl_names (n + 1) (KdbType.table.i8 :: tail) relevant level index =
          (mgChkFuel tbl_names n (tail.drop 1) relevant (level + 1) 0).map
            (fun out => (2 + out.1, out.2)) := rfl
      have hbody : tail.drop 1 <+: (dict cols vals).bytes ++ rest := by
        have h := htail.drop 1
        rwa [bytes]
      rw [List.length_cons] at hlt
      have hshort : (tail.drop 1).length < n := by
        rw [List.length_drop]
        omega
      have hchk := (hdict (level + 1) 0 _ rest relevant hbody hshort).map
        (fun out => (2 + out.1, out.2))
      rw [hbranch]
      have hmark : (table attr cols vals).mark tbl_names level index relevant =
          (dict cols vals).mark tbl_names (level + 1) 0 relevant := rfl
      rw [bytes_table_length, hmark]
      exact hchk.of_iff (readable_table attr cols vals _)

theorem checks_vector (e : LogElem) (attr : UInt8) (vec : List (BitVec (8 * e.width)))
    (hcount : vec.length < 2 ^ 31) : (vector e attr vec).Checks tbl_names (n + 1) := by
  intro level index src rest relevant hpre hlt
  have hout := bytes_vector_length e attr vec
  have hread : measured.Readable src (vector e attr vec) <->
      (e ≠ .elem .guid ∧ vec.length * e.width < 2 ^ 31) ∧
        6 + vec.length * e.width <= src.length := by
    rw [<- accepted_vector e attr vec, <- hout]
    exact Iff.rfl
  have hmark : (vector e attr vec).mark tbl_names level index relevant = relevant := rfl
  rw [bytes, List.append_assoc] at hpre
  rcases front_vecHdr hcount e.vectorTyp attr hpre with rfl | ⟨tail, rfl, htail⟩
  · exact GivesWhen.none_of (not_readable_nil _)
  · refine GivesWhen.of_iff ?_ hread
    rw [hmark, hout, mgChkFuel]
    by_cases he : e = .elem .guid
    · subst he
      exact GivesWhen.none_of (fun h => h.left.left rfl)
    · rw [mgChkOf_vector he]
      by_cases hlong : 5 <= tail.length
      · rcases htail hlong with ⟨hlen, _, _⟩
        have hcopy := mgCopy_eq e.width tail
        rw [hlen, Int.toNat_natCast] at hcopy
        rw [mgReadVecOld_vector e hlong (by omega)]
        have hmap := hcopy.map (fun len => (1 + len, relevant))
        rw [<- Nat.add_assoc] at hmap
        refine hmap.of_iff ?_
        rw [List.length_cons]
        constructor
        · rintro ⟨⟨_, hfit⟩, hle⟩
          exact ⟨hfit, by omega⟩
        · rintro ⟨hfit, hle⟩
          exact ⟨⟨he, hfit⟩, by omega⟩
      · rw [mgReadVecOld, if_pos (by omega)]
        refine GivesWhen.none_of ?_
        rintro ⟨_, hle⟩
        rw [List.length_cons] at hle
        omega

theorem checks_symbolVector (attr : UInt8) (syms : List NulText)
    (hcount : syms.length < 2 ^ 31) : (symbolVector attr syms).Checks tbl_names (n + 1) := by
  intro level index src rest relevant hpre hlt
  have hout := bytes_symbolVector_length attr syms
  have hread : measured.Readable src (symbolVector attr syms) <->
      6 + (KVal.symsBytes syms).length <= src.length := by
    rw [<- hout]
    exact ⟨fun h => h.right, fun h => ⟨accepted_symbolVector attr syms, h⟩⟩
  have hmark : (symbolVector attr syms).mark tbl_names level index relevant = relevant := rfl
  rw [bytes, List.append_assoc] at hpre
  rcases front_vecHdr hcount .symbolVector attr hpre with rfl | ⟨tail, rfl, htail⟩
  · exact GivesWhen.none_of (not_readable_nil _)
  · have hbranch : mgChkFuel tbl_names (n + 1) (KdbType.symbolVector.i8 :: tail) relevant level
        index = (if tail.length < 5 ∨ i32At (tail.drop 1) < 0 then none
          else mgSymLoop tail (i32At (tail.drop 1)).toNat 5).map
            (fun len => (1 + len, relevant)) := rfl
    refine GivesWhen.of_iff ?_ hread
    rw [hmark, hout, hbranch]
    by_cases hlong : 5 <= tail.length
    · rcases htail hlong with ⟨hlen, hbody, _⟩
      rw [if_neg (by omega), hlen, Int.toNat_natCast]
      have hloop := (mgSymLoop_front syms hlong hbody).map (fun len => (1 + len, relevant))
      rw [<- Nat.add_assoc] at hloop
      refine hloop.of_iff ?_
      rw [List.length_cons]
      omega
    · rw [if_pos (by omega)]
      refine GivesWhen.none_of ?_
      rw [List.length_cons]
      omega

theorem mgChkName_mark (val : NulText) {tail rest : List UInt8}
    (hpre : tail <+: val.bytes ++ rest) (hlen : val.bytes.length <= tail.length)
    (relevant level index : Int) :
    mgChkName tbl_names tail val.text.length relevant (level + 1) index =
      (symbolAtom val).mark tbl_names level index relevant := by
  rw [(eq_append_of_front hpre hlen).left, mgChkName_eq, mark]

theorem checks_symbolAtom (val : NulText) : (symbolAtom val).Checks tbl_names (n + 1) := by
  intro level index src rest relevant hpre hlt
  have hout := bytes_symbolAtom_length val
  have hread : measured.Readable src (symbolAtom val) <->
      1 + val.bytes.length <= src.length := by
    rw [<- hout]
    exact ⟨fun h => h.right, fun h => ⟨accepted_symbolAtom val, h⟩⟩
  cases src with
  | nil => exact GivesWhen.none_of (not_readable_nil _)
  | cons typ tail =>
      rw [bytes] at hpre
      rcases List.cons_prefix_cons.mp hpre with ⟨rfl, htail⟩
      have hbranch : mgChkFuel tbl_names (n + 1) (KdbType.symbolAtom.i8 :: tail) relevant level
          index = (stringView tail).map (fun pos => (1 + (1 + pos.length),
            mgChkName tbl_names tail pos.length relevant (level + 1) index)) := rfl
      rw [hbranch]
      have hview := stringView_front val htail
      constructor
      · intro h
        have hle := hread.mp h
        rw [List.length_cons] at hle
        rw [hview.gives (by omega), Option.map_some, mgChkName_mark val htail (by omega), hout,
          NulText.bytes_length, Nat.add_comm 1 val.text.length]
      · intro h
        rw [hview.denies (fun hle => h (hread.mpr (by rw [List.length_cons]; omega))),
          Option.map_none]

theorem checks_atom (e : LogElem) (val : BitVec (8 * e.width)) :
    (atom e val).Checks tbl_names (n + 1) := by
  intro level index src rest relevant hpre hlt
  cases src with
  | nil => exact GivesWhen.none_of (not_readable_nil _)
  | cons typ tail =>
      have hout := bytes_atom_length e val
      have hmark : (atom e val).mark tbl_names level index relevant = relevant := rfl
      have hread : measured.Readable (typ :: tail) (atom e val) := by
        refine ⟨accepted_atom e val, ?_⟩
        show (atom e val).bytes.length <= (typ :: tail).length + (atom e val).unread
        rw [hout, unread, List.length_cons]
        omega
      rw [bytes] at hpre
      rcases List.cons_prefix_cons.mp hpre with ⟨rfl, _⟩
      rw [mgChkFuel, mgChkOf_atom, hout, hmark]
      exact GivesWhen.some_of hread

theorem checks_other (typ : UInt8) (h : foreignTyp typ = true) (body : List UInt8) :
    (other typ h body).Checks tbl_names (n + 1) := by
  intro level index src rest relevant hpre hlt
  have hread : ¬ measured.Readable src (other typ h body) :=
    fun hread => not_accepted_other typ h body hread.left
  cases src with
  | nil => exact GivesWhen.none_of hread
  | cons t tail =>
      rw [bytes] at hpre
      rcases List.cons_prefix_cons.mp hpre with ⟨rfl, _⟩
      rw [mgChkFuel, mgChkOf_other h]
      exact GivesWhen.none_of hread

theorem checks_of_succ {p : LogVal} (h : forall n, p.Checks tbl_names (n + 1)) (n : Nat) :
    p.Checks tbl_names n := by
  cases n with
  | zero => exact fun _ _ _ _ _ _ hlt => absurd hlt (Nat.not_lt_zero _)
  | succ n => exact h n

theorem checks (p : LogVal) : p.WellFormed -> forall n, p.Checks tbl_names n := by
  induction p with
  | atom e val => exact fun _ => checks_of_succ (fun _ => checks_atom e val)
  | symbolAtom val => exact fun _ => checks_of_succ (fun _ => checks_symbolAtom val)
  | vector e attr vec => exact fun hwf => checks_of_succ (fun _ => checks_vector e attr vec hwf)
  | symbolVector attr syms =>
      exact fun hwf => checks_of_succ (fun _ => checks_symbolVector attr syms hwf)
  | list attr parts ih =>
      rintro ⟨hcount, hwf⟩
      rw [everywhereAll_iff] at hwf
      exact checks_of_succ
        (fun n => checks_list attr parts hcount (fun p hp => ih p hp (hwf p hp) n))
  | dict keys vals ihk ihv =>
      rintro ⟨_, hkeys, hvals⟩
      exact checks_of_succ (fun n => checks_dict keys vals (ihk hkeys n) (ihv hvals n))
  | table attr cols vals ihc ihv =>
      rintro ⟨_, hcols, hvals⟩
      have hdict := checks_of_succ
        (fun n => checks_dict cols vals (ihc hcols n) (ihv hvals n))
      exact checks_of_succ (fun n => checks_table attr cols vals (hdict n))
  | other typ h body => exact fun _ => checks_of_succ (fun _ => checks_other typ h body)

end Checks
end LogVal
end MgKdb
