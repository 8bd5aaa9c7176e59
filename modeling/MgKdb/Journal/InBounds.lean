import MgKdb.Journal.Access
import Mathlib.Logic.Relation

/-!
# Reads inside the array

The scanner leaves the array behind the type byte of a table that is the last byte, and
when it goes on to another element behind an atom that is cut short: the size of an atom
is not compared with what remains.
-/

namespace MgKdb

open Foundation Relation

/-!
## The calls of a scan
-/

def CutAtom (src : List UInt8) : Prop :=
  src ≠ [] ∧ KdbUtil.isAtom (src.headD 0) = true ∧
    exists len, atomLen (src.headD 0) = some len ∧ src.length < len

/-- The type byte of a table is the last byte, possibly inside other tables. -/
inductive LoneTable : List UInt8 -> Prop where
  | last : LoneTable [KdbType.table.i8]
  | nested {att : UInt8} {src : List UInt8} (h : LoneTable src) :
      LoneTable (KdbType.table.i8 :: att :: src)

inductive DictParts : List UInt8 -> List UInt8 -> Prop where
  | dict {body : List UInt8} : DictParts (KdbType.dict.i8 :: body) body
  | stepDict {body : List UInt8} : DictParts (KdbType.stepDict.i8 :: body) body
  | table {att : UInt8} {src body : List UInt8} (h : DictParts src body) :
      DictParts (KdbType.table.i8 :: att :: src) body

/--
The calls that a call of `ipcPayloadLen` makes: of which bytes, and whether there is
something behind them to go on to.
-/
inductive Calls : List UInt8 × Bool -> List UInt8 × Bool -> Prop where
  | element {src : List UInt8} {more : Bool} {n pos : Nat}
      (hlist : src.headD 0 = KdbType.list.i8) (hhdr : 6 <= src.length)
      (hcnt : n < (hdrLen src).toNat) (hpos : listLoop ipcPayloadLen src n 6 = some (pos : Int))
      (hle : pos <= src.length) :
      Calls (src, more) (src.drop pos, more || decide (n + 1 < (hdrLen src).toNat))
  | keys {src body : List UInt8} {more : Bool} (hparts : DictParts src body) :
      Calls (src, more) (body, true)
  | vals {src body : List UInt8} {more : Bool} {l : Int} (hparts : DictParts src body)
      (hkeys : ipcPayloadLen body = some l) (hlen : 0 <= i32OfInt l)
      (hle : (i32OfInt l).toNat <= body.length) :
      Calls (src, more) (body.drop (i32OfInt l).toNat, more)

def LeadsOut (call : List UInt8 × Bool) : Prop :=
  LoneTable call.1 ∨ (call.2 = true ∧ CutAtom call.1)

def Orderly (src : List UInt8) : Prop :=
  forall call, ReflTransGen Calls (src, false) call -> ¬ LeadsOut call

/-!
## The range of the answers
-/

theorem i32OfInt_range (x : Int) : -2 ^ 31 <= i32OfInt x ∧ i32OfInt x < 2 ^ 31 := by
  rw [i32OfInt, BitVec.toInt_ofInt]
  have hlow := Int.le_bmod (x := x) (m := 2 ^ 32) (by decide)
  have hhigh := Int.bmod_lt (x := x) (m := 2 ^ 32) (by decide)
  omega

theorem i32OfInt_le {x : Int} (hlow : -2 ^ 31 <= x) (h : 0 <= i32OfInt x) :
    i32OfInt x <= x := by
  rw [i32OfInt, BitVec.toInt_ofInt, Int.bmod] at h ⊢
  split at h
  · rename_i hsmall
    rw [if_pos hsmall]
    omega
  · omega

def Within (src : List UInt8) (x : Scan) : Prop :=
  exists n, x = some n ∧ -2 <= n ∧ n <= src.length

theorem msgLenSymAtom_within (src : List UInt8) : Within src (msgLenSymAtom src) := by
  unfold msgLenSymAtom
  split
  · exact ⟨-1, rfl, by omega, by omega⟩
  · split
    · exact ⟨-1, rfl, by omega, by omega⟩
    · have hle := (strnlen_spec (src.drop 1) (src.length - 1)).left
      exact ⟨_, rfl, by omega, by omega⟩

theorem symVecLoop_within (src : List UInt8) (n : Nat) : forall {off : Nat},
    off <= src.length -> Within src (symVecLoop src n off) := by
  induction n with
  | zero =>
      intro off hoff
      exact ⟨off, rfl, by omega, by omega⟩
  | succ n ih =>
      intro off hoff
      rw [symVecLoop]
      split
      · exact ⟨-1, rfl, by omega, by omega⟩
      · have hle := (strnlen_spec (src.drop off) (src.length - off)).left
        exact ih (by omega)

theorem msgLenSymVec_within (src : List UInt8) : Within src (msgLenSymVec src) := by
  unfold msgLenSymVec
  split
  · exact ⟨-1, rfl, by omega, by omega⟩
  · exact symVecLoop_within src _ (by omega)

theorem msgLenCmp_within (src : List UInt8) (len : Int) (width : Nat) :
    Within src (msgLenCmp len width src.length) := by
  unfold msgLenCmp
  split
  · exact ⟨-1, rfl, by omega, by omega⟩
  · split
    · exact ⟨-1, rfl, by omega, by omega⟩
    · exact ⟨_, rfl, by omega, by omega⟩

theorem msgLenVec_within (src : List UInt8) : Within src (msgLenVec src) := by
  unfold msgLenVec
  split
  · exact ⟨-1, rfl, by omega, by omega⟩
  · split <;> first | exact msgLenCmp_within _ _ _ | exact ⟨-2, rfl, by omega, by omega⟩

theorem msgLenAtom_cases {src : List UInt8} (h : src ≠ []) :
    msgLenAtom src = some (-2) ∨
      exists len, atomLen (src.headD 0) = some len ∧ msgLenAtom src = some (len : Int) := by
  rw [msgLenAtom_eq h]
  cases atomLen (src.headD 0) with
  | none => exact Or.inl rfl
  | some len => exact Or.inr ⟨len, rfl, rfl⟩

theorem atomLen_le {typ : UInt8} {len : Nat} (h : atomLen typ = some len) : len <= 17 := by
  unfold atomLen at h
  split at h <;> cases h <;> omega

/-- An answer is an error code, or a length that exceeds what is there by an atom at most. -/
def InRange (src : List UInt8) (x : Scan) : Prop :=
  forall n, x = some n -> -2 ^ 31 <= n ∧ n <= src.length + 16

theorem Within.inRange {src : List UInt8} {x : Scan} (h : Within src x) : InRange src x := by
  rcases h with ⟨n, rfl, hlow, hhigh⟩
  intro m hm
  cases hm
  omega

theorem listLoop_inRange {p : List UInt8 -> Scan} {src : List UInt8}
    (hp : forall part, part.length < src.length -> InRange part (p part)) (n : Nat) :
    forall {len : Nat}, 0 < len -> len <= src.length + 16 ->
      InRange src (listLoop p src n len) := by
  induction n with
  | zero =>
      intro len _ hle m hm
      cases hm
      omega
  | succ n ih =>
      intro len hpos hle m hm
      rw [listLoop] at hm
      by_cases hend : src.length < len
      · rw [if_pos hend] at hm
        cases hm
      · rw [if_neg hend] at hm
        have hpart : InRange (src.drop len) (p (src.drop len)) := by
          apply hp
          rw [List.length_drop]
          omega
        cases hy : p (src.drop len) with
        | none =>
            rw [hy] at hm
            cases hm
        | some eln =>
            rcases hpart eln hy with ⟨hlow, hhigh⟩
            rw [hy] at hm
            simp only at hm
            rw [List.length_drop] at hhigh
            by_cases heln : eln < 0
            · rw [if_pos heln] at hm
              cases hm
              omega
            · rw [if_neg heln] at hm
              exact ih (by omega) (by omega) m hm

theorem dictLen_inRange {p : List UInt8 -> Scan} {body : List UInt8}
    (hp : forall part, part.length <= body.length -> InRange part (p part)) :
    InRange (0 :: body) (dictLen p body) := by
  intro n hn
  unfold dictLen at hn
  cases hl : p body with
  | none =>
      rw [hl] at hn
      cases hn
  | some l =>
      rw [hl] at hn
      simp only at hn
      have hlen := i32OfInt_range l
      rw [List.length_cons]
      by_cases hneg : i32OfInt l < 0
      · rw [if_pos hneg] at hn
        cases hn
        omega
      · rw [if_neg hneg] at hn
        by_cases hend : body.length < (i32OfInt l).toNat
        · rw [if_pos hend] at hn
          cases hn
        · rw [if_neg hend] at hn
          cases ht : p (body.drop (i32OfInt l).toNat) with
          | none =>
              rw [ht] at hn
              cases hn
          | some t =>
              rw [ht] at hn
              simp only at hn
              have htmp := i32OfInt_range t
              have hpart : InRange (body.drop (i32OfInt l).toNat) (some t) := by
                rw [← ht]
                apply hp
                rw [List.length_drop]
                omega
              rcases hpart t rfl with ⟨hlow, hhigh⟩
              rw [List.length_drop] at hhigh
              by_cases hneg' : i32OfInt t < 0
              · rw [if_pos hneg'] at hn
                cases hn
                omega
              · have hle := i32OfInt_le hlow (by omega)
                rw [if_neg hneg'] at hn
                split at hn
                · cases hn
                · cases hn
                  omega

theorem msgLenVary_inRange {p : List UInt8 -> Scan} {src : List UInt8}
    (hp : forall part, part.length < src.length -> InRange part (p part)) :
    InRange src (msgLenVary p src) := by
  fun_induction msgLenVary p src with
  | case1 =>
      intro n hn
      cases hn
      omega
  | case2 =>
      intro n hn
      cases hn
  | case3 typ htyp hdict =>
      intro n hn
      have h := @dictLen_inRange _ [] (fun part hpart => hp part (by
        rw [List.length_cons]
        omega)) n hn
      simpa using h
  | case4 =>
      intro n hn
      cases hn
      omega
  | case5 att src ih =>
      intro n hn
      rcases Option.map_eq_some_iff.mp hn with ⟨m, hm, rfl⟩
      have h := ih (fun part hpart => hp part (by
        rw [List.length_cons, List.length_cons]
        omega)) m hm
      rw [List.length_cons, List.length_cons]
      omega
  | case6 typ att src htyp hdict =>
      intro n hn
      have h := @dictLen_inRange _ (att :: src) (fun part hpart => hp part (by
        rw [List.length_cons]
        omega)) n hn
      simpa using h
  | case7 =>
      intro n hn
      cases hn
      omega

theorem ipcPayloadLen_inRange (src : List UInt8) : InRange src (ipcPayloadLen src) := by
  induction hlen : src.length using Nat.strongRecOn generalizing src with
  | ind k ih =>
      have hp : forall part, part.length < src.length -> InRange part (ipcPayloadLen part) :=
        fun part hpart => ih part.length (hlen ▸ hpart) part rfl
      rw [ipcPayloadLen_eq, ipcPayloadLenOf]
      split
      · intro n hn
        cases hn
        omega
      · rename_i hne
        split
        · unfold msgLenList
          split
          · intro n hn
            cases hn
            omega
          · exact listLoop_inRange hp _ (by omega) (by omega)
        · split
          · split
            · exact (msgLenSymAtom_within src).inRange
            · intro n hn
              have hsrc : src ≠ [] := fun hnil => hne (by rw [hnil]; rfl)
              rcases msgLenAtom_cases hsrc with h | ⟨len, hatom, h⟩
              · rw [h] at hn
                cases hn
                omega
              · have hle := atomLen_le hatom
                rw [h] at hn
                cases hn
                omega
          · split
            · split
              · exact (msgLenSymVec_within src).inRange
              · exact (msgLenVec_within src).inRange
            · exact msgLenVary_inRange hp

/-!
## Loops over elements that are there
-/

theorem listLoop_add {p : List UInt8 -> Scan} {src : List UInt8} {pos : Nat} (n k : Nat) :
    forall {len : Nat}, listLoop p src n len = some (pos : Int) ->
      listLoop p src (n + k) len = listLoop p src k pos := by
  induction n with
  | zero =>
      intro len h
      have hpos : len = pos := Int.ofNat_inj.mp (Option.some.inj h)
      rw [Nat.zero_add, hpos]
  | succ n ih =>
      intro len h
      rw [Nat.add_right_comm, listLoop]
      rw [listLoop] at h
      split at h
      · cases h
      · rename_i hend
        rw [if_neg hend]
        cases hy : p (src.drop len) with
        | none =>
            rw [hy] at h
            cases h
        | some eln =>
            rw [hy] at h
            simp only at h ⊢
            by_cases heln : eln < 0
            · rw [if_pos heln] at h
              have hpos := Option.some.inj h
              omega
            · rw [if_neg heln] at h
              rw [if_neg heln]
              exact ih h

theorem le_of_listLoop {p : List UInt8 -> Scan} {src : List UInt8} {pos : Nat} (n : Nat) :
    forall {len : Nat}, listLoop p src n len = some (pos : Int) -> len <= pos := by
  induction n with
  | zero =>
      intro len h
      exact Nat.le_of_eq (Int.ofNat_inj.mp (Option.some.inj h))
  | succ n ih =>
      intro len h
      rw [listLoop] at h
      split at h
      · cases h
      · cases hy : p (src.drop len) with
        | none =>
            rw [hy] at h
            cases h
        | some eln =>
            rw [hy] at h
            simp only at h
            split at h
            · have hpos := Option.some.inj h
              omega
            · have hle := ih h
              omega

section Loops

variable {src : List UInt8} {off rem : Nat} {pa : Nat -> Nat -> Access Int}

theorem listLoopAt_add (h : off + rem = src.length) (hp : AgreeAtBelow src rem pa ipcPayloadLen)
    {pos : Nat} (n k : Nat) : forall {len : Nat}, 0 < len ->
      listLoop ipcPayloadLen (src.drop off) n len = some (pos : Int) ->
      listLoopAt pa off rem (n + k) len = listLoopAt pa off rem k pos := by
  have hlen : (src.drop off).length = rem := by
    rw [List.length_drop]
    omega
  induction n with
  | zero =>
      intro len _ hloop
      have hpos : len = pos := Int.ofNat_inj.mp (Option.some.inj hloop)
      rw [Nat.zero_add, hpos]
  | succ n ih =>
      intro len hpos hloop
      rw [Nat.add_right_comm, listLoopAt]
      rw [listLoop, hlen] at hloop
      by_cases hend : rem < len
      · rw [if_pos hend] at hloop
        cases hloop
      · rw [if_neg hend, List.drop_drop] at hloop
        have hpart := hp (off + len) (rem - len) (by omega) (by omega)
        cases hy : ipcPayloadLen (src.drop (off + len)) with
        | none =>
            rw [hy] at hloop
            cases hloop
        | some eln =>
            rw [hy] at hloop hpart
            simp only at hloop
            rw [minus_of_le (by omega), Access.ok_bind, hpart.eq_ok, Access.ok_bind]
            by_cases heln : eln < 0
            · rw [if_pos heln] at hloop
              have hneg := Option.some.inj hloop
              omega
            · rw [if_neg heln] at hloop
              rw [if_neg heln]
              exact ih (by omega) hloop

/-!
## Calls that lead nowhere
-/

/--
A call in order: no size wraps, and where the scan goes on from it the answer is not beyond
what remains.
-/
def Keeps (x : Access Int) (rem : Nat) (more : Bool) : Prop :=
  x ≠ .error .wrap ∧ (more = true -> forall n, x = .ok n -> n <= rem)

theorem Agrees.eq_some {n : Int} {y : Scan} (h : Agrees (.ok n) y) : y = some n := by
  cases y with
  | none => cases h
  | some m => exact congrArg some h.symm

theorem keeps_ok {n : Int} {more : Bool} (h : more = true -> n <= rem) :
    Keeps (.ok n) rem more := by
  constructor
  · intro hwrap
    cases hwrap
  · intro hmore m hm
    cases hm
    exact h hmore

theorem keeps_error {e : ScanFault} {more : Bool}
    (h : (Except.error e : Access Int) ≠ .error .wrap) : Keeps (.error e) rem more :=
  ⟨h, fun _ _ hm => nomatch hm⟩

theorem Within.keeps {part : List UInt8} {x : Access Int} {y : Scan} (h : Within part y)
    (hagree : Agrees x y) (more : Bool) : Keeps x part.length more := by
  rcases h with ⟨n, rfl, _, hle⟩
  rw [hagree.eq_ok]
  exact keeps_ok fun _ => hle

theorem listLoopAt_keeps (h : off + rem = src.length)
    (hp : AgreeAtBelow src rem pa ipcPayloadLen) {more : Bool} {cnt : Nat}
    (hpart : forall n pos, n < cnt -> 0 < pos -> pos <= rem ->
      listLoop ipcPayloadLen (src.drop off) n 6 = some (pos : Int) ->
      Keeps (pa (off + pos) (rem - pos)) (rem - pos) (more || decide (n + 1 < cnt))) (k : Nat) :
    forall {n pos : Nat}, n + k = cnt -> 0 < pos ->
      listLoop ipcPayloadLen (src.drop off) n 6 = some (pos : Int) ->
      (0 < k ∨ more = true -> pos <= rem) -> Keeps (listLoopAt pa off rem k pos) rem more := by
  induction k with
  | zero =>
      intro n pos _ _ _ hle
      exact keeps_ok fun hmore => Int.ofNat_le.mpr (hle (Or.inr hmore))
  | succ k ih =>
      intro n pos hcnt hpos hloop hle
      have hroom := hle (Or.inl (Nat.succ_pos k))
      have hkeeps := hpart n pos (by omega) hpos hroom hloop
      have hagree := hp (off + pos) (rem - pos) (by omega) (by omega)
      rw [listLoopAt, minus_of_le hroom, Access.ok_bind]
      cases hx : pa (off + pos) (rem - pos) with
      | error e =>
          rw [hx] at hkeeps
          exact keeps_error hkeeps.left
      | ok eln =>
          rw [hx] at hkeeps hagree
          rw [Access.ok_bind]
          by_cases heln : eln < 0
          · rw [if_pos heln]
            exact keeps_ok fun _ => by omega
          · have hnext : listLoop ipcPayloadLen (src.drop off) (n + 1) 6 =
                some ((pos + eln.toNat : Nat) : Int) := by
              have hin : ¬ (src.drop off).length < pos := by
                rw [List.length_drop]
                omega
              rw [listLoop_add n 1 hloop, listLoop, if_neg hin, List.drop_drop,
                hagree.eq_some]
              simp only
              rw [if_neg heln]
              rfl
            rw [if_neg heln]
            refine ih (by omega) (by omega) hnext ?_
            intro hmore
            have hflag : (more || decide (n + 1 < cnt)) = true := by
              rcases hmore with hk | hmore
              · rw [decide_eq_true (show n + 1 < cnt by omega), Bool.or_true]
              · rw [hmore, Bool.true_or]
            have hfit := hkeeps.right hflag eln rfl
            omega

theorem dictLenAt_keeps (h : off + rem = src.length) (hpos : 0 < rem)
    (hp : AgreeAtBelow src rem pa ipcPayloadLen) {more : Bool}
    (hkeys : Keeps (pa (off + 1) (rem - 1)) (rem - 1) true)
    (hvals : forall l, ipcPayloadLen (src.drop (off + 1)) = some l -> 0 <= i32OfInt l ->
      (i32OfInt l).toNat <= rem - 1 ->
      Keeps (pa (off + 1 + (i32OfInt l).toNat) (rem - 1 - (i32OfInt l).toNat))
        (rem - 1 - (i32OfInt l).toNat) more) :
    Keeps (dictLenAt pa off rem) rem more := by
  have hagree := hp (off + 1) (rem - 1) (by omega) (by omega)
  rw [dictLenAt, minus_of_le (by omega), Access.ok_bind]
  cases hx : pa (off + 1) (rem - 1) with
  | error e =>
      rw [hx] at hkeys
      exact keeps_error hkeys.left
  | ok l =>
      rw [hx] at hkeys hagree
      have hl := hagree.eq_some
      have hlow := (ipcPayloadLen_inRange _ l hl).left
      have hfit := hkeys.right rfl l rfl
      rw [Access.ok_bind]
      simp only
      by_cases hneg : i32OfInt l < 0
      · rw [if_pos hneg]
        exact keeps_ok fun _ => by omega
      · have hlen := i32OfInt_le hlow (by omega)
        have hkeeps := hvals l hl (by omega) (by omega)
        have hagree' := hp (off + 1 + (i32OfInt l).toNat) (rem - 1 - (i32OfInt l).toNat)
          (by omega) (by omega)
        rw [if_neg hneg, minus_of_le (by omega), Access.ok_bind]
        cases hy : pa (off + 1 + (i32OfInt l).toNat) (rem - 1 - (i32OfInt l).toNat) with
        | error e =>
            rw [hy] at hkeeps
            exact keeps_error hkeeps.left
        | ok t =>
            rw [hy] at hkeeps hagree'
            have hlow' := (ipcPayloadLen_inRange _ t hagree'.eq_some).left
            rw [Access.ok_bind]
            by_cases hneg' : i32OfInt t < 0
            · rw [if_pos hneg']
              exact keeps_ok fun _ => by omega
            · rw [if_neg hneg']
              split
              · exact keeps_error (by simp)
              · refine keeps_ok fun hmore => ?_
                have hvalsFit := hkeeps.right hmore t rfl
                have hle := i32OfInt_le hlow' (by omega)
                omega

/-- What has to hold of the two parts of a dict whose type is at `off`. -/
def PartsKeep (src : List UInt8) (pa : Nat -> Nat -> Access Int) (off rem : Nat)
    (more : Bool) : Prop :=
  Keeps (pa (off + 1) (rem - 1)) (rem - 1) true ∧
    forall l, ipcPayloadLen (src.drop (off + 1)) = some l -> 0 <= i32OfInt l ->
      (i32OfInt l).toNat <= rem - 1 ->
      Keeps (pa (off + 1 + (i32OfInt l).toNat) (rem - 1 - (i32OfInt l).toNat))
        (rem - 1 - (i32OfInt l).toNat) more

theorem DictParts.length_lt {src body : List UInt8} (h : DictParts src body) :
    body.length < src.length := by
  induction h with
  | dict => exact Nat.lt_succ_self _
  | stepDict => exact Nat.lt_succ_self _
  | table h ih =>
      rw [List.length_cons, List.length_cons]
      omega

theorem dictParts_of_typ {typ : UInt8} (htyp : typ = KdbType.dict.i8 ∨ typ = KdbType.stepDict.i8)
    (body : List UInt8) : DictParts (typ :: body) body := by
  rcases htyp with rfl | rfl
  · exact .dict
  · exact .stepDict

theorem msgLenVaryAt_keeps (hp : AgreeAtBelow src rem pa ipcPayloadLen) {more : Bool}
    (n : Nat) : forall {off : Nat}, n <= rem -> off + n = src.length ->
      ¬ LoneTable (src.drop off) ->
      (forall o r, o + r = src.length -> 0 < r -> DictParts (src.drop off) (src.drop (o + 1)) ->
        PartsKeep src pa o r more) ->
      Keeps (msgLenVaryAt pa src off n) n more := by
  induction n using Nat.twoStepInduction with
  | zero =>
      intro off _ _ _ _
      exact keeps_ok fun _ => by omega
  | one =>
      intro off hle h hlone hparts
      have hlt : off < src.length := by omega
      have hnil : src.drop (off + 1) = [] := List.drop_eq_nil_of_le (by omega)
      have hdrop := List.drop_eq_getElem_cons hlt
      rw [msgLenVaryAt, byteAt_of_lt hlt, Access.ok_bind, hdrop, List.headD_cons]
      split
      · rename_i htyp
        rw [hdrop, hnil, htyp] at hlone
        exact absurd .last hlone
      · split
        · rename_i htyp
          have hkeep := hparts off 1 h Nat.one_pos (hdrop ▸ dictParts_of_typ htyp _)
          exact dictLenAt_keeps h Nat.one_pos (fun o r ho hr => hp o r ho (by omega))
            hkeep.left hkeep.right
        · exact keeps_ok fun _ => by omega
  | more n ih _ =>
      intro off hle h hlone hparts
      have hlt : off < src.length := by omega
      have hnext : off + 1 < src.length := by omega
      have hdrop := List.drop_eq_getElem_cons hlt
      rw [msgLenVaryAt, byteAt_of_lt hlt, Access.ok_bind, hdrop, List.headD_cons]
      split
      · rename_i htyp
        rw [hdrop, List.drop_eq_getElem_cons hnext, htyp] at hlone hparts
        have hnested := @ih (off + 2) (by omega) (by omega)
          (fun hlast => hlone (.nested hlast))
          (fun o r ho hr hin => hparts o r ho hr (.table hin))
        cases hx : msgLenVaryAt pa src (off + 2) n with
        | error e =>
            rw [hx] at hnested
            exact keeps_error hnested.left
        | ok len =>
            rw [hx] at hnested
            refine keeps_ok fun hmore => ?_
            have hfit := hnested.right hmore len rfl
            omega
      · split
        · rename_i htyp
          have hkeep := hparts off (n + 2) h (by omega) (hdrop ▸ dictParts_of_typ htyp _)
          exact dictLenAt_keeps h (by omega) (fun o r ho hr => hp o r ho (by omega))
            hkeep.left hkeep.right
        · exact keeps_ok fun _ => by omega

theorem payloadLenFuelAt_keeps (n : Nat) : forall {off rem : Nat} {more : Bool},
    off + rem = src.length -> rem < n ->
      (forall call, ReflTransGen Calls (src.drop off, more) call -> ¬ LeadsOut call) ->
      Keeps (payloadLenFuelAt src n off rem) rem more := by
  induction n with
  | zero =>
      intro off rem more _ hn
      omega
  | succ n ih =>
      intro off rem more h hn horderly
      have hlen : (src.drop off).length = rem := by
        rw [List.length_drop]
        omega
      have hp : AgreeAtBelow src rem (payloadLenFuelAt src n) ipcPayloadLen :=
        fun o r ho hr => payloadLenFuelAt_agrees n ho (by omega)
      have hcall : forall {o r : Nat} {flag : Bool}, o + r = src.length -> r < n ->
          Calls (src.drop off, more) (src.drop o, flag) ->
          Keeps (payloadLenFuelAt src n o r) r flag := fun ho hr hcalls =>
        ih ho hr fun call hreach => horderly call (.head hcalls hreach)
      have hself := horderly _ .refl
      rw [payloadLenFuelAt, payloadLenOfAt]
      by_cases hnone : rem = 0
      · rw [if_pos hnone]
        exact keeps_ok fun _ => by omega
      · have hne : src.drop off ≠ [] := by
          rw [ne_eq, List.drop_eq_nil_iff]
          omega
        rw [if_neg hnone, byteAt_of_lt (by omega), Access.ok_bind]
        by_cases hlist : (src.drop off).headD 0 = KdbType.list.i8
        · rw [if_pos hlist, msgLenListAt]
          by_cases hshort : rem < 6
          · rw [if_pos hshort]
            exact keeps_ok fun _ => by omega
          · rw [if_neg hshort, hdrLenAt_eq (by omega), Access.ok_bind]
            refine listLoopAt_keeps h hp ?_ _ (Nat.zero_add _) (by omega) rfl (by omega)
            intro k pos hk hpos hle hloop
            apply hcall (by omega) (by omega)
            have helem : Calls (src.drop off, more) _ :=
              .element hlist (by omega) hk hloop (by omega)
            rwa [List.drop_drop] at helem
        · rw [if_neg hlist]
          by_cases hatom : KdbUtil.isAtom ((src.drop off).headD 0) = true
          · rw [if_pos hatom]
            split
            · have hkeeps := (msgLenSymAtom_within _).keeps (msgLenSymAtomAt_agrees h) more
              rwa [hlen] at hkeeps
            · have hagree := msgLenAtomAt_agrees h
              rcases msgLenAtom_cases hne with hcode | ⟨len, hatomLen, hcode⟩
              · rw [hcode] at hagree
                rw [hagree.eq_ok]
                exact keeps_ok fun _ => by omega
              · rw [hcode] at hagree
                rw [hagree.eq_ok]
                refine keeps_ok fun hmore => ?_
                by_contra hcut
                exact hself (Or.inr ⟨hmore, hne, hatom, len, hatomLen, by
                  show (src.drop off).length < len
                  omega⟩)
          · rw [if_neg hatom]
            split
            · split
              · have hkeeps := (msgLenSymVec_within _).keeps (msgLenSymVecAt_agrees h) more
                rwa [hlen] at hkeeps
              · have hkeeps := (msgLenVec_within _).keeps (msgLenVecAt_agrees h) more
                rwa [hlen] at hkeeps
            · refine msgLenVaryAt_keeps hp _ (Nat.le_refl _) h
                (fun hlone => hself (Or.inl hlone)) ?_
              intro o r ho hr hparts
              have hshorter : (src.drop (o + 1)).length = r - 1 := by
                rw [List.length_drop]
                omega
              have hin := hparts.length_lt
              refine ⟨hcall (by omega) (by omega) (.keys hparts), ?_⟩
              intro l hl hnonneg hle
              apply hcall (by omega) (by omega)
              have hvals : Calls (src.drop off, more) _ :=
                .vals hparts hl hnonneg (by omega)
              rwa [List.drop_drop] at hvals

/-!
## Calls that lead out
-/

/-- A size has wrapped, or the scan goes on behind the end of the array. -/
def Escapes (x : Access Int) (rem : Nat) (more : Bool) : Prop :=
  x = .error .wrap ∨ (more = true ∧ exists n, x = .ok n ∧ (rem : Int) < n)

theorem listLoopAt_escapes (h : off + rem = src.length)
    (hp : AgreeAtBelow src rem pa ipcPayloadLen) {more : Bool} {cnt n pos : Nat} (hn : n < cnt)
    (hloop : listLoop ipcPayloadLen (src.drop off) n 6 = some (pos : Int)) (hle : pos <= rem)
    (helem : Escapes (pa (off + pos) (rem - pos)) (rem - pos) (more || decide (n + 1 < cnt))) :
    Escapes (listLoopAt pa off rem cnt 6) rem more := by
  obtain ⟨k, rfl⟩ : exists k, cnt = n + (k + 1) := ⟨cnt - n - 1, by omega⟩
  rw [listLoopAt_add h hp n (k + 1) (by omega) hloop, listLoopAt, minus_of_le hle,
    Access.ok_bind]
  rcases helem with hwrap | ⟨hflag, x, hx, hbeyond⟩
  · rw [hwrap]
    exact Or.inl rfl
  · rw [hx, Access.ok_bind, if_neg (by omega)]
    cases k with
    | zero =>
        have hmore : more = true := by simpa using hflag
        exact Or.inr ⟨hmore, _, rfl, by omega⟩
    | succ k =>
        rw [listLoopAt, minus_of_lt (by omega)]
        exact Or.inl rfl

theorem i32OfInt_of_range {x : Int} (hlow : 0 <= x) (hhigh : x < 2 ^ 31) : i32OfInt x = x := by
  obtain ⟨n, rfl⟩ := Int.eq_ofNat_of_zero_le hlow
  exact Payload.i32OfInt_of_lt (by omega)

theorem dictLenAt_escapes_keys (hpos : 0 < rem) (hsmall : rem + 16 < 2 ^ 31)
    (hagree : Agrees (pa (off + 1) (rem - 1)) (ipcPayloadLen (src.drop (off + 1))))
    (hlen : (src.drop (off + 1)).length = rem - 1) (more : Bool)
    (hkeys : Escapes (pa (off + 1) (rem - 1)) (rem - 1) true) :
    Escapes (dictLenAt pa off rem) rem more := by
  rw [dictLenAt, minus_of_le (by omega), Access.ok_bind]
  rcases hkeys with hwrap | ⟨_, l, hl, hbeyond⟩
  · rw [hwrap]
    exact Or.inl rfl
  · rw [hl] at hagree
    have hhigh := (ipcPayloadLen_inRange _ l hagree.eq_some).right
    rw [hl, Access.ok_bind]
    simp only
    rw [i32OfInt_of_range (by omega) (by omega), if_neg (by omega), minus_of_lt (by omega)]
    exact Or.inl rfl

theorem dictLenAt_escapes_vals (hpos : 0 < rem) (hsmall : rem + 16 < 2 ^ 31) {l : Int}
    (hagree : Agrees (pa (off + 1) (rem - 1)) (some l)) (hnonneg : 0 <= i32OfInt l)
    (hle : (i32OfInt l).toNat <= rem - 1)
    (hagree' : Agrees (pa (off + 1 + (i32OfInt l).toNat) (rem - 1 - (i32OfInt l).toNat))
      (ipcPayloadLen (src.drop (off + 1 + (i32OfInt l).toNat))))
    (hlen : (src.drop (off + 1 + (i32OfInt l).toNat)).length = rem - 1 - (i32OfInt l).toNat)
    {more : Bool}
    (hvals : Escapes (pa (off + 1 + (i32OfInt l).toNat) (rem - 1 - (i32OfInt l).toNat))
      (rem - 1 - (i32OfInt l).toNat) more) :
    Escapes (dictLenAt pa off rem) rem more := by
  rw [dictLenAt, minus_of_le (by omega), Access.ok_bind, hagree.eq_ok, Access.ok_bind]
  simp only
  rw [if_neg (by omega), minus_of_le hle, Access.ok_bind]
  rcases hvals with hwrap | ⟨hmore, t, ht, hbeyond⟩
  · rw [hwrap]
    exact Or.inl rfl
  · rw [ht] at hagree'
    have hhigh := (ipcPayloadLen_inRange _ t hagree'.eq_some).right
    rw [ht, Access.ok_bind, i32OfInt_of_range (by omega) (by omega), if_neg (by omega),
      if_neg (by omega)]
    exact Or.inr ⟨hmore, _, rfl, by omega⟩

theorem msgLenVaryAt_escapes {more : Bool} {part body : List UInt8}
    (hparts : DictParts part body)
    (hdict : forall o r, o + r = src.length -> 0 < r -> src.drop (o + 1) = body ->
      Escapes (dictLenAt pa o r) r more) :
    forall {off rem : Nat}, off + rem = src.length -> src.drop off = part ->
      Escapes (msgLenVaryAt pa src off rem) rem more := by
  have hleaf : forall {typ : UInt8} {off rem : Nat},
      typ = KdbType.dict.i8 ∨ typ = KdbType.stepDict.i8 -> off + rem = src.length ->
      src.drop off = typ :: body -> Escapes (msgLenVaryAt pa src off rem) rem more := by
    intro typ off rem htyp h hdrop
    have hlen := congrArg List.length hdrop
    rw [List.length_drop, List.length_cons] at hlen
    have hbody : src.drop (off + 1) = body := by
      rw [← List.drop_drop, hdrop]
      rfl
    have hne : typ ≠ KdbType.table.i8 := by
      rcases htyp with rfl | rfl
      · decide
      · decide
    have hescapes := hdict off rem h (by omega) hbody
    by_cases hone : rem = 1
    · subst hone
      rw [msgLenVaryAt, byteAt_of_lt (by omega), Access.ok_bind, hdrop, List.headD_cons,
        if_neg hne, if_pos htyp]
      exact hescapes
    · obtain ⟨n, rfl⟩ : exists n, rem = n + 2 := ⟨rem - 2, by omega⟩
      rw [msgLenVaryAt, byteAt_of_lt (by omega), Access.ok_bind, hdrop, List.headD_cons,
        if_neg hne, if_pos htyp]
      exact hescapes
  induction hparts with
  | dict =>
      intro off rem h hdrop
      exact hleaf (Or.inl rfl) h hdrop
  | stepDict =>
      intro off rem h hdrop
      exact hleaf (Or.inr rfl) h hdrop
  | table h ih =>
      rename_i att part body
      intro off rem h hdrop
      have hlen := congrArg List.length hdrop
      rw [List.length_drop, List.length_cons, List.length_cons] at hlen
      have hnested : src.drop (off + 2) = part := by
        rw [← List.drop_drop, hdrop]
        rfl
      obtain ⟨n, rfl⟩ : exists n, rem = n + 2 := ⟨rem - 2, by omega⟩
      rw [msgLenVaryAt, byteAt_of_lt (by omega), Access.ok_bind, hdrop, List.headD_cons,
        if_pos rfl]
      rcases ih hdict hleaf (show off + 2 + n = src.length by omega) hnested with
        hwrap | ⟨hmore, x, hx, hbeyond⟩
      · rw [hwrap]
        exact Or.inl rfl
      · rw [hx]
        exact Or.inr ⟨hmore, _, rfl, by omega⟩

theorem msgLenVaryAt_loneTable {part : List UInt8} (hlone : LoneTable part) :
    forall {off rem : Nat}, off + rem = src.length -> src.drop off = part ->
      msgLenVaryAt pa src off rem = .error .wrap := by
  induction hlone with
  | last =>
      intro off rem h hdrop
      have hlen := congrArg List.length hdrop
      rw [List.length_drop, List.length_cons, List.length_nil] at hlen
      obtain rfl : rem = 1 := by omega
      rw [msgLenVaryAt, byteAt_of_lt (by omega), Access.ok_bind, hdrop, List.headD_cons,
        if_pos rfl]
  | nested hlone ih =>
      rename_i att part
      intro off rem h hdrop
      have hlen := congrArg List.length hdrop
      rw [List.length_drop, List.length_cons, List.length_cons] at hlen
      have hnested : src.drop (off + 2) = part := by
        rw [← List.drop_drop, hdrop]
        rfl
      obtain ⟨n, rfl⟩ : exists n, rem = n + 2 := ⟨rem - 2, by omega⟩
      rw [msgLenVaryAt, byteAt_of_lt (by omega), Access.ok_bind, hdrop, List.headD_cons,
        if_pos rfl, ih (by omega) hnested]
      rfl

/-!
## The scan as a whole
-/

theorem payloadLenOfAt_list (h : off + rem = src.length) (hhdr : 6 <= rem)
    (hlist : (src.drop off).headD 0 = KdbType.list.i8) : payloadLenOfAt pa src off rem =
      listLoopAt pa off rem (hdrLen (src.drop off)).toNat 6 := by
  rw [payloadLenOfAt, if_neg (by omega), byteAt_of_lt (by omega), Access.ok_bind,
    if_pos hlist, msgLenListAt, if_neg (by omega), hdrLenAt_eq (by omega), Access.ok_bind]

theorem payloadLenOfAt_vary (h : off + rem = src.length) (hne : rem ≠ 0) {t : KdbType}
    (ht : t = .dict ∨ t = .stepDict ∨ t = .table) (hhead : (src.drop off).headD 0 = t.i8) :
    payloadLenOfAt pa src off rem = msgLenVaryAt pa src off rem := by
  rw [payloadLenOfAt, if_neg hne, byteAt_of_lt (by omega), Access.ok_bind, hhead]
  rcases ht with rfl | rfl | rfl
  · rw [if_neg (by decide), if_neg (by decide), if_neg (by decide)]
  · rw [if_neg (by decide), if_neg (by decide), if_neg (by decide)]
  · rw [if_neg (by decide), if_neg (by decide), if_neg (by decide)]

theorem DictParts.head {part body : List UInt8} (h : DictParts part body) :
    exists t : KdbType, (t = .dict ∨ t = .stepDict ∨ t = .table) ∧ part.headD 0 = t.i8 := by
  cases h with
  | dict => exact ⟨.dict, Or.inl rfl, rfl⟩
  | stepDict => exact ⟨.stepDict, Or.inr (Or.inl rfl), rfl⟩
  | table h => exact ⟨.table, Or.inr (Or.inr rfl), rfl⟩

theorem LoneTable.head {part : List UInt8} (h : LoneTable part) :
    part.headD 0 = KdbType.table.i8 ∧ part.length ≠ 0 := by
  cases h with
  | last => exact ⟨rfl, by simp⟩
  | nested h => exact ⟨rfl, by simp⟩

theorem escapes_of_leadsOut (h : off + rem = src.length) {more : Bool}
    (hout : LeadsOut (src.drop off, more)) (n : Nat) :
    Escapes (payloadLenFuelAt src (n + 1) off rem) rem more := by
  have hlen : (src.drop off).length = rem := by
    rw [List.length_drop]
    omega
  rw [payloadLenFuelAt]
  rcases hout with hlone | ⟨hmore, hne, hatom, len, hatomLen, hcut⟩
  · have hhead := LoneTable.head hlone
    rw [payloadLenOfAt_vary h (hlen ▸ hhead.right) (Or.inr (Or.inr rfl)) hhead.left,
      msgLenVaryAt_loneTable hlone h rfl]
    exact Or.inl rfl
  · have hrem : rem ≠ 0 := fun hzero => hne (List.drop_eq_nil_of_le (by omega))
    have hlist : (src.drop off).headD 0 ≠ KdbType.list.i8 := by
      intro hlist
      rw [hlist] at hatom
      exact absurd hatom (by decide)
    have hsym : (src.drop off).headD 0 ≠ KdbType.symbolAtom.i8 := by
      intro hsym
      have hnone : atomLen KdbType.symbolAtom.i8 = none := by decide
      rw [hsym, hnone] at hatomLen
      cases hatomLen
    rw [payloadLenOfAt, if_neg hrem, byteAt_of_lt (by omega), Access.ok_bind, if_neg hlist,
      if_pos hatom, if_neg hsym, msgLenAtomAt, if_neg hrem, byteAt_of_lt (by omega),
      Access.ok_bind, hatomLen]
    have hbeyond : rem < len := by
      rw [← hlen]
      exact hcut
    exact Or.inr ⟨hmore, len, rfl, by omega⟩

theorem escapes_of_calls (hsmall : src.length + 16 < 2 ^ 31) {n : Nat} {more : Bool}
    (h : off + rem = src.length) (hn : rem < n + 1) {call : List UInt8 × Bool}
    (hcall : Calls (src.drop off, more) call)
    (hescapes : forall {o r : Nat}, o + r = src.length -> src.drop o = call.1 -> r < n ->
      Escapes (payloadLenFuelAt src n o r) r call.2) :
    Escapes (payloadLenFuelAt src (n + 1) off rem) rem more := by
  have hlen : (src.drop off).length = rem := by
    rw [List.length_drop]
    omega
  have hp : forall {m : Nat}, m <= rem ->
      AgreeAtBelow src m (payloadLenFuelAt src n) ipcPayloadLen := by
    intro m hm o r ho hr
    exact payloadLenFuelAt_agrees n ho (by omega)
  have hlength : forall o : Nat, (src.drop o).length = src.length - o :=
    fun o => List.length_drop
  rw [payloadLenFuelAt]
  generalize hnode : (src.drop off, more) = node at hcall
  cases hcall with
  | element hlist hhdr hcnt hloop hle =>
      cases hnode
      have hpos := le_of_listLoop _ hloop
      rw [payloadLenOfAt_list h (by omega) hlist]
      rw [hlen] at hle
      exact listLoopAt_escapes h (hp (Nat.le_refl _)) hcnt hloop hle
        (hescapes (by omega) (by rw [List.drop_drop]) (by omega))
  | keys hparts =>
      cases hnode
      rcases hparts.head with ⟨t, ht, hhead⟩
      have hshorter := hparts.length_lt
      rw [payloadLenOfAt_vary h (by omega) ht hhead]
      refine msgLenVaryAt_escapes hparts ?_ h rfl
      intro o r ho hr hbody
      have hbodyLen := hlength (o + 1)
      rw [hbody] at hbodyLen
      exact dictLenAt_escapes_keys hr (by omega)
        (hp (Nat.le_refl _) (o + 1) (r - 1) (by omega) (by omega))
        (by rw [hlength]; omega) more (hescapes (by omega) hbody (by omega))
  | vals hparts hkeys hnonneg hle =>
      cases hnode
      rcases hparts.head with ⟨t, ht, hhead⟩
      have hshorter := hparts.length_lt
      rw [payloadLenOfAt_vary h (by omega) ht hhead]
      refine msgLenVaryAt_escapes hparts ?_ h rfl
      intro o r ho hr hbody
      have hbodyLen := hlength (o + 1)
      rw [hbody] at hbodyLen
      have hagree := hp (Nat.le_refl _) (o + 1) (r - 1) (by omega) (by omega)
      rw [hbody, hkeys] at hagree
      exact dictLenAt_escapes_vals hr (by omega) hagree hnonneg (by omega)
        (hp (Nat.le_refl _) _ _ (by omega) (by omega)) (by rw [hlength]; omega)
        (hescapes (by omega) (by rw [← List.drop_drop, hbody]) (by omega))

theorem escapes_of_reaches (hsmall : src.length + 16 < 2 ^ 31) {node call : List UInt8 × Bool}
    (hreach : ReflTransGen Calls node call) (hout : LeadsOut call) :
    forall {n off rem : Nat}, off + rem = src.length -> src.drop off = node.1 -> rem < n ->
      Escapes (payloadLenFuelAt src n off rem) rem node.2 := by
  induction hreach using ReflTransGen.head_induction_on with
  | refl =>
      intro n off rem h hdrop hn
      obtain ⟨m, rfl⟩ : exists m, n = m + 1 := ⟨n - 1, by omega⟩
      exact escapes_of_leadsOut h (hdrop ▸ hout) m
  | head hcall _ ih =>
      intro n off rem h hdrop hn
      obtain ⟨m, rfl⟩ : exists m, n = m + 1 := ⟨n - 1, by omega⟩
      exact escapes_of_calls hsmall h hn (hdrop ▸ hcall) ih

end Loops

theorem Orderly.staysInside {src : List UInt8} (h : Orderly src) : StaysInside src := by
  have hagree := payloadLenAt_agrees src
  constructor
  · intro hread
    rw [hread] at hagree
    cases hy : ipcPayloadLen src with
    | none =>
        rw [hy] at hagree
        cases hagree
    | some n =>
        rw [hy] at hagree
        cases hagree
  · have hkeeps : Keeps (payloadLenFuelAt src (src.length + 1) 0 src.length) src.length
        false :=
      payloadLenFuelAt_keeps _ (Nat.zero_add _) (Nat.lt_succ_self _) h
    exact hkeeps.left

theorem StaysInside.orderly {src : List UInt8} (hsmall : src.length + 16 < 2 ^ 31)
    (h : StaysInside src) : Orderly src := by
  intro call hreach hout
  have hescapes : Escapes (payloadLenFuelAt src (src.length + 1) 0 src.length) src.length
      false :=
    escapes_of_reaches hsmall hreach hout (Nat.zero_add _) rfl (Nat.lt_succ_self _)
  rcases hescapes with hwrap | ⟨hmore, _⟩
  · exact h.right hwrap
  · cases hmore

/--
A scan in which no call leads out of the array stays inside it.  Below `2^31` bytes
there is no other way to stay inside; a longer dict may stop at a length that its 32-bit
fields cannot hold, before it goes on.
-/
theorem ipcPayloadLen_staysInside (src : List UInt8) :
    (Orderly src -> StaysInside src) ∧
      (src.length + 16 < 2 ^ 31 -> (StaysInside src <-> Orderly src)) :=
  ⟨Orderly.staysInside, fun hsmall => ⟨StaysInside.orderly hsmall, Orderly.staysInside⟩⟩

/-- A list of two elements that ends behind the type byte of its first, a long atom. -/
theorem ipcPayloadLen_staysInside_list : ¬ StaysInside [0, 0, 2, 0, 0, 0, 0xf9] := by
  decide

end MgKdb
