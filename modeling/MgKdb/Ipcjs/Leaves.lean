import MgKdb.Ipcjs.Numbers
import MgKdb.Ipcjs.Sizes
import MgKdb.Ipcjs.Strings

/-!
# Characters, datetimes and primitives in JavaScript messages

The writer chooses what to do by the type code alone.  It stores the text of a character as
a Number, a datetime as a BigInt, and a binary primitive under the code of the unary ones.
-/

namespace MgKdb
namespace Ipcjs

open Foundation CursorM

/-!
## Trees
-/

/-- The values that the constructors of characters, datetimes and primitives admit. -/
def AtomClass.Leaf : (c : AtomClass) -> c.Val -> Prop
  | .char, val => val < 128
  | .dateTime, val => isNaN64 val = false
  | .unary, val => -1 <= val ∧ val <= 43
  | .binary, val => 0 <= val ∧ val <= 37
  | .ternary, val => 0 <= val ∧ val <= 7
  | .bool, _ | .byte, _ | .short, _ | .int, _ | .long, _ | .real, _ | .float, _ | .symbol, _
  | .timestamp, _ | .month, _ | .date, _ | .timespan, _ | .minute, _ | .second, _ | .time, _
  | .exception, _ => False

def AtomClass.Kept : (c : AtomClass) -> c.Val -> Prop
  | .char, val => val = 0
  | .unary, _ | .ternary, _ => True
  | .dateTime, _ | .binary, _ | .bool, _ | .byte, _ | .short, _ | .int, _ | .long, _ | .real, _
  | .float, _ | .symbol, _ | .timestamp, _ | .month, _ | .date, _ | .timespan, _ | .minute, _
  | .second, _ | .time, _ | .exception, _ => False

namespace KdbType

mutual

def MadeOf (P : (c : AtomClass) -> c.Val -> Prop) : KdbType -> Prop
  | .atom c val => P c val
  | .list ary _ => MadeOfAll P ary
  | .dict keys vals => MadeOf P keys ∧ MadeOf P vals
  | .vector _ _ _ | .table _ _ _ | .function _ | .projection _ _ => False

def MadeOfAll (P : (c : AtomClass) -> c.Val -> Prop) : List KdbType -> Prop
  | [] => True
  | x :: ary => MadeOf P x ∧ MadeOfAll P ary

end

/-- A tree of the same shape, with leaves of the same classes and values. -/
inductive SameTree : KdbType -> KdbType -> Prop
  | atom (c : AtomClass) (val : c.Val) : SameTree (.atom c val) (.atom c val)
  | list {ary ary' : List KdbType} (att att' : Int) (h : List.Forall₂ SameTree ary ary') :
      SameTree (.list ary att) (.list ary' att')
  | dict {keys keys' vals vals' : KdbType} (hkeys : SameTree keys keys')
      (hvals : SameTree vals vals') : SameTree (.dict keys vals) (.dict keys' vals')

def Stays (x : KdbType) : Prop :=
  x.MadeOf AtomClass.Kept ∧ x.CountsFit

end KdbType

open KdbType

/-!
## Leaves
-/

def arrived : (c : AtomClass) -> c.Val -> KdbType
  | .char, val => newCharAtom (charToNumber val)
  | .unary, val => .atom .unary val
  | .binary, val => .atom .unary val
  | .ternary, val => .atom .ternary val
  | c, val => .atom c val

theorem newUnary_ok {val : Int} (h : -1 <= val ∧ val <= 43) :
    newUnary (some val) = .ok (.atom .unary val) :=
  if_neg (by omega)

theorem newTernary_ok {val : Int} (h : 0 <= val ∧ val <= 7) :
    newTernary (some val) = .ok (.atom .ternary val) :=
  if_neg (by omega)

theorem charToNumber_bound (c : UInt16) : 0 <= charToNumber c ∧ charToNumber c <= 9 := by
  unfold charToNumber
  split
  · rename_i hdigit
    rcases hdigit with ⟨hlow, hhigh⟩
    have hlow := UInt16.le_iff_toNat_le.mp hlow
    have hhigh := UInt16.le_iff_toNat_le.mp hhigh
    change 48 <= c.toNat at hlow
    change c.toNat <= 57 at hhigh
    omega
  · decide

theorem ofInt_charToNumber (c : UInt16) :
    UInt16.ofInt (charToNumber c) = c <-> c = 0 := by
  constructor
  · intro hsame
    by_contra hne
    unfold charToNumber at hsame
    split at hsame
    · rename_i hdigit
      have hlow := UInt16.le_iff_toNat_le.mp hdigit.left
      change 48 <= c.toNat at hlow
      have hlt := c.toNat_lt
      have hnat := congrArg UInt16.toNat hsame
      rw [UInt16.ofInt, UInt16.toNat_ofNat'] at hnat
      omega
    · exact hne hsame.symm
  · rintro rfl
    rfl

theorem reads_i8_then {val : Int} (h : Fits 8 val) {k : Option Int -> Reader KdbType}
    {v : KdbType} (hk : k (some val) = pure v) :
    Reads (readI8 >>= k) (i8Bytes val) v :=
  (reads_readI8 h).bind_nil (hk ▸ Reads.pure v)

theorem lift_ok {out : Except JsError KdbType} {v : KdbType} (h : out = .ok v) :
    (liftM out : Reader KdbType) = pure v := by
  rw [h]
  rfl

theorem reads_leaf {c : AtomClass} {val : c.Val} {bs : List UInt8} (hleaf : c.Leaf val)
    (hbs : valBytes c val = some bs) (read : Reader KdbType) :
    Reads (readTyp read c.typ) bs (arrived c val) := by
  cases c with
  | char =>
      cases hbs
      have hbound := charToNumber_bound val
      exact reads_i8_then (by unfold Fits; omega) rfl
  | unary =>
      cases hbs
      refine reads_i8_then ⟨?_, ?_⟩ (lift_ok (newUnary_ok hleaf))
      · exact Int.le_trans (by decide) hleaf.left
      · exact Int.lt_of_le_of_lt hleaf.right (by decide)
  | binary =>
      cases hbs
      have hbound : -1 <= val ∧ val <= 43 :=
        ⟨Int.le_trans (by decide) hleaf.left, Int.le_trans hleaf.right (by decide)⟩
      refine reads_i8_then ⟨?_, ?_⟩ (lift_ok (newUnary_ok hbound))
      · exact Int.le_trans (by decide) hleaf.left
      · exact Int.lt_of_le_of_lt hleaf.right (by decide)
  | ternary =>
      cases hbs
      refine reads_i8_then ⟨?_, ?_⟩ (lift_ok (newTernary_ok hleaf))
      · exact Int.le_trans (by decide) hleaf.left
      · exact Int.lt_of_le_of_lt hleaf.right (by decide)
  | dateTime => cases hbs
  | _ => cases hleaf

theorem sameTree_arrived {c : AtomClass} {val : c.Val} (hleaf : c.Leaf val)
    (hbs : exists bs, valBytes c val = some bs) :
    SameTree (.atom c val) (arrived c val) <-> c.Kept val := by
  cases c with
  | char =>
      constructor
      · intro hsame
        have hval : UInt16.ofInt (chkIsInt8 (charToNumber val)) = val := by
          generalize hout : arrived .char val = out at hsame
          cases hsame
          injection hout
        rw [chkIsInt8_eq] at hval
        exact (ofInt_charToNumber val).mp hval
      · rintro rfl
        exact .atom .char 0
  | unary => exact iff_of_true (.atom .unary val) trivial
  | ternary => exact iff_of_true (.atom .ternary val) trivial
  | binary =>
      refine iff_of_false ?_ id
      generalize hout : arrived .binary val = out
      intro hsame
      cases hsame
      cases hout
  | dateTime =>
      rcases hbs with ⟨bs, hbs⟩
      cases hbs
  | _ => cases hleaf

theorem AtomClass.Kept.bytes {c : AtomClass} {val : c.Val} (h : c.Kept val) :
    exists bs, valBytes c val = some bs := by
  cases c with
  | char | unary | ternary => exact ⟨_, rfl⟩
  | _ => cases h

/-!
## What stays the same arrives
-/

namespace KdbType

theorem madeOfAll_iff {P : (c : AtomClass) -> c.Val -> Prop} {ary : List KdbType} :
    MadeOfAll P ary <-> forall x, x ∈ ary -> x.MadeOf P := by
  induction ary with
  | nil => exact iff_of_true trivial (List.forall_mem_nil _)
  | cons x ary ih =>
      rw [List.forall_mem_cons, <- ih]
      exact Iff.rfl

theorem arrives_each {ary : List KdbType}
    (h : forall x, x ∈ ary -> exists y, x.Arrives y ∧ SameTree x y) :
    exists ys, List.Forall₂ Arrives ary ys ∧ List.Forall₂ SameTree ary ys := by
  induction ary with
  | nil => exact ⟨[], .nil, .nil⟩
  | cons x ary ih =>
      rcases h x List.mem_cons_self with ⟨y, harrives, hsame⟩
      rcases ih (fun z hz => h z (List.mem_cons_of_mem x hz)) with ⟨ys, hall, hsames⟩
      exact ⟨y :: ys, .cons harrives hall, .cons hsame hsames⟩

theorem Stays.arrives (x : KdbType) :
    x.MadeOf AtomClass.Leaf -> x.Stays -> exists y, x.Arrives y ∧ SameTree x y := by
  induction x with
  | atom c val =>
      rintro hleaf ⟨hkept, _⟩
      rcases hkept.bytes with ⟨bs, hbs⟩
      refine ⟨arrived c val, ⟨i8Bytes c.typ ++ bs, ?_, ?_⟩,
        (sameTree_arrived hleaf ⟨bs, hbs⟩).mpr hkept⟩
      · rw [KdbType.bytes, hbs]
        rfl
      · exact reads_typ (fits_atom_typ c) fun depth _ => reads_leaf hleaf hbs (read depth)
  | list ary att ih =>
      rintro hleaf ⟨hkept, hlen, hfit⟩
      have heach : forall x, x ∈ ary -> exists y, x.Arrives y ∧ SameTree x y :=
        fun x hx => ih x hx (madeOfAll_iff.mp hleaf x hx)
          ⟨madeOfAll_iff.mp hkept x hx, countsFitAll_iff.mp hfit x hx⟩
      rcases arrives_each heach with ⟨ys, hall, hsame⟩
      exact ⟨_, arrives_list hall att hlen, .list att _ hsame⟩
  | dict keys vals ihk ihv =>
      rintro hleaf ⟨hkept, hfit⟩
      rcases ihk hleaf.left ⟨hkept.left, hfit.left⟩ with ⟨keys', hkeys, hsamek⟩
      rcases ihv hleaf.right ⟨hkept.right, hfit.right⟩ with ⟨vals', hvals, hsamev⟩
      exact ⟨_, arrives_dict hkeys hvals, .dict hsamek hsamev⟩
  | vector c ary att => exact fun hleaf => False.elim hleaf
  | table cols vals att _ _ => exact fun hleaf => False.elim hleaf
  | function txt => exact fun hleaf => False.elim hleaf
  | projection fn rgs _ _ => exact fun hleaf => False.elim hleaf

end KdbType

/-!
## What arrives the same stays
-/

theorem read_typ_ok {typ : Int} (htyp : Fits 8 typ) {bs front back : List UInt8} {depth : Nat}
    {out : KdbType × Cursor UInt8}
    (h : read depth ⟨front ++ (i8Bytes typ ++ bs ++ back), front.length⟩ = .ok out) :
    exists depth', readTyp (read depth') typ
      ⟨front ++ i8Bytes typ ++ (bs ++ back), (front ++ i8Bytes typ).length⟩ = .ok out := by
  cases depth with
  | zero => cases h
  | succ depth =>
      rw [List.append_assoc] at h
      exact ⟨depth, ((reads_readI8 htyp).run_bind front (bs ++ back)).symm.trans h⟩

/-- The reader has taken the object if what it answers is the same. -/
def TakenIfSame (x : KdbType) : Prop :=
  forall {bs front back : List UInt8} {depth : Nat} {y : KdbType} {c : Cursor UInt8},
    x.bytes = some bs ->
    read depth ⟨front ++ (bs ++ back), front.length⟩ = .ok (y, c) -> SameTree x y ->
      x.Stays ∧ c = ⟨front ++ (bs ++ back), (front ++ bs).length⟩

theorem takenIfSame_atom {c : AtomClass} {val : c.Val} (hleaf : c.Leaf val) :
    TakenIfSame (.atom c val) := by
  intro bs front back depth y cur hbs hread hsame
  rw [KdbType.bytes] at hbs
  rcases Option.map_eq_some_iff.mp hbs with ⟨vs, hvs, rfl⟩
  rcases read_typ_ok (fits_atom_typ c) hread with ⟨depth', hval⟩
  rw [reads_leaf hleaf hvs (read depth') (front ++ i8Bytes c.typ) back] at hval
  cases hval
  refine ⟨⟨(sameTree_arrived hleaf ⟨vs, hvs⟩).mp hsame, trivial⟩, ?_⟩
  simp only [List.append_assoc]

theorem taken_all {ary : List KdbType} (h : forall x, x ∈ ary -> TakenIfSame x) :
    forall {bs front back : List UInt8} {depth : Nat} {ys : List KdbType} {c : Cursor UInt8},
      bytesAll ary = some bs ->
      times (read depth) ary.length ⟨front ++ (bs ++ back), front.length⟩ = .ok (ys, c) ->
      List.Forall₂ SameTree ary ys ->
        (forall x, x ∈ ary -> x.Stays) ∧
          c = ⟨front ++ (bs ++ back), (front ++ bs).length⟩ := by
  induction ary with
  | nil =>
      intro bs front back depth ys c hbs hread _
      cases hbs
      cases hread
      rw [List.append_nil]
      exact ⟨List.forall_mem_nil _, rfl⟩
  | cons x ary ih =>
      intro bs front back depth ys c hbs hread hsame
      rcases bytesAll_cons hbs with ⟨xs, more, hxs, hmore, rfl⟩
      rcases ok_of_bind_ok hread with ⟨y, c₁, hx, hrest⟩
      rcases ok_of_bind_ok hrest with ⟨ys', c₂, hary, hpure⟩
      cases hpure
      rcases List.forall₂_cons.mp hsame with ⟨hhead, htail⟩
      rw [List.append_assoc] at hx
      rcases h x List.mem_cons_self hxs hx hhead with ⟨hstays, rfl⟩
      rw [<- List.append_assoc front xs] at hary
      rcases ih (fun z hz => h z (List.mem_cons_of_mem x hz)) hmore hary htail with
        ⟨hall, rfl⟩
      refine ⟨List.forall_mem_cons.mpr ⟨hstays, hall⟩, ?_⟩
      simp only [List.append_assoc]

theorem Stays.list {ary : List KdbType} {att : Int} (hlen : ary.length < 2 ^ 31)
    (h : forall x, x ∈ ary -> x.Stays) : (KdbType.list ary att).Stays :=
  ⟨madeOfAll_iff.mpr fun x hx => (h x hx).left, hlen,
    countsFitAll_iff.mpr fun x hx => (h x hx).right⟩

theorem readList_ok {read : Reader KdbType} {att : Int} {n : Nat} {front rest : List UInt8}
    {y : KdbType} {c : Cursor UInt8}
    (h : readList read ⟨front ++ (i8Bytes att ++ (i32Bytes n ++ rest)), front.length⟩ =
      .ok (y, c)) :
    exists ys att', y = .list ys att' ∧ (ys.length : Int) = countRead n ∧
      times read ys.length ⟨front ++ i8Bytes att ++ i32Bytes n ++ rest,
        (front ++ i8Bytes att ++ i32Bytes n).length⟩ = .ok (ys, c) := by
  have hatt := ((reads_readI8_any att).run_bind front _).symm.trans h
  have hcount := ((reads_readI32_any n).run_bind _ rest).symm.trans hatt
  change (readAry read (countRead n) >>= _) _ = _ at hcount
  rcases ok_of_bind_ok hcount with ⟨ys, c₁, hys, hpure⟩
  cases hpure
  by_cases hneg : countRead n < 0
  · rw [readAry, if_pos hneg] at hys
    cases hys
  · rw [readAry, if_neg hneg] at hys
    have hlen := length_of_times hys
    rw [<- hlen] at hys
    exact ⟨ys, _, rfl, by omega, hys⟩

theorem takenIfSame_list {ary : List KdbType} {att : Int}
    (h : forall x, x ∈ ary -> TakenIfSame x) : TakenIfSame (.list ary att) := by
  intro bs front back depth y c hbs hread hsame
  rw [KdbType.bytes] at hbs
  rcases Option.map_eq_some_iff.mp hbs with ⟨elms, helms, rfl⟩
  have hbytes : vecHdrBytes 0 (some att) ary.length ++ elms =
      i8Bytes 0 ++ (i8Bytes att ++ (i32Bytes ary.length ++ elms)) := by
    rw [vecHdrBytes, List.append_assoc, List.append_assoc]
    rfl
  rw [hbytes] at hread ⊢
  rcases read_typ_ok (by decide) hread with ⟨depth', hlist⟩
  rw [List.append_assoc (i8Bytes att), List.append_assoc (i32Bytes ary.length)] at hlist
  rcases readList_ok hlist with ⟨ys, att', rfl, hcount, hys⟩
  cases hsame with
  | list _ _ hall =>
      have hlen := hall.length_eq
      rw [<- hlen] at hcount hys
      rcases taken_all h helms hys hall with ⟨hstays, rfl⟩
      have hlt := countRead_lt ary.length
      refine ⟨Stays.list (by omega) hstays, ?_⟩
      simp only [List.append_assoc]

theorem takenIfSame_dict {keys vals : KdbType} (hkeys : TakenIfSame keys)
    (hvals : TakenIfSame vals) : TakenIfSame (.dict keys vals) := by
  intro bs front back depth y c hbs hread hsame
  rcases bytes_dict hbs with ⟨xs, ys, hxs, hys, rfl⟩
  rcases read_typ_ok (by decide) hread with ⟨depth', hdict⟩
  rcases ok_of_bind_ok hdict with ⟨keys', c₁, hk, hrest⟩
  rcases ok_of_bind_ok hrest with ⟨vals', c₂, hv, hpure⟩
  cases hpure
  cases hsame with
  | dict hsamek hsamev =>
      rw [List.append_assoc xs] at hk
      rcases hkeys hxs hk hsamek with ⟨hstaysk, rfl⟩
      rw [<- List.append_assoc _ xs] at hv
      rcases hvals hys hv hsamev with ⟨hstaysv, rfl⟩
      refine ⟨⟨⟨hstaysk.left, hstaysv.left⟩, hstaysk.right, hstaysv.right⟩, ?_⟩
      simp only [List.append_assoc]

theorem takenIfSame (x : KdbType) : x.MadeOf AtomClass.Leaf -> TakenIfSame x := by
  induction x with
  | atom c val => exact takenIfSame_atom
  | list ary att ih =>
      exact fun hleaf => takenIfSame_list fun x hx => ih x hx (madeOfAll_iff.mp hleaf x hx)
  | dict keys vals ihk ihv =>
      exact fun hleaf => takenIfSame_dict (ihk hleaf.left) (ihv hleaf.right)
  | vector c ary att => exact fun hleaf => False.elim hleaf
  | table cols vals att _ _ => exact fun hleaf => False.elim hleaf
  | function txt => exact fun hleaf => False.elim hleaf
  | projection fn rgs _ _ => exact fun hleaf => False.elim hleaf

theorem read_of_sendBack {msgTyp : Int} {x y : KdbType} (h : sendBack msgTyp x = .ok y) :
    exists (bs front : List UInt8) (depth : Nat) (c : Cursor UInt8),
      x.bytes = some bs ∧
        read depth ⟨front ++ (bs ++ []), front.length⟩ = .ok (y, c) := by
  rcases ok_of_bind h with ⟨buf, hbuf, _⟩
  rcases bytes_of_serialize hbuf with ⟨bs, hbs⟩
  rw [sendBack_eq_read msgTyp hbs] at h
  refine ⟨bs, msgHdrBytes msgTyp bs.length, 8 + bs.length, ?_⟩
  cases hread : read (8 + bs.length) ⟨msgHdrBytes msgTyp bs.length ++ bs,
      (msgHdrBytes msgTyp bs.length).length⟩ with
  | error e =>
      rw [hread] at h
      cases h
  | ok out =>
      rw [hread] at h
      cases h
      refine ⟨out.2, hbs, ?_⟩
      rw [List.append_nil]
      exact hread

/--
A tree of characters, datetimes and primitives is received as the same tree exactly when all
its leaves are unary and ternary primitives and characters with the code 0, and no list has
more elements than a signed count of 32 bits can say.
-/
theorem sameTree_iff (msgTyp : Int) (x : KdbType) (h : x.MadeOf AtomClass.Leaf) :
    (exists y, sendBack msgTyp x = .ok y ∧ SameTree x y) <-> x.Stays := by
  constructor
  · rintro ⟨y, hback, hsame⟩
    rcases read_of_sendBack hback with ⟨bs, front, depth, c, hbs, hread⟩
    exact (takenIfSame x h hbs hread hsame).left
  · intro hstays
    rcases hstays.arrives x h with ⟨y, ⟨bs, hbs, hreads⟩, hsame⟩
    refine ⟨y, ?_, hsame⟩
    have hread := hreads (8 + bs.length) (Nat.le_add_left _ _) (msgHdrBytes msgTyp bs.length) []
    rw [List.append_nil] at hread
    rw [sendBack_eq_read msgTyp hbs, hread]
    rfl

/-- A dict of primitives, and of a list with the character of the code 0. -/
theorem sameTree_iff_dict :
    (exists y, sendBack 0 (.dict (.atom .unary (-1)) (.list [.atom .char 0, .atom .ternary 7] 0)) =
        .ok y ∧
      SameTree (.dict (.atom .unary (-1)) (.list [.atom .char 0, .atom .ternary 7] 0)) y) <->
    Stays (.dict (.atom .unary (-1)) (.list [.atom .char 0, .atom .ternary 7] 0)) :=
  sameTree_iff 0 (.dict (.atom .unary (-1)) (.list [.atom .char 0, .atom .ternary 7] 0))
    ⟨⟨by decide, by decide⟩, show (0 : UInt16) < 128 by decide, ⟨by decide, by decide⟩, trivial⟩

/-- The letter A is received as the character with the code 0, the sum as a unary primitive,
and the datetime of one day after the epoch is not sent. -/
theorem sameTree_letter :
    sendBack 0 (newCharAtom 65) = .ok (.atom .char 0) ∧
      sendBack 0 (.list [.atom .binary 1] 0) = .ok (.list [.atom .unary 1] 0) ∧
      serialize 0 (newDateTimeAtom 0x3ff0000000000000) = .error (.typeError none) ∧
      ¬ SameTree (newCharAtom 65) (.atom .char 0) ∧
      ¬ SameTree (.list [.atom .binary 1] 0) (.list [.atom .unary 1] 0) := by
  refine ⟨rfl, rfl, rfl, ?_, ?_⟩
  · intro hsame
    have hletter : newCharAtom 65 = .atom .char 65 := rfl
    rw [hletter] at hsame
    cases hsame
  · intro hsame
    cases hsame with
    | list _ _ hall => cases (List.forall₂_cons.mp hall).left

end Ipcjs
end MgKdb
