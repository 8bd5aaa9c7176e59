import Mathlib.Data.List.Forall2
import MgKdb.Foundation.NulText
import MgKdb.Ipcjs.Reader
import MgKdb.Ipcjs.Writer

/-!
# The round trip of the JavaScript codec

What the serialiser writes for a plain object is read back as that object, with zero for
every attribute that was missing, as long as each count fits its field.
-/

namespace MgKdb
namespace Ipcjs

open Foundation CursorM

/-!
## Plain objects

Objects without floating-point numbers, functions and the like, in which every number is in
the range of its type and text is ASCII.
-/

/-- The range of a signed integer of `w` bits. -/
def Fits (w : Nat) (n : Int) : Prop :=
  -2 ^ (w - 1) <= n ∧ n < 2 ^ (w - 1)

instance (w : Nat) (n : Int) : Decidable (Fits w n) :=
  inferInstanceAs (Decidable (_ ∧ _))

/-- The number of an atom; zero is the value that the constructors discard. -/
def FitsNonzero (w : Nat) (val : Option Int) : Prop :=
  exists n, val = some n ∧ n ≠ 0 ∧ Fits w n

def AtomClass.Plain : (c : AtomClass) -> c.Val -> Prop
  | .bool, _ => True
  | .byte, val => 0 <= val ∧ val < 256
  | .short, val => FitsNonzero 16 val
  | .int, val | .month, val | .date, val | .minute, val | .second, val | .time, val =>
      FitsNonzero 32 val
  | .long, val | .timestamp, val | .timespan, val => FitsNonzero 64 val
  | .symbol, val => IsAscii val
  | .real, _ | .float, _ | .char, _ | .dateTime, _ | .unary, _ | .binary, _ | .ternary, _
  | .exception, _ => False

def VectorClass.Plain : (c : VectorClass) -> List c.Elm -> Prop
  | .bool, ary => forall n, n ∈ ary -> n = 0 ∨ n = 1
  | .byte, ary => forall n, n ∈ ary -> 0 <= n ∧ n < 256
  | .char, ary => forall n, n ∈ ary -> Fits 8 n
  | .short, ary => forall n, n ∈ ary -> Fits 16 n
  | .int, ary | .month, ary | .date, ary | .minute, ary | .second, ary | .time, ary =>
      forall n, n ∈ ary -> Fits 32 n
  | .long, ary | .timestamp, ary | .timespan, ary => forall n, n ∈ ary -> Fits 64 n
  | .symbol, ary => forall s, s ∈ ary -> IsAscii s
  | .real, _ | .float, _ | .dateTime, _ => False

namespace KdbType

mutual

def Plain : KdbType -> Prop
  | .atom c val => c.Plain val
  | .vector c ary att => c.Plain ary ∧ Fits 8 (att.getD 0)
  | .list ary att => PlainAll ary ∧ Fits 8 att
  | .table cols vals att => Plain cols ∧ Plain vals ∧ Fits 8 (att.getD 0)
  | .dict keys vals => Plain keys ∧ Plain vals
  | .function _ | .projection _ _ => False

def PlainAll : List KdbType -> Prop
  | [] => True
  | x :: ary => Plain x ∧ PlainAll ary

end

mutual

def CountsFit : KdbType -> Prop
  | .atom _ _ => True
  | .vector _ ary _ => ary.length < 2 ^ 31
  | .list ary _ => ary.length < 2 ^ 31 ∧ CountsFitAll ary
  | .table cols vals _ => CountsFit cols ∧ CountsFit vals
  | .dict keys vals => CountsFit keys ∧ CountsFit vals
  | .function _ => True
  | .projection fn rgs => CountsFit fn ∧ CountsFitAll rgs

def CountsFitAll : List KdbType -> Prop
  | [] => True
  | x :: ary => CountsFit x ∧ CountsFitAll ary

end

theorem plainAll_iff {ary : List KdbType} :
    PlainAll ary <-> forall x, x ∈ ary -> x.Plain := by
  induction ary with
  | nil => simp [PlainAll]
  | cons x ary ih => simp [PlainAll, ih]

theorem countsFitAll_iff {ary : List KdbType} :
    CountsFitAll ary <-> forall x, x ∈ ary -> x.CountsFit := by
  induction ary with
  | nil => simp [CountsFitAll]
  | cons x ary ih => simp [CountsFitAll, ih]

end KdbType

/-!
## Reading numbers and text
-/

theorem toInt_ofInt {w : Nat} (hw : 0 < w) {n : Int} (h : Fits w n) :
    (BitVec.ofInt w n).toInt = n :=
  BitVec.toInt_ofInt_eq_self hw h.left h.right

theorem toInt8_ofInt {n : Int} (h : Fits 8 n) : (UInt8.ofInt n).toInt8.toInt = n := by
  have hbits : (UInt8.ofInt n).toBitVec = BitVec.ofInt 8 n := by
    apply BitVec.eq_of_toNat_eq
    rw [BitVec.toNat_ofInt]
    show (UInt8.ofInt n).toNat = _
    rw [UInt8.ofInt, UInt8.toNat_ofNat']
    omega
  show (UInt8.ofInt n).toBitVec.toInt = n
  rw [hbits, toInt_ofInt (by decide) h]

theorem toNat_ofInt {n : Int} (h : 0 <= n ∧ n < 256) : ((UInt8.ofInt n).toNat : Int) = n := by
  rw [UInt8.ofInt, UInt8.toNat_ofNat']
  omega

theorem reads_readI8_any (n : Int) :
    Reads readI8 (i8Bytes n) (some (UInt8.ofInt n).toInt8.toInt) :=
  (Reads.next (ε := JsError) (UInt8.ofInt n)).bind_pure (Option.map fun b => b.toInt8.toInt)

theorem reads_readI8 {n : Int} (h : Fits 8 n) : Reads readI8 (i8Bytes n) (some n) := by
  have hread := reads_readI8_any n
  rwa [toInt8_ofInt h] at hread

theorem reads_readU8 {n : Int} (h : 0 <= n ∧ n < 256) :
    Reads readU8 (i8Bytes n) (some n) := by
  have hread := (Reads.next (ε := JsError) (UInt8.ofInt n)).bind_pure
    (Option.map fun b => (b.toNat : Int))
  rw [Option.map_some, toNat_ofInt h] at hread
  exact hread

theorem reads_copyN (bs : List UInt8) : Reads (copyN bs.length) bs bs := by
  have htimes : Reads (times (next : Reader (Option UInt8)) bs.length)
      (bs.flatMap fun b => [b]) (bs.map some) := Reads.times fun b _ => Reads.next b
  have hread := htimes.bind_pure (List.map fun b => b.getD 0)
  have hsame : (bs.map some).map (fun b => b.getD 0) = bs := by
    rw [List.map_map]
    exact List.map_id bs
  rw [List.flatMap_singleton', hsame] at hread
  exact hread

theorem reads_word {w : Nat} (word : BitVec (8 * w)) {β : Type} (f : BitVec (8 * w) -> β) :
    Reads (copyN w >>= fun buf => pure (f (wordAt w buf))) (wordBytes w word) (f word) := by
  have hcopy := reads_copyN (wordBytes w word)
  rw [wordBytes_length] at hcopy
  have hword := wordAt_wordBytes_append w word []
  rw [List.append_nil] at hword
  have hread := hcopy.bind_pure fun buf => f (wordAt w buf)
  rw [hword] at hread
  exact hread

theorem reads_readI16 {n : Int} (h : Fits 16 n) : Reads readI16 (i16Bytes n) n := by
  have hread := reads_word (w := 2) (BitVec.ofInt 16 n) BitVec.toInt
  rw [toInt_ofInt (by decide) h, ← i16Bytes_eq] at hread
  exact hread

theorem reads_readI32_any (n : Int) :
    Reads readI32 (i32Bytes n) (BitVec.ofInt 32 n).toInt := by
  have hread := reads_word (w := 4) (BitVec.ofInt 32 n) BitVec.toInt
  rw [← i32Bytes_eq] at hread
  exact hread

theorem reads_readI32 {n : Int} (h : Fits 32 n) : Reads readI32 (i32Bytes n) n := by
  have hread := reads_readI32_any n
  rwa [toInt_ofInt (by decide) h] at hread

theorem reads_readI64 {n : Int} (h : Fits 64 n) : Reads readI64 (i64Bytes n) n := by
  have hread := reads_word (w := 8) (BitVec.ofInt 64 n) BitVec.toInt
  rw [toInt_ofInt (by decide) h, ← i64Bytes_eq] at hread
  exact hread

theorem passNul_of_nulFree {front bs back : List UInt8} (h : NulFree bs) :
    passNul ⟨front ++ (bs ++ 0 :: back), front.length⟩ =
      .ok ((), ⟨front ++ (bs ++ 0 :: back), front.length + bs.length + 1⟩) := by
  have hnone : bs.findIdx? (· == 0) = none := by
    rw [List.findIdx?_eq_none_iff]
    intro b hb
    have hne : b ≠ 0 := fun hzero => h (hzero ▸ hb)
    simpa using hne
  have hfind : (bs ++ 0 :: back).findIdx? (· == 0) = some bs.length := by
    rw [List.findIdx?_append, hnone, List.findIdx?_cons]
    simp
  rw [passNul, Int.toNat_natCast, List.drop_left, hfind]

theorem reads_readSym_text {s : List UInt16} (h : 0 ∉ s) :
    Reads readSym (symBytes s) (u16u8 (signed (u8u16 s))) := by
  intro front back
  have hbytes : symBytes s ++ back = u8u16 s ++ 0 :: back := by
    rw [symBytes, List.append_assoc, List.singleton_append]
  have hlen : ((front ++ symBytes s).length : Int) =
      front.length + (u8u16 s).length + 1 := by
    rw [List.length_append, symBytes_length]
    omega
  have hslice := slice_eq (ε := JsError) front (u8u16 s) (0 :: back)
    (front.length + (u8u16 s).length + 1)
  rw [hbytes, hlen]
  refine (bind_ok rfl).trans ((bind_ok (passNul_of_nulFree (nul_notMem_u8u16 h))).trans
    ((bind_ok rfl).trans ?_))
  rw [Int.add_sub_cancel, bind_ok hslice]
  rfl

theorem reads_readSym {s : List UInt16} (h : IsAscii s) : Reads readSym (symBytes s) s := by
  have hread := reads_readSym_text h.nul_notMem
  rwa [signed, (u16u8_u8u16 h.nul_notMem).mpr h] at hread

theorem reads_ary {β γ : Type} {m : Reader β} {items : List γ} {enc : γ -> List UInt8}
    {val : γ -> β} (hlen : items.length < 2 ^ 31)
    (h : forall i, i ∈ items -> Reads m (enc i) (val i)) :
    Reads (readI32 >>= readAry m) (i32Bytes items.length ++ items.flatMap enc)
      (items.map val) := by
  have hcount : Fits 32 items.length := by
    unfold Fits
    omega
  refine (reads_readI32 hcount).bind ?_
  rw [readAry, if_neg (by omega), Int.toNat_natCast]
  exact Reads.times h

/-!
## Atoms
-/

theorem reads_number (nul : Option Int) {w : Nat} {m : Reader Int} {enc : Int -> List UInt8}
    (hm : forall n, Fits w n -> Reads m (enc n) n) {val : Option Int}
    (h : FitsNonzero w val) (f : Option Int -> KdbType) :
    Reads ((fun n => f (orNull nul n)) <$> m) (enc (val.getD 0)) (f val) := by
  rcases h with ⟨n, rfl, hne, hfits⟩
  have hread := (hm n hfits).map fun n => f (orNull nul n)
  rw [orNull_of_ne hne] at hread
  exact hread

theorem FitsNonzero.map_eq {w : Nat} {val : Option Int} (h : FitsNonzero w val)
    (enc : Int -> List UInt8) : val.map enc = some (enc (val.getD 0)) := by
  rcases h with ⟨n, rfl, _⟩
  rfl

theorem reads_readBoolAtom (val : Bool) :
    Reads readBoolAtom (i8Bytes (if val then 1 else 0)) (.atom .bool val) := by
  cases val with
  | false =>
      exact (reads_readI8 (n := 0) (by decide)).bind_pure fun val => newBoolAtom (val ≠ some 0)
  | true =>
      exact (reads_readI8 (n := 1) (by decide)).bind_pure fun val => newBoolAtom (val ≠ some 0)

theorem reads_readByteAtom {val : Int} (h : 0 <= val ∧ val < 256) :
    Reads readByteAtom (i8Bytes val) (.atom .byte val) := by
  have hread := (reads_readU8 h).bind_pure fun val => newByteAtom (val.getD 0)
  rw [Option.getD_some, newByteAtom, chkIsInt8_eq] at hread
  exact hread

theorem reads_val {c : AtomClass} {val : c.Val} (h : c.Plain val) :
    exists bs, valBytes c val = some bs ∧
      forall read, Reads (readTyp read c.typ) bs (.atom c val) := by
  have h16 := fun (f : Option Int -> KdbType) (val : Option Int) (h : FitsNonzero 16 val) =>
    reads_number none (fun _ => reads_readI16) h f
  have h32 := fun (f : Option Int -> KdbType) (val : Option Int) (h : FitsNonzero 32 val) =>
    reads_number none (fun _ => reads_readI32) h f
  have h64 := fun (f : Option Int -> KdbType) (val : Option Int) (h : FitsNonzero 64 val) =>
    reads_number none (fun _ => reads_readI64) h f
  cases c
  case real | float | char | dateTime | unary | binary | ternary | exception => cases h
  case bool => exact ⟨_, rfl, fun _ => reads_readBoolAtom val⟩
  case byte => exact ⟨_, rfl, fun _ => reads_readByteAtom h⟩
  case symbol => exact ⟨_, rfl, fun _ => (reads_readSym h).map newSymbolAtom⟩
  case short => exact ⟨_, rfl, fun _ => h16 (.atom .short) val h⟩
  case int => exact ⟨_, rfl, fun _ => h32 (.atom .int) val h⟩
  case month => exact ⟨_, rfl, fun _ => h32 (.atom .month) val h⟩
  case date => exact ⟨_, rfl, fun _ => h32 (.atom .date) val h⟩
  case minute => exact ⟨_, rfl, fun _ => h32 (.atom .minute) val h⟩
  case second => exact ⟨_, rfl, fun _ => h32 (.atom .second) val h⟩
  case time => exact ⟨_, rfl, fun _ => h32 (.atom .time) val h⟩
  case long => exact ⟨_, h.map_eq i64Bytes, fun _ => h64 (.atom .long) val h⟩
  case timestamp => exact ⟨_, h.map_eq i64Bytes, fun _ => h64 (.atom .timestamp) val h⟩
  case timespan => exact ⟨_, h.map_eq i64Bytes, fun _ => h64 (.atom .timespan) val h⟩

/-!
## Vectors
-/

theorem reads_readVector {c : VectorClass} {m : Reader (List c.Elm)} {bs : List UInt8}
    {ary : List c.Elm} {att : Int} (hatt : Fits 8 att) (hm : Reads m bs ary) :
    Reads (readVector c m) (i8Bytes att ++ bs) (.vector c ary (some att)) :=
  (reads_readI8 hatt).bind (hm.bind_pure fun ary => KdbType.vector c ary (some att))

theorem reads_readSlice {c : VectorClass} (view : List UInt8 -> List c.Elm) (bs : List UInt8)
    {att : Int} (hatt : Fits 8 att) (hlen : bs.length < 2 ^ 31) :
    Reads (readSlice c view) (i8Bytes att ++ (i32Bytes bs.length ++ bs))
      (.vector c (view bs) (some att)) := by
  have hcount : Fits 32 bs.length := by
    unfold Fits
    omega
  exact (reads_readI8 hatt).bind ((reads_readI32 hcount).bind
    ((Reads.span bs).bind_pure fun bs => KdbType.vector c (view bs) (some att)))

theorem reads_elms {c : VectorClass} {m : Reader c.Elm} {ary : List c.Elm} {att : Int}
    (hatt : Fits 8 att) (hlen : ary.length < 2 ^ 31)
    (h : forall val, val ∈ ary -> Reads m (elmBytes c val) val) :
    Reads (readVector c (readI32 >>= readAry m))
      (i8Bytes att ++ (i32Bytes ary.length ++ ary.flatMap (elmBytes c)))
      (.vector c ary (some att)) := by
  have hary : Reads (readI32 >>= readAry m)
      (i32Bytes ary.length ++ ary.flatMap (elmBytes c)) (ary.map id) := reads_ary hlen h
  rw [List.map_id] at hary
  exact reads_readVector hatt hary

theorem reads_bytes {c : VectorClass} {view : List UInt8 -> List c.Elm} {ary : List Int}
    {ary' : List c.Elm} {att : Int} (hatt : Fits 8 att) (hlen : ary.length < 2 ^ 31)
    (hview : view (ary.flatMap i8Bytes) = ary') :
    Reads (readSlice c view) (i8Bytes att ++ (i32Bytes ary.length ++ ary.flatMap i8Bytes))
      (.vector c ary' (some att)) := by
  have hsize : (ary.flatMap i8Bytes).length = ary.length := by
    rw [flatMap_length_of_forall i8Bytes_length, Nat.one_mul]
  have hread := reads_readSlice view (ary.flatMap i8Bytes) hatt (by omega)
  rw [hsize, hview] at hread
  exact hread

theorem map_i8Bytes {ary : List Int} {view : UInt8 -> Int}
    (h : forall n, n ∈ ary -> view (UInt8.ofInt n) = n) :
    (ary.flatMap i8Bytes).map view = ary := by
  induction ary with
  | nil => rfl
  | cons n ary ih =>
      rw [List.flatMap_cons, i8Bytes, List.singleton_append, List.map_cons, h n (by simp),
        ih fun m hm => h m (List.mem_cons_of_mem n hm)]

theorem reads_vector {c : VectorClass} {ary : List c.Elm} {att : Int} (h : c.Plain ary)
    (hatt : Fits 8 att) (hlen : ary.length < 2 ^ 31) (read : Reader KdbType) :
    Reads (readTyp read c.typ)
      (i8Bytes att ++ (i32Bytes ary.length ++ ary.flatMap (elmBytes c)))
      (.vector c ary (some att)) := by
  have hsigned : forall ary : List Int, (forall n, n ∈ ary -> Fits 8 n) ->
      signed (ary.flatMap i8Bytes) = ary :=
    fun _ hfits => map_i8Bytes fun n hn => toInt8_ofInt (hfits n hn)
  cases c
  case real | float | dateTime => cases h
  case bool =>
      have hbit : forall n, n ∈ ary -> Fits 8 n := by
        intro n hn
        rcases h n hn with rfl | rfl <;> decide
      exact reads_bytes hatt hlen (hsigned ary hbit)
  case char => exact reads_bytes hatt hlen (hsigned ary h)
  case byte => exact reads_bytes hatt hlen (map_i8Bytes fun n hn => toNat_ofInt (h n hn))
  case short => exact reads_elms (c := .short) hatt hlen fun n hn => reads_readI16 (h n hn)
  case int => exact reads_elms (c := .int) hatt hlen fun n hn => reads_readI32 (h n hn)
  case month => exact reads_elms (c := .month) hatt hlen fun n hn => reads_readI32 (h n hn)
  case date => exact reads_elms (c := .date) hatt hlen fun n hn => reads_readI32 (h n hn)
  case minute => exact reads_elms (c := .minute) hatt hlen fun n hn => reads_readI32 (h n hn)
  case second => exact reads_elms (c := .second) hatt hlen fun n hn => reads_readI32 (h n hn)
  case time => exact reads_elms (c := .time) hatt hlen fun n hn => reads_readI32 (h n hn)
  case long => exact reads_elms (c := .long) hatt hlen fun n hn => reads_readI64 (h n hn)
  case timestamp =>
      exact reads_elms (c := .timestamp) hatt hlen fun n hn => reads_readI64 (h n hn)
  case timespan =>
      exact reads_elms (c := .timespan) hatt hlen fun n hn => reads_readI64 (h n hn)
  case symbol => exact reads_elms (c := .symbol) hatt hlen fun s hs => reads_readSym (h s hs)

/-!
## Trees
-/

/-- The object can be written, and is read back on a call stack as deep as its bytes. -/
def KdbType.ReadsBack (x : KdbType) : Prop :=
  exists bs, x.bytes = some bs ∧
    forall depth, bs.length <= depth -> Reads (read depth) bs x.withAtt

theorem fits_atom_typ (c : AtomClass) : Fits 8 c.typ := by
  cases c <;> decide

theorem fits_vector_typ (c : VectorClass) : Fits 8 c.typ := by
  cases c <;> decide

theorem reads_typ {typ : Int} {bs : List UInt8} {v : KdbType} (htyp : Fits 8 typ)
    (h : forall depth, bs.length <= depth -> Reads (readTyp (read depth) typ) bs v) :
    forall depth, (i8Bytes typ ++ bs).length <= depth ->
      Reads (read depth) (i8Bytes typ ++ bs) v := by
  intro depth hdepth
  rw [List.length_append, i8Bytes_length] at hdepth
  cases depth with
  | zero => omega
  | succ depth => exact (reads_readI8 htyp).bind (h depth (by omega))

/-- The object can be written, and another one is what is read of it. -/
def KdbType.Arrives (x y : KdbType) : Prop :=
  exists bs, x.bytes = some bs ∧
    forall depth, bs.length <= depth -> Reads (read depth) bs y

theorem arrives_all {ary ys : List KdbType} (h : List.Forall₂ KdbType.Arrives ary ys) :
    exists bs, KdbType.bytesAll ary = some bs ∧ forall depth, bs.length <= depth ->
      Reads (times (read depth) ary.length) bs ys := by
  induction h with
  | nil => exact ⟨[], rfl, fun _ _ => Reads.pure []⟩
  | @cons x y ary ys hx _ ih =>
      rcases hx with ⟨xs, hxs, hx⟩
      rcases ih with ⟨bs, hbs, hary⟩
      refine ⟨xs ++ bs, ?_, ?_⟩
      · rw [KdbType.bytesAll, hxs, hbs]
        rfl
      · intro depth hdepth
        rw [List.length_append] at hdepth
        exact (hx depth (by omega)).bind ((hary depth (by omega)).bind_pure (y :: ·))

theorem arrives_list {ary ys : List KdbType} (h : List.Forall₂ KdbType.Arrives ary ys)
    (att : Int) (hlen : ary.length < 2 ^ 31) :
    (KdbType.list ary att).Arrives (.list ys (UInt8.ofInt att).toInt8.toInt) := by
  rcases arrives_all h with ⟨bs, hbs, hall⟩
  have hcount : Fits 32 ary.length := by
    unfold Fits
    omega
  have hread : forall depth, (i8Bytes att ++ (i32Bytes ary.length ++ bs)).length <= depth ->
      Reads (readTyp (read depth) 0) (i8Bytes att ++ (i32Bytes ary.length ++ bs))
        (.list ys (UInt8.ofInt att).toInt8.toInt) := by
    intro depth hdepth
    simp only [List.length_append, i8Bytes_length, i32Bytes_length] at hdepth
    have hary : Reads (readAry (read depth) ary.length) bs ys := by
      rw [readAry, if_neg (by omega), Int.toNat_natCast]
      exact hall depth (by omega)
    exact (reads_readI8_any att).bind ((reads_readI32 hcount).bind
      (hary.bind_pure fun ary => KdbType.newList ary (some (UInt8.ofInt att).toInt8.toInt)))
  refine ⟨_, ?_, reads_typ (by decide) hread⟩
  rw [KdbType.bytes, hbs, vecHdrBytes]
  simp

theorem arrives_dict {keys keys' vals vals' : KdbType} (hkeys : keys.Arrives keys')
    (hvals : vals.Arrives vals') : (KdbType.dict keys vals).Arrives (.dict keys' vals') := by
  rcases hkeys with ⟨xs, hxs, hkeys⟩
  rcases hvals with ⟨ys, hys, hvals⟩
  have hread : forall depth, (xs ++ ys).length <= depth ->
      Reads (readTyp (read depth) 99) (xs ++ ys) (.dict keys' vals') := by
    intro depth hdepth
    rw [List.length_append] at hdepth
    exact (hkeys depth (by omega)).bind ((hvals depth (by omega)).bind_pure
      fun vals => KdbType.dict keys' vals)
  refine ⟨_, ?_, reads_typ (by decide) hread⟩
  rw [KdbType.bytes, hxs, hys]
  rfl

theorem arrives_withAttAll {ary : List KdbType} (h : forall x, x ∈ ary -> x.ReadsBack) :
    List.Forall₂ KdbType.Arrives ary (KdbType.withAttAll ary) := by
  induction ary with
  | nil => exact .nil
  | cons x ary ih =>
      exact .cons (h x List.mem_cons_self) (ih fun y hy => h y (List.mem_cons_of_mem x hy))

theorem readsBack_atom {c : AtomClass} {val : c.Val} (h : c.Plain val) :
    (KdbType.atom c val).ReadsBack := by
  rcases reads_val h with ⟨bs, hbs, hread⟩
  refine ⟨i8Bytes c.typ ++ bs, ?_, reads_typ (fits_atom_typ c) fun depth _ => hread _⟩
  rw [KdbType.bytes, hbs]
  rfl

theorem readsBack_vector {c : VectorClass} {ary : List c.Elm} {att : Option Int}
    (h : c.Plain ary) (hatt : Fits 8 (att.getD 0)) (hlen : ary.length < 2 ^ 31) :
    (KdbType.vector c ary att).ReadsBack := by
  refine ⟨_, ?_, reads_typ (fits_vector_typ c) fun depth _ => reads_vector h hatt hlen _⟩
  rw [KdbType.bytes, vecHdrBytes, List.append_assoc, List.append_assoc]

theorem readsBack_list {ary : List KdbType} {att : Int} (h : forall x, x ∈ ary -> x.ReadsBack)
    (hatt : Fits 8 att) (hlen : ary.length < 2 ^ 31) : (KdbType.list ary att).ReadsBack := by
  have hback := arrives_list (arrives_withAttAll h) att hlen
  rwa [toInt8_ofInt hatt] at hback

theorem readsBack_table {cols vals : KdbType} {att : Option Int} (hcols : cols.ReadsBack)
    (hvals : vals.ReadsBack) (hatt : Fits 8 (att.getD 0)) :
    (KdbType.table cols vals att).ReadsBack := by
  rcases hcols with ⟨xs, hxs, hcols⟩
  rcases hvals with ⟨ys, hys, hvals⟩
  have hread : forall depth,
      (i8Bytes (att.getD 0) ++ (i8Bytes 99 ++ (xs ++ ys))).length <= depth ->
      Reads (readTyp (read depth) 98) (i8Bytes (att.getD 0) ++ (i8Bytes 99 ++ (xs ++ ys)))
        (.table cols.withAtt vals.withAtt (some (att.getD 0))) := by
    intro depth hdepth
    simp only [List.length_append, i8Bytes_length] at hdepth
    exact (reads_readI8 hatt).bind ((reads_readI8 (n := 99) (by decide)).bind
      ((hcols depth (by omega)).bind ((hvals depth (by omega)).bind_pure
        fun vals => KdbType.table cols.withAtt vals (some (att.getD 0)))))
  refine ⟨_, ?_, reads_typ (by decide) hread⟩
  rw [KdbType.bytes, hxs, hys]
  simp

theorem readsBack_dict {keys vals : KdbType} (hkeys : keys.ReadsBack)
    (hvals : vals.ReadsBack) : (KdbType.dict keys vals).ReadsBack :=
  arrives_dict hkeys hvals

theorem readsBack_of_plain (x : KdbType) : x.Plain -> x.CountsFit -> x.ReadsBack := by
  induction x with
  | atom c val => exact fun h _ => readsBack_atom h
  | vector c ary att => exact fun h hfit => readsBack_vector h.left h.right hfit
  | list ary att ih =>
      intro h hfit
      refine readsBack_list (fun x hx => ?_) h.right hfit.left
      exact ih x hx (KdbType.plainAll_iff.mp h.left x hx)
        (KdbType.countsFitAll_iff.mp hfit.right x hx)
  | table cols vals att ihc ihv =>
      intro h hfit
      exact readsBack_table (ihc h.left hfit.left) (ihv h.right.left hfit.right) h.right.right
  | dict keys vals ihk ihv =>
      intro h hfit
      exact readsBack_dict (ihk h.left hfit.left) (ihv h.right hfit.right)
  | function txt =>
      intro h
      cases h
  | projection fn rgs =>
      intro h
      cases h

/-!
## Messages
-/

theorem new_msgHdrBytes_any (t : Int) (size : Nat) (bs : List UInt8) :
    KdbReader.new (msgHdrBytes t size ++ bs) =
      .ok { typ := some (UInt8.ofInt t).toInt8.toInt,
            cursor := ⟨msgHdrBytes t size ++ bs, 8⟩ } := by
  rw [KdbReader.new, if_neg (by simp [msgHdrBytes])]
  simp [msgHdrBytes]

theorem new_msgHdrBytes {t : Int} (ht : Fits 8 t) (size : Nat) (bs : List UInt8) :
    KdbReader.new (msgHdrBytes t size ++ bs) =
      .ok { typ := some t, cursor := ⟨msgHdrBytes t size ++ bs, 8⟩ } := by
  rw [new_msgHdrBytes_any, toInt8_ofInt ht]

/--
Deserialising what was serialised gives the message type and the object, with zero for the
attributes that were missing; the reader ends where the buffer ends.
-/
theorem deserialize_serialize (t : Int) (ht : Fits 8 t) (x : KdbType) (hx : x.Plain)
    (hfit : x.CountsFit) :
    exists bytes rdr cursor, serialize t x = .ok bytes ∧
      deserialize bytes = .ok { typ := some t, msg := x.withAtt } ∧
      KdbReader.new bytes = .ok rdr ∧
      read bytes.length rdr.cursor = .ok (x.withAtt, cursor) ∧
      cursor.pos = bytes.length := by
  rcases readsBack_of_plain x hx hfit with ⟨bs, hbs, hread⟩
  have hnew := new_msgHdrBytes ht bs.length bs
  have hrun := hread (msgHdrBytes t bs.length ++ bs).length
    (by rw [List.length_append]; omega) (msgHdrBytes t bs.length) []
  rw [List.append_nil, msgHdrBytes_length] at hrun
  refine ⟨_, _, _, serialize_of_bytes t hbs, ?_, hnew, hrun, rfl⟩
  rw [deserialize, hnew]
  show Except.bind (read _ _) _ = _
  exact congrArg (Except.bind · _) hrun

/-- A dict of a missing attribute, a list, a negative number and text. -/
def sample : KdbType :=
  .dict (.vector .symbol [[97], []] none)
    (.list [.atom .long (some (-3)), .vector .byte [0, 255] (some 1)] 0)

theorem deserialize_serialize_sample :
    exists bytes rdr cursor, serialize 2 sample = .ok bytes ∧
      deserialize bytes = .ok { typ := some 2, msg := sample.withAtt } ∧
      KdbReader.new bytes = .ok rdr ∧
      read bytes.length rdr.cursor = .ok (sample.withAtt, cursor) ∧
      cursor.pos = bytes.length :=
  deserialize_serialize 2 (by decide) sample
    (by simp [sample, KdbType.Plain, KdbType.PlainAll, AtomClass.Plain, VectorClass.Plain,
      FitsNonzero, Fits, IsAscii])
    (by simp [sample, KdbType.CountsFit, KdbType.CountsFitAll])

/-!
## Counts that do not fit
-/

/-- A vector with one element more than a signed count of 32 bits can say. -/
def hugeVector : KdbType :=
  .vector .byte (List.replicate (2 ^ 31) 0) (some 0)

theorem hugeVector_plain : hugeVector.Plain := by
  refine ⟨fun n hn => ?_, by decide⟩
  rw [List.eq_of_mem_replicate hn]
  decide

theorem readByteVector_negative {front elms : List UInt8} (hfront : front.length = 9)
    (helms : elms.length = 2 ^ 31) {vec : KdbType} {c : Cursor UInt8}
    (h : readByteVector ⟨front ++ (i8Bytes 0 ++ (i32Bytes (-2 ^ 31) ++ elms)), front.length⟩ =
      .ok (vec, c)) :
    exists ary : List Int, vec = .vector .byte ary (some 0) ∧ ary.length <= 28 := by
  have hsize : (front ++ i8Bytes 0 ++ i32Bytes (-2 ^ 31)).length = 14 := by
    rw [List.length_append, List.length_append, i8Bytes_length, i32Bytes_length, hfront]
  unfold readByteVector readSlice at h
  rw [(reads_readI8 (n := 0) (by decide)).run_bind,
    (reads_readI32 (n := -2 ^ 31) (by decide)).run_bind] at h
  cases h
  refine ⟨_, rfl, ?_⟩
  rw [List.length_map]
  refine (slice_length_le (ε := JsError) rfl).trans ?_
  have hstop : ((front ++ i8Bytes 0 ++ i32Bytes (-2 ^ 31)).length : Int) + -2 ^ 31 < 0 := by
    rw [hsize]
    decide
  rw [clamp, if_pos hstop, List.length_append, hsize, helms]
  show (((14 + 2 ^ 31 : Nat) : Int) + (14 + -2 ^ 31)).toNat <= 28
  decide

theorem read_of_deserialize {bytes : List UInt8} {rdr : KdbReader} {out : KdbMsg}
    (hnew : KdbReader.new bytes = .ok rdr) (h : deserialize bytes = .ok out) :
    exists c, read bytes.length rdr.cursor = .ok (out.msg, c) := by
  rw [deserialize, hnew] at h
  cases hread : read bytes.length rdr.cursor with
  | error e =>
      change Except.bind (read bytes.length rdr.cursor) _ = _ at h
      rw [hread] at h
      cases h
  | ok res =>
      change Except.bind (read bytes.length rdr.cursor) _ = _ at h
      rw [hread] at h
      cases h
      exact ⟨res.2, rfl⟩

theorem deserialize_negative {size : Nat} {elms : List UInt8} (helms : elms.length = 2 ^ 31)
    {out : KdbMsg} (h : deserialize (msgHdrBytes 0 size ++
      (i8Bytes 4 ++ (i8Bytes 0 ++ (i32Bytes (-2 ^ 31) ++ elms)))) = .ok out) :
    exists ary : List Int, out.msg = .vector .byte ary (some 0) ∧ ary.length <= 28 := by
  obtain ⟨depth, hdepth⟩ : exists depth, (msgHdrBytes 0 size ++
      (i8Bytes 4 ++ (i8Bytes 0 ++ (i32Bytes (-2 ^ 31) ++ elms)))).length = depth + 1 :=
    Nat.exists_eq_add_one.mpr (by rw [List.length_append, msgHdrBytes_length]; omega)
  rcases read_of_deserialize (new_msgHdrBytes (by decide) size _) h with ⟨c, hread⟩
  have hhdr : (8 : Int) = (msgHdrBytes 0 size).length := by rw [msgHdrBytes_length]; rfl
  rw [hdepth, read, hhdr, (reads_readI8 (n := 4) (by decide)).run_bind] at hread
  exact readByteVector_negative (by simp) helms hread

/--
The bytes of this vector do not give it back: the count is read as a negative number.
-/
theorem deserialize_serialize_huge :
    hugeVector.Plain ∧ exists bytes, serialize 0 hugeVector = .ok bytes ∧
      forall out, deserialize bytes = .ok out -> out.msg.withAtt ≠ hugeVector.withAtt := by
  have hcount : i32Bytes (2 ^ 31 : Nat) = i32Bytes (-2 ^ 31) := by decide +kernel
  have hbytes : hugeVector.bytes = some (i8Bytes 4 ++ (i8Bytes 0 ++ (i32Bytes (-2 ^ 31) ++
      (List.replicate (2 ^ 31) 0).flatMap (elmBytes .byte)))) := by
    rw [hugeVector, KdbType.bytes, vecHdrBytes, List.length_replicate, hcount,
      List.append_assoc, List.append_assoc]
    rfl
  have helms : ((List.replicate (2 ^ 31) 0).flatMap (elmBytes .byte)).length = 2 ^ 31 := by
    show ((List.replicate (2 ^ 31) 0).flatMap i8Bytes).length = 2 ^ 31
    rw [flatMap_length_of_forall i8Bytes_length, List.length_replicate, Nat.one_mul]
  refine ⟨hugeVector_plain, _, serialize_of_bytes 0 hbytes, ?_⟩
  intro out hout hsame
  rcases deserialize_negative helms hout with ⟨ary, hmsg, hshort⟩
  rw [hmsg, hugeVector, KdbType.withAtt, KdbType.withAtt] at hsame
  have hary : ary = List.replicate (2 ^ 31) 0 := by
    injection hsame
  rw [hary, List.length_replicate] at hshort
  exact absurd hshort (by decide)

end Ipcjs
end MgKdb
