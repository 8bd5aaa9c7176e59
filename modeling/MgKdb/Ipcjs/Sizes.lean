import MgKdb.Ipcjs.Writer

/-!
# The two passes of the JavaScript serialiser

The buffer is as long as the first pass says, and typed arrays say nothing about stores
outside of them.  The second pass must store as many bytes as the first one counts.
-/

namespace MgKdb
namespace Ipcjs

open Foundation

/-!
## Objects that can be written
-/

theorem valBytes_of_writeVal {c : AtomClass} {val : c.Val} {w w' : KdbWriter}
    (h : writeVal c val w = .ok w') : exists bs, valBytes c val = some bs := by
  cases c
  case dateTime => cases h
  case long | timestamp | timespan =>
      cases val with
      | none => cases h
      | some val => exact ⟨_, rfl⟩
  all_goals exact ⟨_, rfl⟩

theorem ok_of_bind {α β : Type} {x : Except JsError α} {f : α -> Except JsError β} {b : β}
    (h : (x >>= f) = .ok b) : exists a, x = .ok a ∧ f a = .ok b := by
  cases x with
  | error e => cases h
  | ok a => exact ⟨a, rfl, h⟩

theorem bytesAll_of_writeElms {ary : List KdbType}
    (h : forall x, x ∈ ary -> forall {w w' : KdbWriter}, writeElm x w = .ok w' ->
      exists bs, x.bytes = some bs) :
    forall {w w' : KdbWriter}, writeElms ary w = .ok w' ->
      exists bs, KdbType.bytesAll ary = some bs := by
  induction ary with
  | nil => exact fun _ => ⟨[], rfl⟩
  | cons x ary ih =>
      intro w w' hok
      rw [writeElms] at hok
      rcases ok_of_bind hok with ⟨w₁, hx, hary⟩
      rcases h x List.mem_cons_self hx with ⟨xs, hxs⟩
      rcases ih (fun y hy => h y (List.mem_cons_of_mem x hy)) hary with ⟨ys, hys⟩
      refine ⟨xs ++ ys, ?_⟩
      rw [KdbType.bytesAll, hxs, hys]
      rfl

theorem bytes_of_writeElm (x : KdbType) :
    forall {w w' : KdbWriter}, writeElm x w = .ok w' -> exists bs, x.bytes = some bs := by
  induction x with
  | atom c val =>
      intro w w' h
      rcases valBytes_of_writeVal h with ⟨bs, hbs⟩
      rw [KdbType.bytes, hbs]
      exact ⟨_, rfl⟩
  | vector c ary att => exact fun _ => ⟨_, rfl⟩
  | list ary att ih =>
      intro w w' h
      rcases bytesAll_of_writeElms ih h with ⟨bs, hbs⟩
      rw [KdbType.bytes, hbs]
      exact ⟨_, rfl⟩
  | table cols vals att ihc ihv =>
      intro w w' h
      rw [writeElm] at h
      rcases ok_of_bind h with ⟨w₁, hcols, hvals⟩
      rcases ihc hcols with ⟨xs, hxs⟩
      rcases ihv hvals with ⟨ys, hys⟩
      rw [KdbType.bytes, hxs, hys]
      exact ⟨_, rfl⟩
  | dict keys vals ihk ihv =>
      intro w w' h
      rw [writeElm] at h
      rcases ok_of_bind h with ⟨w₁, hkeys, hvals⟩
      rcases ihk hkeys with ⟨xs, hxs⟩
      rcases ihv hvals with ⟨ys, hys⟩
      rw [KdbType.bytes, hxs, hys]
      exact ⟨_, rfl⟩
  | function txt =>
      intro w w' h
      cases h
  | projection fn rgs =>
      intro w w' h
      cases h

theorem bytes_of_serialize {msgTyp : Int} {x : KdbType} {buf : List UInt8}
    (h : serialize msgTyp x = .ok buf) : exists bs, x.bytes = some bs := by
  rcases ok_of_bind h with ⟨psz, _, hwrite⟩
  rcases ok_of_bind hwrite with ⟨w, hw, _⟩
  exact bytes_of_writeElm x hw

/-!
## What the passes agree about
-/

/--
The writing pass of an object is so many stores, one behind the other: whatever was there is
replaced, and nothing else is.
-/
def Replaces (x : KdbType) (bs : List UInt8) : Prop :=
  forall front old beyond : List UInt8, old.length = bs.length ->
    writeElm x ⟨front ++ (old ++ beyond), front.length⟩ =
      .ok ⟨front ++ (bs ++ beyond), front.length + bs.length⟩

theorem replaces_of_bytes {x : KdbType} {bs : List UInt8} (h : x.bytes = some bs) :
    Replaces x bs := by
  intro front old beyond hold
  have hroom : bs.length <= (old ++ beyond).length := by
    rw [List.length_append]
    omega
  rw [writeElm_of_bytes x _ h, KdbWriter.stores_fill bs hroom, <- hold, List.drop_left,
    List.append_assoc, List.length_append, hold]

def msgLength (buf : List UInt8) : BitVec 32 :=
  wordAt 4 (buf.drop 4)

theorem msgLength_msgHdrBytes (msgTyp : Int) (size : Nat) (bs : List UInt8) :
    msgLength (msgHdrBytes msgTyp size ++ bs) = BitVec.ofNat 32 (8 + size) := by
  have hword : leBytes 4 (8 + size) = wordBytes 4 (BitVec.ofNat 32 (8 + size)) := by
    rw [wordBytes, BitVec.toNat_ofNat]
    exact (leBytes_mod 4 (8 + size)).symm
  have hdrop : (msgHdrBytes msgTyp size ++ bs).drop 4 = leBytes 4 (8 + size) ++ bs := by
    rw [msgHdrBytes, List.append_assoc]
    rfl
  rw [msgLength, hdrop, hword]
  exact wordAt_wordBytes_append 4 _ bs

structure PassesAgree (x : KdbType) (buf : List UInt8) : Prop where
  header : 8 <= buf.length
  /-- The bytes behind the header are those that the second pass stores, as many as the first
  pass counts. -/
  payload : writeSz x = .ok (buf.drop 8).length ∧ Replaces x (buf.drop 8)
  unsigned : buf.length < 2 ^ 32 -> (msgLength buf).toNat = buf.length
  signed : buf.length < 2 ^ 31 -> (msgLength buf).toInt = buf.length

/-- The passes agree about every message that is written; the length field of the format has
room for lengths below 2^32. -/
theorem serialize_passes {msgTyp : Int} {x : KdbType} {buf : List UInt8}
    (h : serialize msgTyp x = .ok buf) : PassesAgree x buf := by
  rcases bytes_of_serialize h with ⟨bs, hbs⟩
  have hbuf := (serialize_of_bytes msgTyp hbs).symm.trans h
  cases hbuf
  have hlen : (msgHdrBytes msgTyp bs.length ++ bs).length = 8 + bs.length := by
    rw [List.length_append, msgHdrBytes_length]
  have hdrop : (msgHdrBytes msgTyp bs.length ++ bs).drop 8 = bs := by
    rw [<- msgHdrBytes_length msgTyp bs.length, List.drop_left]
  constructor
  · rw [hlen]
    exact Nat.le_add_right 8 bs.length
  · rw [hdrop]
    exact ⟨writeSz_of_bytes x hbs, replaces_of_bytes hbs⟩
  · intro hfits
    rw [hlen] at hfits ⊢
    rw [msgLength_msgHdrBytes, BitVec.toNat_ofNat, Nat.mod_eq_of_lt hfits]
  · intro hfits
    rw [hlen] at hfits ⊢
    rw [msgLength_msgHdrBytes, BitVec.toInt_eq_toNat_of_lt] <;> rw [BitVec.toNat_ofNat]
    · omega
    · omega

/-- A dict of a symbol with text outside of ASCII, and an atom without a value. -/
theorem serialize_passes_dict :
    exists buf, serialize 1 (.dict (.atom .symbol [0x20ac, 0xd83d]) (.atom .int none)) =
        .ok buf ∧
      PassesAgree (.dict (.atom .symbol [0x20ac, 0xd83d]) (.atom .int none)) buf :=
  ⟨_, rfl, @serialize_passes 1 _ _ rfl⟩

/-!
## Lengths that do not fit
-/

def zeroLongVector (n : Nat) : KdbType :=
  .vector .long (List.replicate n 0) (some 0)

theorem serialize_zeroLongVector (n : Nat) :
    exists buf, serialize 0 (zeroLongVector n) = .ok buf ∧ buf.length = 14 + 8 * n ∧
      msgLength buf = BitVec.ofNat 32 (14 + 8 * n) := by
  have hbytes : (zeroLongVector n).bytes =
      some (vecHdrBytes 7 (some 0) n ++ (List.replicate n 0).flatMap (elmBytes .long)) := by
    rw [zeroLongVector, KdbType.bytes, List.length_replicate]
    rfl
  have hsize : (vecHdrBytes 7 (some 0) n ++
      (List.replicate n 0).flatMap (elmBytes .long)).length = 6 + 8 * n := by
    rw [List.length_append, vecHdrBytes_length]
    show 6 + ((List.replicate n 0).flatMap i64Bytes).length = 6 + 8 * n
    rw [flatMap_length_of_forall i64Bytes_length, List.length_replicate]
  refine ⟨_, serialize_of_bytes 0 hbytes, ?_, ?_⟩
  · rw [List.length_append, msgHdrBytes_length, hsize]
    omega
  · rw [msgLength_msgHdrBytes, hsize]
    exact congrArg (BitVec.ofNat 32) (by omega)

/-- 2^29 longs, of which the length field says that they are none. -/
theorem serialize_passes_overflow :
    exists buf, serialize 0 (zeroLongVector (2 ^ 29)) = .ok buf ∧
      buf.length = 2 ^ 32 + 14 ∧ (msgLength buf).toNat = 14 ∧ (msgLength buf).toInt = 14 := by
  rcases serialize_zeroLongVector (2 ^ 29) with ⟨buf, hok, hlen, hfield⟩
  have hword : BitVec.ofNat 32 (14 + 8 * 2 ^ 29) = 14 := by decide
  rw [hword] at hfield
  refine ⟨buf, hok, hlen, ?_, ?_⟩
  · rw [hfield]
    rfl
  · rw [hfield]
    rfl

end Ipcjs
end MgKdb
