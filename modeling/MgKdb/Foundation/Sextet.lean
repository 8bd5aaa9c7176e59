import Mathlib.Data.UInt

/-!
# Octets and sextets

Three octets have as many bits as four sextets.  The bits of one octet are spread over two
sextets, from which it is put together again whatever else they hold, and the other way
around.
-/

namespace MgKdb
namespace Foundation

theorem forall_octet {P : UInt8 -> Prop} (h : forall n, n < 256 -> P (UInt8.ofNat n))
    (b : UInt8) : P b := by
  have hb := h b.toNat b.toNat_lt
  rwa [UInt8.ofNat_toNat] at hb

theorem forall_sextet {P : UInt8 -> Prop} (h : forall n, n < 64 -> P (UInt8.ofNat n))
    {b : UInt8} (hb : b < 64) : P b := by
  have hb := h b.toNat (UInt8.lt_iff_toNat_lt.mp hb)
  rwa [UInt8.ofNat_toNat] at hb

theorem or_and_right (a b c : UInt8) : (a ||| b) &&& c = a &&& c ||| b &&& c := by
  rw [<- UInt8.toBitVec_inj]
  simp only [UInt8.toBitVec_and, UInt8.toBitVec_or]
  ext i hi
  simp only [BitVec.getElem_and, BitVec.getElem_or, Bool.and_or_distrib_right]

theorem octet_bits (a : UInt8) :
    (a >>> 4 >>> 4 = 0 ∧ a >>> 2 <<< 2 ||| (a &&& 3) <<< 4 >>> 4 = a) ∧
    ((a &&& 3) <<< 4 <<< 4 = 0 ∧ a >>> 6 >>> 2 = 0 ∧
      a >>> 4 <<< 4 ||| (a &&& 15) <<< 2 >>> 2 = a) ∧
    ((a &&& 15) <<< 2 <<< 6 = 0 ∧ a >>> 6 <<< 6 ||| a &&& 63 = a) ∧
    (a <<< 2 &&& 3 = 0 ∧ a <<< 4 &&& 15 = 0 ∧ a <<< 6 &&& 63 = 0) :=
  forall_octet (P := fun a =>
    (a >>> 4 >>> 4 = 0 ∧ a >>> 2 <<< 2 ||| (a &&& 3) <<< 4 >>> 4 = a) ∧
    ((a &&& 3) <<< 4 <<< 4 = 0 ∧ a >>> 6 >>> 2 = 0 ∧
      a >>> 4 <<< 4 ||| (a &&& 15) <<< 2 >>> 2 = a) ∧
    ((a &&& 15) <<< 2 <<< 6 = 0 ∧ a >>> 6 <<< 6 ||| a &&& 63 = a) ∧
    (a <<< 2 &&& 3 = 0 ∧ a <<< 4 &&& 15 = 0 ∧ a <<< 6 &&& 63 = 0)) (by decide +kernel) a

theorem octet_parts_lt (a : UInt8) :
    (a >>> 2 < 64 ∧ (a &&& 3) <<< 4 < 64 ∧ a >>> 4 < 64) ∧
    ((a &&& 15) <<< 2 < 64 ∧ a >>> 6 < 64 ∧ a &&& 63 < 64) :=
  forall_octet (P := fun a =>
    (a >>> 2 < 64 ∧ (a &&& 3) <<< 4 < 64 ∧ a >>> 4 < 64) ∧
    ((a &&& 15) <<< 2 < 64 ∧ a >>> 6 < 64 ∧ a &&& 63 < 64)) (by decide +kernel) a

theorem sextet_bits {a : UInt8} (ha : a < 64) :
    (a <<< 2 >>> 2 = a ∧ (a >>> 4 &&& 3) <<< 4 ||| a <<< 4 >>> 4 = a ∧
      (a >>> 2 &&& 15) <<< 2 ||| a <<< 6 >>> 6 = a ∧ a &&& 63 = a) ∧
    (a >>> 4 >>> 2 = 0 ∧ a >>> 2 >>> 4 = 0 ∧ a >>> 6 = 0) ∧
    ((a >>> 4 &&& 3) <<< 4 = a <-> a &&& 15 = 0) ∧
    ((a >>> 2 &&& 15) <<< 2 = a <-> a &&& 3 = 0) :=
  forall_sextet (P := fun a =>
    (a <<< 2 >>> 2 = a ∧ (a >>> 4 &&& 3) <<< 4 ||| a <<< 4 >>> 4 = a ∧
      (a >>> 2 &&& 15) <<< 2 ||| a <<< 6 >>> 6 = a ∧ a &&& 63 = a) ∧
    (a >>> 4 >>> 2 = 0 ∧ a >>> 2 >>> 4 = 0 ∧ a >>> 6 = 0) ∧
    ((a >>> 4 &&& 3) <<< 4 = a <-> a &&& 15 = 0) ∧
    ((a >>> 2 &&& 15) <<< 2 = a <-> a &&& 3 = 0)) (by decide +kernel) ha

/-!
## Octets from sextets
-/

section Octets

variable (a b c : UInt8)

theorem octet_first : a >>> 2 <<< 2 ||| ((a &&& 3) <<< 4 ||| b >>> 4) >>> 4 = a := by
  rcases (octet_bits b).left with ⟨hhigh, _⟩
  rcases (octet_bits a).left with ⟨_, hlow⟩
  rw [UInt8.shiftRight_or, hhigh, UInt8.or_zero, hlow]

theorem octet_second :
    ((a &&& 3) <<< 4 ||| b >>> 4) <<< 4 ||| ((b &&& 15) <<< 2 ||| c >>> 6) >>> 2 = b := by
  rcases (octet_bits a).right.left with ⟨hfirst, _, _⟩
  rcases (octet_bits b).right.left with ⟨_, _, hmiddle⟩
  rcases (octet_bits c).right.left with ⟨_, hlast, _⟩
  rw [UInt8.shiftLeft_or, UInt8.shiftRight_or, hfirst, hlast, UInt8.zero_or, UInt8.or_zero,
    hmiddle]

theorem octet_third : ((b &&& 15) <<< 2 ||| c >>> 6) <<< 6 ||| c &&& 63 = c := by
  rcases (octet_bits b).right.right.left with ⟨hmiddle, _⟩
  rcases (octet_bits c).right.right.left with ⟨_, hlast⟩
  rw [UInt8.shiftLeft_or, hmiddle, UInt8.zero_or, hlast]

end Octets

/-!
## Sextets are small
-/

section Small

variable (a b c : UInt8)

theorem or_lt_64 {a b : UInt8} (ha : a < 64) (hb : b < 64) : a ||| b < 64 := by
  rw [UInt8.lt_iff_toNat_lt] at ha hb ⊢
  rw [UInt8.toNat_or]
  exact Nat.or_lt_two_pow (n := 6) ha hb

theorem sextet_first : a >>> 2 < 64 :=
  (octet_parts_lt a).left.left

theorem sextet_second : (a &&& 3) <<< 4 ||| b >>> 4 < 64 :=
  or_lt_64 (octet_parts_lt a).left.right.left (octet_parts_lt b).left.right.right

theorem sextet_third : (b &&& 15) <<< 2 ||| c >>> 6 < 64 :=
  or_lt_64 (octet_parts_lt b).right.left (octet_parts_lt c).right.right.left

theorem sextet_fourth : c &&& 63 < 64 :=
  (octet_parts_lt c).right.right.right

end Small

/-!
## Sextets from octets
-/

section Sextets

variable (a b c d : UInt8)

theorem first_of_octets (ha : a < 64) (hb : b < 64) : (a <<< 2 ||| b >>> 4) >>> 2 = a := by
  rcases sextet_bits ha with ⟨⟨hhigh, _⟩, _⟩
  rcases sextet_bits hb with ⟨_, ⟨hlow, _⟩, _⟩
  rw [UInt8.shiftRight_or, hlow, hhigh, UInt8.or_zero]

theorem low_of_first : (a <<< 2 ||| b >>> 4) &&& (3 : UInt8) = b >>> 4 &&& (3 : UInt8) := by
  rcases (octet_bits a).right.right.right with ⟨hhigh, _, _⟩
  rw [or_and_right, hhigh, UInt8.zero_or]

theorem low_of_second : (b <<< 4 ||| c >>> 2) &&& (15 : UInt8) = c >>> 2 &&& (15 : UInt8) := by
  rcases (octet_bits b).right.right.right with ⟨_, hhigh, _⟩
  rw [or_and_right, hhigh, UInt8.zero_or]

theorem second_of_octets (hb : b < 64) (hc : c < 64) :
    ((a <<< 2 ||| b >>> 4) &&& 3) <<< 4 ||| (b <<< 4 ||| c >>> 2) >>> 4 = b := by
  rcases sextet_bits hb with ⟨⟨_, hmiddle, _⟩, _⟩
  rcases sextet_bits hc with ⟨_, ⟨_, hlow, _⟩, _⟩
  rw [low_of_first, UInt8.shiftRight_or, hlow, UInt8.or_zero, hmiddle]

theorem third_of_octets (hc : c < 64) (hd : d < 64) :
    ((b <<< 4 ||| c >>> 2) &&& 15) <<< 2 ||| (c <<< 6 ||| d) >>> 6 = c := by
  rcases sextet_bits hc with ⟨⟨_, _, hmiddle, _⟩, _⟩
  rcases sextet_bits hd with ⟨_, ⟨_, _, hlow⟩, _⟩
  rw [low_of_second, UInt8.shiftRight_or, hlow, UInt8.or_zero, hmiddle]

theorem fourth_of_octets (hd : d < 64) : (c <<< 6 ||| d) &&& 63 = d := by
  rcases (octet_bits c).right.right.right with ⟨_, _, hhigh⟩
  rcases sextet_bits hd with ⟨⟨_, _, _, hlow⟩, _⟩
  rw [or_and_right, hhigh, UInt8.zero_or, hlow]

theorem second_of_first_octet (hb : b < 64) :
    ((a <<< 2 ||| b >>> 4) &&& 3) <<< 4 = b <-> b &&& 15 = 0 := by
  rw [low_of_first]
  exact (sextet_bits hb).right.right.left

theorem third_of_second_octet (hc : c < 64) :
    ((b <<< 4 ||| c >>> 2) &&& 15) <<< 2 = c <-> c &&& 3 = 0 := by
  rw [low_of_second]
  exact (sextet_bits hc).right.right.right

end Sextets

end Foundation
end MgKdb
