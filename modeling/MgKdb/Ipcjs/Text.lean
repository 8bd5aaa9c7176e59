import Mathlib.Data.UInt
import Mathlib.Data.List.Infix

/-!
# Text in UTF-16 and UTF-8

The two conversions of the vendored `CdotJS`.  Neither refuses anything: an unpaired
surrogate is paired with whatever follows it, and a byte that starts no sequence is skipped.
-/

namespace MgKdb
namespace Ipcjs

/-- `CdotJS.u8u16`; past the end of the text `charCodeAt` has no bits set. -/
def u8u16 : List UInt16 -> List UInt8
  | [] => []
  | c :: u16 =>
      if c < 0x80 then c.toUInt8 :: u8u16 u16
      else if c < 0x800 then
        UInt8.ofNat (0xc0 ||| c.toNat >>> 6) ::
          UInt8.ofNat (0x80 ||| (c.toNat &&& 0x3f)) :: u8u16 u16
      else if c < 0xd800 ∨ 0xe000 <= c then
        UInt8.ofNat (0xe0 ||| c.toNat >>> 12) ::
          UInt8.ofNat (0x80 ||| (c.toNat >>> 6 &&& 0x3f)) ::
          UInt8.ofNat (0x80 ||| (c.toNat &&& 0x3f)) :: u8u16 u16
      else
        match u16 with
        | [] => pair c 0
        | d :: u16 => pair c d ++ u8u16 u16
where
  /-- A character outside the basic plane. -/
  pair (c d : UInt16) : List UInt8 :=
    let c := 0x10000 + ((c.toNat &&& 0x3ff) <<< 10 ||| (d.toNat &&& 0x3ff))
    [UInt8.ofNat (0xf0 ||| c >>> 18), UInt8.ofNat (0x80 ||| (c >>> 12 &&& 0x3f)),
      UInt8.ofNat (0x80 ||| (c >>> 6 &&& 0x3f)), UInt8.ofNat (0x80 ||| (c &&& 0x3f))]

/-- `x & 0x3F`, where `undefined` has no bits set. -/
def low6 (x : Option Int) : Nat :=
  ((x.getD 0) % 0x40).toNat

/-- `CdotJS.u16u8`, on an array whose elements need not be unsigned. -/
def u16u8 : List Int -> List UInt16
  | [] => []
  | c :: u8 =>
      match c >>> (4 : Nat) with
      | 0 | 1 | 2 | 3 | 4 | 5 | 6 | 7 => UInt16.ofInt c :: u16u8 u8
      | 12 | 13 =>
          match u8 with
          | [] => [two c none]
          | c1 :: u8 => two c c1 :: u16u8 u8
      | 14 =>
          match u8 with
          | [] => [three c none none]
          | [c1] => [three c c1 none]
          | c1 :: c2 :: u8 => three c c1 c2 :: u16u8 u8
      | _ => u16u8 u8
where
  two (c : Int) (c1 : Option Int) : UInt16 :=
    UInt16.ofNat ((c % 0x20).toNat <<< 6 ||| low6 c1)
  three (c : Int) (c1 c2 : Option Int) : UInt16 :=
    UInt16.ofNat ((c % 0x10).toNat <<< 12 ||| low6 c1 <<< 6 ||| low6 c2)

/-!
## Bytes of text
-/

theorem ofNat_or_ne_zero {k : Nat} (hk : k.testBit 7 = true) (n : Nat) :
    UInt8.ofNat (k ||| n) ≠ 0 := by
  intro hzero
  have hmod : (k ||| n) % 2 ^ 8 = 0 := congrArg UInt8.toNat hzero
  have hbit : ((k ||| n) % 2 ^ 8).testBit 7 = true := by
    rw [Nat.testBit_mod_two_pow, Nat.testBit_or, hk]
    rfl
  rw [hmod, Nat.zero_testBit] at hbit
  cases hbit

theorem nul_notMem_pair (c d : UInt16) : (0 : UInt8) ∉ u8u16.pair c d := by
  simp only [u8u16.pair, List.mem_cons, List.not_mem_nil, or_false, not_or]
  exact ⟨(ofNat_or_ne_zero rfl _).symm, (ofNat_or_ne_zero rfl _).symm,
    (ofNat_or_ne_zero rfl _).symm, (ofNat_or_ne_zero rfl _).symm⟩

theorem nul_notMem_u8u16 {s : List UInt16} (h : 0 ∉ s) : (0 : UInt8) ∉ u8u16 s := by
  have hrest : forall {c : UInt16} {s : List UInt16}, 0 ∉ c :: s -> 0 ∉ s :=
    fun h hs => h (List.mem_cons_of_mem _ hs)
  induction s using u8u16.induct with
  | case1 => exact List.not_mem_nil
  | case2 c s hone ih =>
      rw [u8u16.eq_def]
      simp only [if_pos hone]
      refine List.not_mem_cons_of_ne_of_not_mem (fun hzero => h ?_) (ih (hrest h))
      have hc := congrArg UInt8.toNat hzero
      rw [UInt16.toNat_toUInt8] at hc
      have hlt := UInt16.lt_iff_toNat_lt.mp hone
      have hnat : c.toNat = 0 := by
        simp at hc hlt
        omega
      rw [UInt16.toNat_inj.mp (hnat.trans UInt16.toNat_zero.symm)]
      exact List.mem_cons_self
  | case3 c s hone htwo ih =>
      rw [u8u16.eq_def]
      simp only [if_neg hone, if_pos htwo, List.mem_cons, not_or]
      exact ⟨(ofNat_or_ne_zero rfl _).symm, (ofNat_or_ne_zero rfl _).symm, ih (hrest h)⟩
  | case4 c s hone htwo hthree ih =>
      rw [u8u16.eq_def]
      simp only [if_neg hone, if_neg htwo, if_pos hthree, List.mem_cons, not_or]
      exact ⟨(ofNat_or_ne_zero rfl _).symm, (ofNat_or_ne_zero rfl _).symm,
        (ofNat_or_ne_zero rfl _).symm, ih (hrest h)⟩
  | case5 c hone htwo hthree =>
      rw [u8u16.eq_def]
      simp only [if_neg hone, if_neg htwo, if_neg hthree]
      exact nul_notMem_pair c 0
  | case6 c hone htwo hthree d s ih =>
      rw [u8u16.eq_def]
      simp only [if_neg hone, if_neg htwo, if_neg hthree]
      rw [List.mem_append, not_or]
      exact ⟨nul_notMem_pair c d, ih (hrest (hrest h))⟩

/-!
## Plain ASCII
-/

def IsAscii (s : List UInt16) : Prop :=
  forall c, c ∈ s -> 0 < c ∧ c < 0x80

instance (s : List UInt16) : Decidable (IsAscii s) :=
  List.decidableBAll _ s

theorem IsAscii.tail {c : UInt16} {s : List UInt16} (h : IsAscii (c :: s)) : IsAscii s :=
  fun d hd => h d (List.mem_cons_of_mem c hd)

theorem u8u16_cons {c : UInt16} (h : c < 0x80) (s : List UInt16) :
    u8u16 (c :: s) = c.toUInt8 :: u8u16 s := by
  rw [u8u16.eq_def]
  exact if_pos h

theorem u16u8_cons {c : Int} (hlow : 0 <= c) (hhigh : c < 0x80) (u8 : List Int) :
    u16u8 (c :: u8) = UInt16.ofInt c :: u16u8 u8 := by
  have hshift : c >>> (4 : Nat) = c / 16 := Int.shiftRight_eq_div_pow c 4
  obtain ⟨q, hq, hlt⟩ : exists q : Nat, c / 16 = q ∧ q < 8 :=
    ⟨(c / 16).toNat, by omega, by omega⟩
  rw [u16u8.eq_def]
  simp only [hshift, hq]
  match q, hlt with
  | 0, _ | 1, _ | 2, _ | 3, _ | 4, _ | 5, _ | 6, _ | 7, _ => rfl

theorem u16u8_negative {c : Int} (hlow : -128 <= c) (hneg : c < 0) (u8 : List Int) :
    u16u8 (c :: u8) = u16u8 u8 := by
  have hshift : c >>> (4 : Nat) = c / 16 := Int.shiftRight_eq_div_pow c 4
  obtain ⟨k, hk⟩ : exists k : Nat, c / 16 = Int.negSucc k :=
    Int.eq_negSucc_of_lt_zero (by omega)
  rw [u16u8.eq_def]
  simp only [hshift, hk]

theorem toInt8_of_lt {b : UInt8} (h : b.toNat < 128) : b.toInt8.toInt = b.toNat := by
  show b.toBitVec.toInt = b.toNat
  rw [BitVec.toInt_eq_toNat_of_lt]
  · rfl
  · exact Nat.mul_lt_mul_of_pos_left h (by decide)

theorem toInt8_of_ge {b : UInt8} (h : 128 <= b.toNat) :
    -128 <= b.toInt8.toInt ∧ b.toInt8.toInt < 0 := by
  show -128 <= b.toBitVec.toInt ∧ b.toBitVec.toInt < 0
  have hnat : b.toBitVec.toNat = b.toNat := rfl
  rw [BitVec.toInt_eq_toNat_cond, hnat]
  have hlt := b.toNat_lt
  split <;> omega

theorem u16u8_signed (bs : List UInt8) :
    u16u8 (bs.map (fun b => b.toInt8.toInt)) =
      (bs.filter (fun b => b.toNat < 128)).map UInt8.toUInt16 := by
  induction bs with
  | nil => rfl
  | cons b bs ih =>
      rw [List.map_cons, List.filter_cons]
      by_cases hb : b.toNat < 128
      · have hunit : UInt16.ofInt (b.toNat : Int) = b.toUInt16 := by
          have hmod : ((b.toNat : Int) % 2 ^ 16).toNat = b.toUInt16.toNat := by
            rw [UInt8.toNat_toUInt16]
            omega
          rw [UInt16.ofInt, hmod, UInt16.ofNat_toNat]
        rw [if_pos (decide_eq_true hb), toInt8_of_lt hb, u16u8_cons (by omega) (by omega), ih,
          List.map_cons, hunit]
      · rcases toInt8_of_ge (Nat.le_of_not_lt hb) with ⟨hlow, hneg⟩
        rw [if_neg (by simpa using hb), u16u8_negative hlow hneg, ih]

theorem u8u16_ascii {s : List UInt16} (h : IsAscii s) : u8u16 s = s.map UInt16.toUInt8 := by
  induction s with
  | nil => rfl
  | cons c s ih => rw [u8u16_cons (h c (by simp)).right, ih h.tail, List.map_cons]

theorem u16u8_ascii {s : List UInt16} (h : IsAscii s) :
    u16u8 ((s.map UInt16.toUInt8).map (fun b => b.toInt8.toInt)) = s := by
  have hlt : forall c, c ∈ s -> c.toNat < 128 :=
    fun c hc => UInt16.lt_iff_toNat_lt.mp (h c hc).right
  have hbyte : forall c, c ∈ s -> c.toUInt8.toNat = c.toNat := by
    intro c hc
    have hc := hlt c hc
    rw [UInt16.toNat_toUInt8]
    omega
  have hall : forall b, b ∈ s.map UInt16.toUInt8 -> b.toNat < 128 := by
    intro b hb
    rcases List.mem_map.mp hb with ⟨c, hc, rfl⟩
    rw [hbyte c hc]
    exact hlt c hc
  have hback : forall c, c ∈ s -> c.toUInt8.toUInt16 = c := by
    intro c hc
    rw [<- UInt16.toNat_inj, UInt8.toNat_toUInt16, hbyte c hc]
  rw [u16u8_signed, List.filter_eq_self.mpr (fun b hb => decide_eq_true (hall b hb)),
    List.map_map]
  exact (List.map_congr_left hback).trans (List.map_id s)

theorem u16u8_u8u16 {s : List UInt16} (h : 0 ∉ s) :
    u16u8 ((u8u16 s).map (fun b => b.toInt8.toInt)) = s <-> IsAscii s := by
  constructor
  · intro hsame c hc
    rw [u16u8_signed] at hsame
    have hmem := hc
    rw [<- hsame] at hmem
    rcases List.mem_map.mp hmem with ⟨b, hb, rfl⟩
    have hlt : b.toNat < 128 := of_decide_eq_true (List.mem_filter.mp hb).right
    have hpos : b.toUInt16 ≠ 0 := fun hzero => h (hzero ▸ hc)
    have hnat : b.toUInt16.toNat = b.toNat := UInt8.toNat_toUInt16 b
    refine ⟨UInt16.pos_iff_ne_zero.mpr hpos, UInt16.lt_iff_toNat_lt.mpr ?_⟩
    rw [hnat]
    exact hlt
  · intro hascii
    rw [u8u16_ascii hascii, u16u8_ascii hascii]

theorem IsAscii.nul_notMem {s : List UInt16} (h : IsAscii s) : 0 ∉ s := by
  intro hmem
  exact absurd (h 0 hmem).left (by decide)

end Ipcjs
end MgKdb
