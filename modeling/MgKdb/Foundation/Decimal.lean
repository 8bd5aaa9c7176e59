import Mathlib.Data.UInt
import MgKdb.Foundation.Delimited

/-!
# Decimal numerals

Integers as text, with zeros or blanks in front of the digits.  Whatever is in front of them,
a numeral has no other value than the one it was made of.
-/

namespace MgKdb
namespace Foundation

structure Numeral (s : List Char) (n : Int) : Prop where
  number : Nat.ofDigitChars 10 (s.filter Char.isDigit) 0 = n.natAbs
  minus_iff : '-' ∈ s <-> n < 0
  chars : forall c, c ∈ s -> c.isDigit ∨ c = '-' ∨ c = ' '

namespace Numeral

variable {s t : List Char} {m n : Int}

theorem unique (hs : Numeral s m) (ht : Numeral s n) : m = n := by
  have habs := hs.number.symm.trans ht.number
  have hneg := hs.minus_iff.symm.trans ht.minus_iff
  omega

/-- Text that is made of two numerals and the text behind them is the same only if both are. -/
theorem append_inj (hs : Numeral s m) (ht : Numeral t n) {sep : Char}
    (hsep : ¬ (sep.isDigit ∨ sep = '-' ∨ sep = ' ')) {xs ys : List Char}
    (h : s ++ sep :: xs = t ++ sep :: ys) : m = n ∧ xs = ys := by
  have hnot : forall {s : List Char} {m : Int}, Numeral s m -> sep ∉ s :=
    fun hs hmem => hsep (hs.chars sep hmem)
  rcases append_sep_inj (hnot hs) (hnot ht) h with ⟨hsame, hrest⟩
  exact ⟨(hsame ▸ hs).unique ht, hrest⟩

end Numeral

def withSign (n : Int) (ds : List Char) : List Char :=
  if n < 0 then '-' :: ds else ds

def digitPadded (w : Nat) (n : Int) : List Char :=
  withSign n (List.leftpad w '0' (Nat.toDigits 10 n.natAbs))

def zeroPadded (w : Nat) (n : Int) : List Char :=
  digitPadded (if n < 0 then w - 1 else w) n

def spacePadded (w : Nat) (n : Int) : List Char :=
  List.leftpad w ' ' (digitPadded 0 n)

theorem ofDigitChars_leftpad (w n : Nat) :
    Nat.ofDigitChars 10 (List.leftpad w '0' (Nat.toDigits 10 n)) 0 = n := by
  rw [List.leftpad, Nat.ofDigitChars_append, Nat.ofDigitChars_replicate_zero, Nat.mul_zero]
  exact Nat.ofDigitChars_ten_toDigits

theorem isDigit_of_mem_leftpad {w n : Nat} {c : Char}
    (h : c ∈ List.leftpad w '0' (Nat.toDigits 10 n)) : c.isDigit := by
  rcases List.mem_append.mp h with hpad | hdigit
  · rw [List.eq_of_mem_replicate hpad]
    rfl
  · exact Nat.isDigit_of_mem_toDigits (by decide) (by decide) hdigit

theorem numeral_digitPadded (w : Nat) (n : Int) : Numeral (digitPadded w n) n := by
  have hdigits : forall c, c ∈ List.leftpad w '0' (Nat.toDigits 10 n.natAbs) -> c.isDigit :=
    fun _ => isDigit_of_mem_leftpad
  have hminus : '-' ∉ List.leftpad w '0' (Nat.toDigits 10 n.natAbs) :=
    fun hmem => absurd (hdigits _ hmem) (by decide)
  have hfilter := List.filter_eq_self.mpr hdigits
  have hnumber := ofDigitChars_leftpad w n.natAbs
  unfold digitPadded withSign
  by_cases hneg : n < 0
  · rw [if_pos hneg]
    refine ⟨?_, iff_of_true List.mem_cons_self hneg, fun c hc => ?_⟩
    · rw [List.filter_cons_of_neg (by decide), hfilter, hnumber]
    · rcases List.mem_cons.mp hc with hhead | htail
      · exact Or.inr (Or.inl hhead)
      · exact Or.inl (hdigits c htail)
  · rw [if_neg hneg]
    refine ⟨?_, iff_of_false hminus hneg, fun c hc => Or.inl (hdigits c hc)⟩
    rw [hfilter, hnumber]

theorem numeral_zeroPadded (w : Nat) (n : Int) : Numeral (zeroPadded w n) n :=
  numeral_digitPadded _ n

theorem numeral_spacePadded (w : Nat) (n : Int) : Numeral (spacePadded w n) n := by
  have hnum := numeral_digitPadded 0 n
  have hblank : forall k : Nat, (List.replicate k ' ').filter Char.isDigit = [] := by
    intro k
    rw [List.filter_eq_nil_iff]
    intro c hc
    rw [List.eq_of_mem_replicate hc]
    decide
  unfold spacePadded List.leftpad
  refine ⟨?_, ?_, fun c hc => ?_⟩
  · rw [List.filter_append, hblank, List.nil_append, hnum.number]
  · rw [List.mem_append, <- hnum.minus_iff]
    refine or_iff_right fun hmem => ?_
    exact absurd (List.eq_of_mem_replicate hmem) (by decide)
  · rcases List.mem_append.mp hc with hpad | hmore
    · exact Or.inr (Or.inr (List.eq_of_mem_replicate hpad))
    · exact hnum.chars c hmore

/-!
## Widths
-/

theorem leftpad_zero (c : Char) (s : List Char) : List.leftpad 0 c s = s := by
  rw [List.leftpad, Nat.zero_sub]
  rfl

theorem length_leftpad_toDigits {w n : Nat} (hw : 0 < w) (hlt : n < 10 ^ w) (c : Char) :
    (List.leftpad w c (Nat.toDigits 10 n)).length = w := by
  rw [List.length_leftpad]
  exact Nat.max_eq_left ((Nat.length_toDigits_le_iff (by decide) hw).mpr hlt)

theorem length_zeroPadded {w : Nat} {n : Int} (hw : 0 < w) (hpos : 0 <= n)
    (hlt : n.natAbs < 10 ^ w) : (zeroPadded w n).length = w := by
  have hneg : ¬ n < 0 := Int.not_lt.mpr hpos
  rw [zeroPadded, digitPadded, withSign, if_neg hneg, if_neg hneg]
  exact length_leftpad_toDigits hw hlt '0'

theorem length_spacePadded {w : Nat} {n : Int} (hw : 0 < w) (hpos : 0 <= n)
    (hlt : n.natAbs < 10 ^ w) : (spacePadded w n).length = w := by
  have hneg : ¬ n < 0 := Int.not_lt.mpr hpos
  rw [spacePadded, digitPadded, withSign, if_neg hneg, leftpad_zero]
  exact length_leftpad_toDigits hw hlt ' '

end Foundation
end MgKdb
