import Mathlib.Data.List.Infix

/-!
# NUL-terminated text

C strings on the wire: text without a zero byte, closed by one.  The lemmas say
what a bounded length scan finds in a buffer that holds such a string, and in a
buffer that holds only the front of one.
-/

namespace MgKdb
namespace Foundation

def NulFree (s : List UInt8) : Prop :=
  (0 : UInt8) ∉ s

instance (s : List UInt8) : Decidable (NulFree s) :=
  inferInstanceAs (Decidable ((0 : UInt8) ∉ s))

structure NulText where
  text : List UInt8
  nulFree : NulFree text
  deriving DecidableEq

namespace NulText

def bytes (s : NulText) : List UInt8 :=
  s.text ++ [0]

@[simp] theorem bytes_length (s : NulText) :
    s.bytes.length = s.text.length + 1 := by
  simp [bytes]

theorem eq_of_text {s t : NulText} (h : s.text = t.text) : s = t := by
  cases s
  cases t
  cases h
  rfl

end NulText

/-- The number of bytes before the first NUL, looking at `max` bytes at most. -/
def strnlen (bs : List UInt8) (max : Nat) : Nat :=
  ((bs.take max).takeWhile (fun b => b != 0)).length

theorem takeWhile_nulFree {s : List UInt8} (h : NulFree s) (tail : List UInt8) :
    (s ++ 0 :: tail).takeWhile (fun b => b != 0) = s := by
  induction s with
  | nil => rfl
  | cons b s ih =>
      have hb : b ≠ 0 := fun hz => h (by simp [hz])
      have hs : NulFree s := fun hz => h (List.mem_cons_of_mem b hz)
      simp [hb, ih hs]

theorem takeWhile_eq_self_of_nulFree {s : List UInt8} (h : NulFree s) :
    s.takeWhile (fun b => b != 0) = s := by
  induction s with
  | nil => rfl
  | cons b s ih =>
      have hb : b ≠ 0 := fun hz => h (by simp [hz])
      have hs : NulFree s := fun hz => h (List.mem_cons_of_mem b hz)
      simp [hb, ih hs]

theorem strnlen_le_length (bs : List UInt8) (max : Nat) :
    strnlen bs max <= bs.length := by
  have h := (List.takeWhile_prefix (fun b => b != 0) (l := bs.take max)).length_le
  have ht := List.length_take_le max bs
  unfold strnlen
  rw [List.length_take] at h
  omega

@[simp] theorem strnlen_nil (max : Nat) : strnlen [] max = 0 := by
  simp [strnlen]

@[simp] theorem strnlen_zero (bs : List UInt8) : strnlen bs 0 = 0 := by
  simp [strnlen]

theorem strnlen_cons (b : UInt8) (bs : List UInt8) (max : Nat) :
    strnlen (b :: bs) (max + 1) = if b = 0 then 0 else strnlen bs max + 1 := by
  by_cases hb : b = 0 <;> simp [strnlen, hb]

theorem strnlen_spec (bs : List UInt8) :
    forall max : Nat, strnlen bs max <= max ∧ NulFree (bs.take (strnlen bs max)) ∧
      (strnlen bs max < min max bs.length -> bs[strnlen bs max]? = some 0) := by
  induction bs with
  | nil => simp [NulFree]
  | cons b bs ih =>
      intro max
      cases max with
      | zero => simp [NulFree]
      | succ max =>
          rcases ih max with ⟨hle, hfree, hstop⟩
          rw [strnlen_cons]
          by_cases hb : b = 0
          · simp [hb, NulFree]
          · rw [if_neg hb]
            refine ⟨by omega, ?_, ?_⟩
            · rw [List.take_succ_cons]
              intro hmem
              rcases List.mem_cons.mp hmem with hhead | htail
              · exact hb hhead.symm
              · exact hfree htail
            · intro hlt
              rw [List.getElem?_cons_succ]
              rw [List.length_cons] at hlt
              exact hstop (by omega)

theorem exists_nulText {bs : List UInt8} (h : bs.length ≠ strnlen bs bs.length) :
    exists t : NulText, bs.take (strnlen bs bs.length) = t.text ∧
      bs.take (strnlen bs bs.length + 1) = t.bytes := by
  rcases strnlen_spec bs bs.length with ⟨hle, hfree, hstop⟩
  refine ⟨⟨bs.take (strnlen bs bs.length), hfree⟩, rfl, ?_⟩
  rw [List.take_add_one, hstop (by omega), Option.toList_some]
  rfl

theorem NulText.bytes_append_inj {s t : NulText} {xs ys : List UInt8}
    (h : s.bytes ++ xs = t.bytes ++ ys) : s = t ∧ xs = ys := by
  rw [bytes, bytes, List.append_assoc, List.append_assoc, List.singleton_append,
    List.singleton_append] at h
  have htext : s.text = t.text := by
    rw [← takeWhile_nulFree s.nulFree xs, h, takeWhile_nulFree t.nulFree]
  rw [htext] at h
  exact ⟨eq_of_text htext, (List.cons.inj (List.append_cancel_left h)).right⟩

theorem strnlen_lt_iff {bs : List UInt8} :
    strnlen bs bs.length < bs.length <-> 0 ∈ bs := by
  rcases strnlen_spec bs bs.length with ⟨_, hfree, hstop⟩
  constructor
  · intro h
    exact List.mem_of_getElem? (hstop (by omega))
  · intro h
    by_contra hge
    rw [List.take_of_length_le (by omega)] at hfree
    exact hfree h

theorem strnlen_terminated {s : List UInt8} (h : NulFree s) (tail : List UInt8)
    {max : Nat} (hmax : s.length < max) :
    strnlen (s ++ 0 :: tail) max = s.length := by
  have htake : (s ++ 0 :: tail).take max =
      s ++ 0 :: tail.take (max - s.length - 1) := by
    have hsplit : max = s.length + ((max - s.length - 1) + 1) := by omega
    rw [hsplit, List.take_length_add_append, List.take_succ_cons]
    congr 4
    omega
  rw [strnlen, htake, takeWhile_nulFree h]

theorem strnlen_unterminated {bs : List UInt8} (h : NulFree bs) :
    strnlen bs bs.length = bs.length := by
  rw [strnlen, List.take_length, takeWhile_eq_self_of_nulFree h]

theorem nulFree_of_front {bs s tail : List UInt8} (h : NulFree s)
    (hpre : bs <+: s ++ 0 :: tail) (hlen : bs.length <= s.length) :
    NulFree bs := by
  have hbs : bs <+: s := by
    have hs : s <+: s ++ 0 :: tail := List.prefix_append s _
    exact List.prefix_of_prefix_length_le hpre hs hlen
  intro hz
  exact h (hbs.subset hz)

theorem strnlen_of_front {bs s tail : List UInt8} (h : NulFree s)
    (hpre : bs <+: s ++ 0 :: tail) (hlen : s.length < bs.length) :
    strnlen bs bs.length = s.length := by
  rcases hpre with ⟨suffix, hs⟩
  have htake : bs = s ++ 0 :: (bs.drop (s.length + 1)) := by
    have hfront : bs.take (s.length + 1) = s ++ [0] := by
      have h1 : bs.take (s.length + 1) =
          (s ++ 0 :: tail).take (s.length + 1) := by
        rw [← hs, List.take_append_of_le_length hlen]
      rw [h1, List.take_length_add_append]
      rfl
    have hsplit := List.take_append_drop (s.length + 1) bs
    rw [hfront] at hsplit
    simpa using hsplit.symm
  rw [htake]
  apply strnlen_terminated h
  simp

theorem take_of_front {α : Type} {bs xs tail : List α} (hpre : bs <+: xs ++ tail)
    (hlen : xs.length <= bs.length) : bs.take xs.length = xs := by
  have hxs : xs <+: bs :=
    List.prefix_of_prefix_length_le (List.prefix_append xs tail) hpre hlen
  exact (List.prefix_iff_eq_take.mp hxs).symm

theorem NulText.strnlen_of_front (s : NulText) {bs tail : List UInt8}
    (hpre : bs <+: s.bytes ++ tail) :
    strnlen bs bs.length = min s.text.length bs.length := by
  rw [NulText.bytes, List.append_assoc] at hpre
  by_cases hlen : s.text.length < bs.length
  · rw [Foundation.strnlen_of_front s.nulFree hpre hlen]
    omega
  · rw [strnlen_unterminated (nulFree_of_front s.nulFree hpre (by omega))]
    omega

theorem NulText.take_of_front (s : NulText) {bs tail : List UInt8}
    (hpre : bs <+: s.bytes ++ tail) (hlen : s.text.length <= bs.length) :
    bs.take s.text.length = s.text := by
  rw [NulText.bytes, List.append_assoc] at hpre
  exact Foundation.take_of_front hpre hlen

/-!
## Texts nose to tail
-/

theorem nulFree_takeWhile (bs : List UInt8) : NulFree (bs.takeWhile (fun b => b != 0)) := by
  induction bs with
  | nil => exact List.not_mem_nil
  | cons b bs ih =>
      by_cases hb : b = 0
      · simp [hb, NulFree]
      · simp only [NulFree, List.takeWhile_cons, bne_iff_ne, ne_eq, hb, not_false_eq_true,
          if_true, List.mem_cons, not_or]
        exact ⟨fun h => hb h.symm, ih⟩

/-- The terminated texts at the front of some bytes, `n` at most. -/
def leadingTexts : Nat -> List UInt8 -> List NulText
  | 0, _ => []
  | n + 1, bs =>
      if 0 ∈ bs then
        ⟨bs.takeWhile (fun b => b != 0), nulFree_takeWhile bs⟩ ::
          leadingTexts n (bs.drop ((bs.takeWhile (fun b => b != 0)).length + 1))
      else []

theorem leadingTexts_succ {bs : List UInt8} (n : Nat) {t : NulText}
    (hbytes : bs.take (strnlen bs bs.length + 1) = t.bytes) :
    leadingTexts (n + 1) bs =
      t :: leadingTexts n (bs.drop (strnlen bs bs.length + 1)) := by
  have hsplit := List.take_append_drop (strnlen bs bs.length + 1) bs
  rw [hbytes, NulText.bytes, List.append_assoc, List.singleton_append] at hsplit
  have hmem : (0 : UInt8) ∈ bs := by
    rw [← hsplit]
    simp
  have htext : bs.takeWhile (fun b => b != 0) = t.text := by
    rw [← hsplit]
    exact takeWhile_nulFree t.nulFree _
  have hscan : strnlen bs bs.length = (bs.takeWhile (fun b => b != 0)).length := by
    rw [strnlen, List.take_length]
  rw [leadingTexts, if_pos hmem, ← hscan]
  exact congrArg (fun u => u :: _) (NulText.eq_of_text htext)

theorem leadingTexts_of_nulFree {bs : List UInt8} (h : NulFree bs) (n : Nat) :
    leadingTexts n bs = [] := by
  cases n with
  | zero => rfl
  | succ n => rw [leadingTexts, if_neg h]

theorem leadingTexts_length_le (n : Nat) : forall bs : List UInt8,
    (leadingTexts n bs).length <= n := by
  induction n with
  | zero =>
      intro bs
      exact Nat.le_refl _
  | succ n ih =>
      intro bs
      rw [leadingTexts]
      split
      · exact Nat.succ_le_succ (ih _)
      · exact Nat.zero_le _

/-!
## Comparing strings
-/

/-- `strncmp`: the difference of the first bytes that differ, up to a terminator. -/
def strncmp : List UInt8 -> List UInt8 -> Nat -> Int
  | _, _, 0 => 0
  | s, t, n + 1 =>
      if s.headD 0 ≠ t.headD 0 then (s.headD 0).toNat - (t.headD 0).toNat
      else if s.headD 0 = 0 then 0
      else strncmp s.tail t.tail n

theorem sub_toNat_ne_zero {b c : UInt8} (h : b ≠ c) : (b.toNat : Int) - c.toNat ≠ 0 := by
  intro hzero
  exact h (UInt8.toNat_inj.mp (by omega))

theorem strncmp_eq_zero {s t : List UInt8} (hs : NulFree s) (ht : NulFree t)
    (xs ys : List UInt8) :
    strncmp (s ++ 0 :: xs) (t ++ 0 :: ys) (t.length + 1) = 0 <-> s = t := by
  induction t generalizing s with
  | nil =>
      cases s with
      | nil => simp [strncmp]
      | cons b s =>
          have hb : b ≠ 0 := fun h => hs (by rw [h]; exact List.mem_cons_self)
          simpa [strncmp, hb] using sub_toNat_ne_zero hb
  | cons c t ih =>
      have hc : c ≠ 0 := fun h => ht (by rw [h]; exact List.mem_cons_self)
      cases s with
      | nil => simpa [strncmp, hc.symm] using sub_toNat_ne_zero hc.symm
      | cons b s =>
          have hmore := ih (s := s) (fun h => hs (List.mem_cons_of_mem b h))
            (fun h => ht (List.mem_cons_of_mem c h))
          rw [List.cons_append, List.cons_append, List.length_cons, strncmp, List.headD_cons,
            List.headD_cons, List.tail_cons, List.tail_cons]
          by_cases hbc : b = c
          · rw [if_neg (by simp [hbc]), if_neg (by rw [hbc]; exact hc), hmore, hbc]
            simp
          · rw [if_pos hbc]
            simpa [hbc] using sub_toNat_ne_zero hbc

end Foundation
end MgKdb
