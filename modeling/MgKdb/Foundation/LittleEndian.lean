import Mathlib.Data.List.Infix
import Mathlib.Tactic.Linarith
import Mathlib.Tactic.Ring

/-!
# Little-endian words

Fixed-width machine words and their byte images, least significant byte first.
Everything is stated for an arbitrary width, so that one pair of round-trip
lemmas serves every element type of a wire format.
-/

namespace MgKdb
namespace Foundation

/-- The low `w` bytes of `n`, least significant first. -/
def leBytes : Nat -> Nat -> List UInt8
  | 0, _ => []
  | w + 1, n => UInt8.ofNat n :: leBytes w (n / 256)

def leNat : List UInt8 -> Nat
  | [] => 0
  | b :: bs => b.toNat + 256 * leNat bs

@[simp] theorem leBytes_length (w n : Nat) : (leBytes w n).length = w := by
  induction w generalizing n with
  | zero => rfl
  | succ w ih => simp [leBytes, ih]

theorem leNat_lt (bs : List UInt8) : leNat bs < 256 ^ bs.length := by
  induction bs with
  | nil => simp [leNat]
  | cons b bs ih =>
      have hb : b.toNat < 256 := b.toNat_lt
      simp only [leNat, List.length_cons, Nat.pow_succ]
      omega

theorem leNat_leBytes (w n : Nat) : leNat (leBytes w n) = n % 256 ^ w := by
  induction w generalizing n with
  | zero => simp [leBytes, leNat, Nat.mod_one]
  | succ w ih =>
      have hdigit : (UInt8.ofNat n).toNat = n % 256 := by simp
      rw [leBytes, leNat, ih, hdigit, Nat.pow_succ, Nat.mul_comm (256 ^ w),
        Nat.mod_mul]

theorem leBytes_leNat (bs : List UInt8) : leBytes bs.length (leNat bs) = bs := by
  induction bs with
  | nil => rfl
  | cons b bs ih =>
      have hb : b.toNat < 256 := b.toNat_lt
      have hdiv : (b.toNat + 256 * leNat bs) / 256 = leNat bs := by omega
      have hdigit : UInt8.ofNat (b.toNat + 256 * leNat bs) = b := by
        apply UInt8.toNat_inj.mp
        simp only [UInt8.toNat_ofNat']
        omega
      simp only [leNat, List.length_cons, leBytes, hdiv, hdigit, ih]

theorem leBytes_mod (w n : Nat) : leBytes w (n % 256 ^ w) = leBytes w n := by
  have h := leBytes_leNat (leBytes w n)
  rwa [leBytes_length, leNat_leBytes] at h

theorem leBytes_inj {w m n : Nat} (hm : m < 256 ^ w) (hn : n < 256 ^ w)
    (h : leBytes w m = leBytes w n) : m = n := by
  have hnat := congrArg leNat h
  rwa [leNat_leBytes, leNat_leBytes, Nat.mod_eq_of_lt hm, Nat.mod_eq_of_lt hn] at hnat

/-!
## Words

A word of `w` bytes is a bit vector of width `8 * w`.
-/

def wordBytes (w : Nat) (x : BitVec (8 * w)) : List UInt8 :=
  leBytes w x.toNat

def wordAt (w : Nat) (bs : List UInt8) : BitVec (8 * w) :=
  BitVec.ofNat (8 * w) (leNat (bs.take w))

theorem two_pow_eight_mul (w : Nat) : 2 ^ (8 * w) = 256 ^ w := by
  rw [Nat.pow_mul]

@[simp] theorem wordBytes_length (w : Nat) (x : BitVec (8 * w)) :
    (wordBytes w x).length = w :=
  leBytes_length w x.toNat

theorem wordAt_wordBytes_append (w : Nat) (x : BitVec (8 * w))
    (tail : List UInt8) : wordAt w (wordBytes w x ++ tail) = x := by
  have htake : (wordBytes w x ++ tail).take w = wordBytes w x :=
    List.take_left' (wordBytes_length w x)
  have hlt : x.toNat < 256 ^ w := by
    have h := x.isLt
    rwa [two_pow_eight_mul] at h
  apply BitVec.eq_of_toNat_eq
  rw [wordAt, htake, BitVec.toNat_ofNat, wordBytes, leNat_leBytes,
    two_pow_eight_mul, Nat.mod_mod, Nat.mod_eq_of_lt hlt]

theorem wordBytes_wordAt {w : Nat} {bs : List UInt8} (h : w <= bs.length) :
    wordBytes w (wordAt w bs) = bs.take w := by
  have hlen : (bs.take w).length = w := by simp [h]
  have hlt : leNat (bs.take w) < 256 ^ w := by
    have hl := leNat_lt (bs.take w)
    rwa [hlen] at hl
  rw [wordBytes, wordAt, BitVec.toNat_ofNat, two_pow_eight_mul,
    Nat.mod_eq_of_lt hlt]
  have hback := leBytes_leNat (bs.take w)
  rwa [hlen] at hback

theorem wordBytes_inj {w : Nat} {x y : BitVec (8 * w)}
    (h : wordBytes w x = wordBytes w y) : x = y := by
  have hx := wordAt_wordBytes_append w x []
  rw [h, wordAt_wordBytes_append] at hx
  exact hx.symm

theorem wordAt_of_front {w : Nat} {bs tail : List UInt8} {x : BitVec (8 * w)}
    (hlen : w <= bs.length) (hpre : bs <+: wordBytes w x ++ tail) :
    wordAt w bs = x := by
  rcases hpre with ⟨suffix, hs⟩
  have htake : bs.take w = (wordBytes w x ++ tail).take w := by
    rw [← hs, List.take_append_of_le_length hlen]
  have hx := wordAt_wordBytes_append w x tail
  unfold wordAt at hx ⊢
  rw [htake, hx]

/-!
## Runs of words
-/

def wordsBytes (w : Nat) (xs : List (BitVec (8 * w))) : List UInt8 :=
  xs.flatMap (wordBytes w)

def wordsAt (w : Nat) : Nat -> List UInt8 -> List (BitVec (8 * w))
  | 0, _ => []
  | n + 1, bs => wordAt w bs :: wordsAt w n (bs.drop w)

@[simp] theorem wordsBytes_nil (w : Nat) : wordsBytes w [] = [] := rfl

@[simp] theorem wordsBytes_cons (w : Nat) (x : BitVec (8 * w))
    (xs : List (BitVec (8 * w))) :
    wordsBytes w (x :: xs) = wordBytes w x ++ wordsBytes w xs := rfl

theorem wordsBytes_append (w : Nat) (xs ys : List (BitVec (8 * w))) :
    wordsBytes w (xs ++ ys) = wordsBytes w xs ++ wordsBytes w ys :=
  List.flatMap_append

@[simp] theorem wordsBytes_length (w : Nat) (xs : List (BitVec (8 * w))) :
    (wordsBytes w xs).length = w * xs.length := by
  induction xs with
  | nil => simp
  | cons x xs ih =>
      simp only [wordsBytes_cons, List.length_append, wordBytes_length, ih,
        List.length_cons]
      ring

@[simp] theorem wordsAt_length (w n : Nat) (bs : List UInt8) :
    (wordsAt w n bs).length = n := by
  induction n generalizing bs with
  | zero => rfl
  | succ n ih => simp [wordsAt, ih]

theorem wordsBytes_wordsAt {w n : Nat} {bs : List UInt8} (h : w * n <= bs.length) :
    wordsBytes w (wordsAt w n bs) = bs.take (w * n) := by
  induction n generalizing bs with
  | zero => rw [Nat.mul_zero, List.take_zero]; rfl
  | succ n ih =>
      rw [Nat.mul_succ] at h
      rw [wordsAt, wordsBytes_cons, wordBytes_wordAt (by omega),
        ih (by rw [List.length_drop]; omega), Nat.mul_succ, Nat.add_comm (w * n),
        List.take_add]

theorem wordsBytes_append_inj {w : Nat} {vec : List (BitVec (8 * w))} :
    forall {vec' : List (BitVec (8 * w))} {xs ys : List UInt8},
      vec.length = vec'.length -> wordsBytes w vec ++ xs = wordsBytes w vec' ++ ys ->
      vec = vec' ∧ xs = ys := by
  induction vec with
  | nil =>
      intro vec' xs ys hlen h
      rw [List.eq_nil_of_length_eq_zero hlen.symm] at h ⊢
      exact ⟨rfl, h⟩
  | cons x vec ih =>
      intro vec' xs ys hlen h
      cases vec' with
      | nil => cases hlen
      | cons x' vec' =>
          rw [wordsBytes_cons, wordsBytes_cons, List.append_assoc, List.append_assoc] at h
          rcases List.append_inj h (by rw [wordBytes_length, wordBytes_length]) with
            ⟨hhead, htail⟩
          rcases ih (Nat.succ.inj hlen) htail with ⟨hvec, hrest⟩
          exact ⟨by rw [wordBytes_inj hhead, hvec], hrest⟩

theorem wordsBytes_drop (w i : Nat) (xs : List (BitVec (8 * w))) :
    (wordsBytes w xs).drop (w * i) = wordsBytes w (xs.drop i) := by
  induction i generalizing xs with
  | zero => simp
  | succ i ih =>
      cases xs with
      | nil => simp
      | cons x xs =>
          have hsplit : w * (i + 1) = w + w * i := by ring
          rw [hsplit, ← List.drop_drop, wordsBytes_cons,
            List.drop_left' (wordBytes_length w x), ih, List.drop_succ_cons]

/--
Reading whole words out of a buffer that agrees with the image of `xs` as
far as it goes gives the words of `xs` themselves.
-/
theorem wordsAt_of_front {w n : Nat} {xs : List (BitVec (8 * w))}
    {bs tail : List UInt8} (hn : n <= xs.length) (hlen : w * n <= bs.length)
    (hpre : bs <+: wordsBytes w xs ++ tail) :
    wordsAt w n bs = xs.take n := by
  induction n generalizing xs bs with
  | zero => rfl
  | succ n ih =>
      cases xs with
      | nil => simp at hn
      | cons x xs =>
          rw [wordsBytes_cons, List.append_assoc] at hpre
          have hw : w <= bs.length := by
            have hle : w * 1 <= w * (n + 1) := Nat.mul_le_mul_left w (by omega)
            omega
          have hdrop : bs.drop w <+: wordsBytes w xs ++ tail := by
            have h := hpre.drop w
            rwa [List.drop_left' (wordBytes_length w x)] at h
          have hrest : w * n <= (bs.drop w).length := by
            rw [List.length_drop]
            rw [Nat.mul_succ] at hlen
            omega
          rw [wordsAt, wordAt_of_front hw hpre,
            ih (by simpa using hn) hrest hdrop, List.take_succ_cons]

end Foundation
end MgKdb
