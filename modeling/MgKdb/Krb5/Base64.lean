import Mathlib.Data.List.Nodup
import MgKdb.Foundation.Sextet

/-!
# Tokens as text

The tokens of the handshake travel in base 64.  The encoder ends a line when it has 72
characters; the decoder reads four characters at a time, and skips what is not of its
alphabet.
-/

namespace MgKdb
namespace Base64

open Foundation

def base64Table : List UInt8 :=
  ['A', 'B', 'C', 'D', 'E', 'F', 'G', 'H', 'I', 'J', 'K', 'L', 'M', 'N', 'O', 'P', 'Q', 'R', 'S',
    'T', 'U', 'V', 'W', 'X', 'Y', 'Z', 'a', 'b', 'c', 'd', 'e', 'f', 'g', 'h', 'i', 'j', 'k', 'l',
    'm', 'n', 'o', 'p', 'q', 'r', 's', 't', 'u', 'v', 'w', 'x', 'y', 'z', '0', '1', '2', '3', '4',
    '5', '6', '7', '8', '9', '+', '/'].map Char.toUInt8

def charOf (i : UInt8) : UInt8 :=
  base64Table.getD i.toNat 0

def lineFeed : UInt8 := 10

/-- The character `=`. -/
def padChar : UInt8 := 61

/-!
## The encoder
-/

def encodedSize (len : UInt64) : UInt64 :=
  let olen := len * 4 / 3 + 4
  let olen := olen + olen / 72
  olen + 1

def lineEnd (line_len : Nat) : List UInt8 :=
  if line_len ≠ 0 then [lineFeed] else []

/-- What is written before the NUL, with so many characters in the line. -/
def encodeLoop : (line_len : Nat) -> List UInt8 -> List UInt8
  | line_len, a :: b :: c :: rest =>
      let quad := [charOf (a >>> 2), charOf ((a &&& 3) <<< 4 ||| b >>> 4),
        charOf ((b &&& 15) <<< 2 ||| c >>> 6), charOf (c &&& 63)]
      let line_len := line_len + 4
      if 72 <= line_len then quad ++ lineFeed :: encodeLoop 0 rest
      else quad ++ encodeLoop line_len rest
  | line_len, [a, b] =>
      [charOf (a >>> 2), charOf ((a &&& 3) <<< 4 ||| b >>> 4), charOf ((b &&& 15) <<< 2),
        padChar] ++ lineEnd (line_len + 4)
  | line_len, [a] =>
      [charOf (a >>> 2), charOf ((a &&& 3) <<< 4), padChar, padChar] ++ lineEnd (line_len + 4)
  | line_len, [] => lineEnd line_len

/-- With the answer of `malloc`; `none` is `NULL`. -/
def base64Encode (malloc : Bool) (src : List UInt8) : Option (List UInt8) :=
  let len := UInt64.ofNat src.length
  let olen := encodedSize len
  if olen < len then none
  else if malloc then some (encodeLoop 0 src)
  else none

/-!
## The decoder
-/

def dtable (c : UInt8) : UInt8 :=
  if c = padChar then 0
  else if c ∈ base64Table then UInt8.ofNat (base64Table.idxOf c)
  else 0x80

def inAlphabet (c : UInt8) : Bool :=
  dtable c != 0x80

def decodedSize (src : List UInt8) : Nat :=
  (src.filter inAlphabet).length / 4 * 3

def octets (b0 b1 b2 b3 : UInt8) : List UInt8 :=
  [b0 <<< 2 ||| b1 >>> 4, b1 <<< 4 ||| b2 >>> 2, b2 <<< 6 ||| b3]

structure Decoding where
  stored : Nat
  result : Option (List UInt8)
  deriving DecidableEq, Repr

/-- The second loop: `block` has fewer than four sextets, `out` what was stored. -/
def decodeLoop : List UInt8 -> (block : List UInt8) -> (pad : Nat) -> (out : List UInt8) ->
    Decoding
  | [], _, _, out => ⟨out.length, some out⟩
  | c :: rest, block, pad, out =>
      let tmp := dtable c
      if tmp = 0x80 then decodeLoop rest block pad out
      else
        let pad := if c = padChar then pad + 1 else pad
        match block with
        | [b0, b1, b2] =>
            let out := out ++ octets b0 b1 b2 tmp
            if pad = 0 then decodeLoop rest [] pad out
            else if pad = 1 then ⟨out.length, some (out.take (out.length - 1))⟩
            else if pad = 2 then ⟨out.length, some (out.take (out.length - 2))⟩
            else ⟨out.length, none⟩
        | _ => decodeLoop rest (block ++ [tmp]) pad out

/-- With the answer of `malloc`; `none` is `NULL`. -/
def base64Decode (malloc : Bool) (src : List UInt8) : Decoding :=
  let count := (src.filter inAlphabet).length
  if count = 0 ∨ count % 4 ≠ 0 then ⟨0, none⟩
  else if malloc then decodeLoop src [] 0 []
  else ⟨0, none⟩

/-!
## Room for the text
-/

theorem length_lineEnd (line_len : Nat) :
    (lineEnd line_len).length = if line_len = 0 then 0 else 1 := by
  unfold lineEnd
  by_cases h : line_len = 0
  · rw [if_pos h, if_neg (not_not.mpr h)]
    rfl
  · rw [if_neg h, if_pos h]
    rfl

theorem length_encodeLoop (line_len : Nat) (src : List UInt8) :
    line_len % 4 = 0 -> line_len < 72 ->
      (encodeLoop line_len src).length =
        (src.length + 2) / 3 * 4 + (line_len + (src.length + 2) / 3 * 4 + 71) / 72 := by
  induction line_len, src using encodeLoop.induct with
  | case1 line_len a b c rest line_len' hfull ih =>
      intro hmod hlt
      have hlen := ih (by decide) (by decide)
      have hback : line_len + 4 = 72 := by omega
      rw [encodeLoop, if_pos hfull]
      simp only [List.length_append, List.length_cons, List.length_nil, hlen]
      omega
  | case2 line_len a b c rest line_len' hfull ih =>
      intro hmod hlt
      have hlen : (encodeLoop (line_len + 4) rest).length = (rest.length + 2) / 3 * 4 +
          (line_len + 4 + (rest.length + 2) / 3 * 4 + 71) / 72 := ih (by omega) (by omega)
      rw [encodeLoop, if_neg hfull]
      simp only [List.length_append, List.length_cons, List.length_nil, hlen]
      omega
  | case3 line_len a b =>
      intro hmod hlt
      rw [encodeLoop, List.length_append, length_lineEnd, if_neg (by omega)]
      simp only [List.length_cons, List.length_nil]
      omega
  | case4 line_len a =>
      intro hmod hlt
      rw [encodeLoop, List.length_append, length_lineEnd, if_neg (by omega)]
      simp only [List.length_cons, List.length_nil]
      omega
  | case5 line_len =>
      intro hmod hlt
      rw [encodeLoop, length_lineEnd, List.length_nil]
      split <;> omega

theorem toNat_encodedSize {n : Nat} (hn : n < 2 ^ 64) :
    (encodedSize (UInt64.ofNat n)).toNat =
      (n * 4 % 2 ^ 64 / 3 + 4 + (n * 4 % 2 ^ 64 / 3 + 4) / 72 + 1) := by
  have hlen : (UInt64.ofNat n).toNat = n := UInt64.toNat_ofNat_of_lt' hn
  unfold encodedSize
  simp only [UInt64.toNat_add, UInt64.toNat_div, UInt64.toNat_mul, hlen, UInt64.reduceToNat]
  -- only the product can overflow
  have hproduct : n * 4 % 2 ^ 64 < 2 ^ 64 := Nat.mod_lt _ (by decide)
  generalize n * 4 % 2 ^ 64 = product at hproduct
  have hquads : (product / 3 + 4) % 2 ^ 64 = product / 3 + 4 := Nat.mod_eq_of_lt (by omega)
  rw [hquads]
  omega

theorem encodedSize_lt_iff {n : Nat} (hn : n < 2 ^ 64) :
    encodedSize (UInt64.ofNat n) < UInt64.ofNat n <-> 2 ^ 62 <= n := by
  have hlen : (UInt64.ofNat n).toNat = n := UInt64.toNat_ofNat_of_lt' hn
  rw [UInt64.lt_iff_toNat_lt, toNat_encodedSize hn, hlen]
  omega

/--
The encoder refuses the lengths that its `size_t` has no room for, and no others; the
text of the rest, with its NUL, fits into what it asks `malloc` for.
-/
theorem base64Encode_fits (src : List UInt8) (hlen : src.length < 2 ^ 64) :
    (base64Encode true src = none <-> 2 ^ 62 <= src.length) ∧
      forall text, base64Encode true src = some text ->
        text.length + 1 <= (encodedSize (UInt64.ofNat src.length)).toNat := by
  have hrefused := encodedSize_lt_iff hlen
  by_cases hlong : 2 ^ 62 <= src.length
  · have hnone : base64Encode true src = none := if_pos (hrefused.mpr hlong)
    refine ⟨iff_of_true hnone hlong, fun text htext => ?_⟩
    rw [hnone] at htext
    cases htext
  · have hsome : base64Encode true src = some (encodeLoop 0 src) :=
      if_neg (mt hrefused.mp hlong)
    refine ⟨iff_of_false (by rw [hsome]; exact Option.some_ne_none _) hlong, fun text htext => ?_⟩
    rw [hsome, Option.some.injEq] at htext
    rw [<- htext, length_encodeLoop 0 src rfl (by decide), toNat_encodedSize hlen]
    omega

/-- Two octets make four characters and a line feed, in a buffer of seven. -/
theorem base64Encode_fits_two :
    (base64Encode true [77, 97] = none <-> 2 ^ 62 <= 2) ∧
      forall text, base64Encode true [77, 97] = some text ->
        text.length + 1 <= (encodedSize 2).toNat :=
  base64Encode_fits [77, 97] (by decide)

example : base64Encode true [77, 97] = some [84, 87, 69, 61, 10] := by decide

end Base64
end MgKdb
