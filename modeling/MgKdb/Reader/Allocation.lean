import MgKdb.Reader.Fuel
import MgKdb.Wire.Spelling

/-!
# Allocation from an encoding

From the first bytes of an encoded value `newInstance` builds an empty
object of the value's class, and from fewer bytes nothing at all.
-/

namespace MgKdb

open Foundation

namespace KVal

def newBytes : KVal -> Nat
  | exception _ | atom _ _ | symbolAtom _ | dict _ _ | primitive _ _ => 1
  | list _ _ | vector _ _ _ | symbolVector _ _ => 6
  | table _ _ _ _ => 3
  | function _ => 8
  | projection _ => 5

def newObj : KVal -> KdbBase
  | exception _ => .exception []
  | atom e _ => .atom e 0
  | symbolAtom _ => .symbolAtom []
  | list attr vals => .list vals.length attr []
  | vector e attr vec => .vector e vec.length attr []
  | symbolVector attr syms => .symbolVector syms.length attr [] []
  | table _ _ _ _ => .table none none
  | dict _ _ => .dict none none
  | function text => .function text.length []
  | primitive arity _ => .primitive arity 0
  | projection parts => .projection parts.length []

theorem newBytes_pos (v : KVal) : 0 < v.newBytes := by
  cases v <;> simp [newBytes]

theorem newObj_typ (v : KVal) : v.newObj.typ = v.obj.typ := by
  cases v <;> simp [newObj, obj, KdbBase.typ]

end KVal

/-!
## Headers
-/

namespace ReadBuf

theorem peekI8_of_front {b : ReadBuf} {x : UInt8} {bs : List UInt8}
    (hpos : 0 < b.remaining) (hpre : b.rest <+: x :: bs) : b.peekI8 = x := by
  unfold remaining at hpos
  unfold peekI8
  cases hrest : b.rest with
  | nil =>
      rw [hrest] at hpos
      simp at hpos
  | cons y ys =>
      rw [hrest] at hpre
      exact (List.cons_prefix_cons.mp hpre).left

theorem canRead_eq (b : ReadBuf) (n : Nat) :
    b.canRead n = false <-> ¬ n <= b.remaining := by
  simp [canRead]

theorem readI8_fst (b : ReadBuf) : b.readI8.1 = b.peekI8 := rfl

theorem readI8_snd (b : ReadBuf) : b.readI8.2 = b.adj 1 := rfl

theorem readI32_snd (b : ReadBuf) : b.readI32.2 = b.adj 4 := rfl

theorem readI32_adj_of_front {b : ReadBuf} (hdr : List UInt8) {tail : List UInt8}
    {n : Nat} (hlen : hdr.length + 4 <= b.remaining)
    (hpre : b.rest <+: hdr ++ (leBytes 4 n ++ tail)) :
    (b.adj hdr.length).readI32.1 = i32 n := by
  have hrest : (b.adj hdr.length).rest <+: leBytes 4 n ++ tail := by
    have hdrop := hpre.drop hdr.length
    rwa [List.drop_left] at hdrop
  refine i32At_of_front ?_ hrest
  rw [adj_rest, List.length_drop]
  unfold remaining at hlen
  omega

theorem readI32_of_front {b : ReadBuf} (hdr : List UInt8) {tail : List UInt8}
    {n : Nat} (hn : n < 2 ^ 31) (hlen : hdr.length + 4 <= b.remaining)
    (hpre : b.rest <+: hdr ++ (leBytes 4 n ++ tail)) :
    (b.adj hdr.length).readI32.1 = n := by
  rw [readI32_adj_of_front hdr hlen hpre, i32_of_lt hn]

theorem peekI8_adj_of_front {b : ReadBuf} (hdr : List UInt8) {bs : List UInt8}
    {x : UInt8} (hlen : hdr.length < b.remaining) (hpre : b.rest <+: hdr ++ x :: bs) :
    (b.adj hdr.length).peekI8 = x := by
  have hdrop : (b.adj hdr.length).rest <+: x :: bs := by
    have h := hpre.drop hdr.length
    rwa [List.drop_left] at h
  refine peekI8_of_front ?_ hdrop
  rw [adj_remaining]
  omega

end ReadBuf

/-!
## Every class
-/

theorem newVec32_of_front {b : ReadBuf} {t : KdbType} {attr : UInt8} {n : Nat}
    {tail : List UInt8} (mk : Nat -> UInt8 -> KdbBase) (hn : n < 2 ^ 31)
    (hpre : b.rest <+: KVal.vecHdr t attr n ++ tail) :
    newVec32 b mk =
      if 6 <= b.remaining then (.ok (mk n attr), b.adj 6)
      else (.error .incomplete, b) := by
  unfold newVec32
  by_cases hle : 6 <= b.remaining
  · have hattr : (b.adj 1).peekI8 = attr :=
      ReadBuf.peekI8_adj_of_front [t.i8] (by simp; omega) hpre
    have hlen : (b.adj 2).readI32.1 = n :=
      ReadBuf.readI32_of_front [t.i8, attr] hn (by simp; omega) hpre
    rw [if_neg (by rw [ReadBuf.canRead_eq]; omega), if_pos hle]
    simp only [ReadBuf.readI8_fst, ReadBuf.readI8_snd, ReadBuf.readI32_snd,
      ReadBuf.adj_adj, Nat.reduceAdd, hattr, hlen]
    rw [if_neg (by omega), Int.toNat_natCast]
  · rw [if_pos (by rw [ReadBuf.canRead_eq]; omega), if_neg hle]

theorem functionAlloc_of_front {b : ReadBuf} {ctx attr : UInt8} {n : Nat}
    {tail : List UInt8} (hcsr : 0 <= b.csr) (hn : n < 2 ^ 31)
    (hpre : b.rest <+:
      (KdbType.function.i8 :: ctx :: KVal.vecHdr .charVector attr n) ++ tail) :
    KdbFunction.alloc b =
      if 8 <= b.remaining then (.ok (.function n []), b.adj 8)
      else (.error .incomplete, b) := by
  unfold KdbFunction.alloc
  rw [ReadBuf.cursorActive_of_nonneg hcsr, if_pos rfl]
  by_cases hle : 8 <= b.remaining
  · have htyp : (b.adj 2).peekI8 = KdbType.charVector.i8 :=
      ReadBuf.peekI8_adj_of_front [KdbType.function.i8, ctx]
        (by simp; omega) hpre
    have hlen : (b.adj 4).readI32.1 = n :=
      ReadBuf.readI32_of_front
        [KdbType.function.i8, ctx, KdbType.charVector.i8, attr] hn (by simp; omega)
        hpre
    rw [if_neg (by rw [ReadBuf.canRead_eq]; omega), if_pos hle]
    simp only [ReadBuf.readI8_fst, ReadBuf.readI8_snd, ReadBuf.readI32_snd,
      ReadBuf.adj_adj, Nat.reduceAdd, htyp, hlen, KdbType.ofI8_i8]
    rw [if_neg (by simp), Int.toNat_natCast]
  · rw [if_pos (by rw [ReadBuf.canRead_eq]; omega), if_neg hle]

theorem projectionAlloc_of_front {b : ReadBuf} {n : Nat} {tail : List UInt8}
    (hn : n < 2 ^ 31) (hpre : b.rest <+: KVal.projectionHdr n ++ tail) :
    KdbProjection.alloc b =
      if 5 <= b.remaining then (.ok (.projection n []), b.adj 5)
      else (.error .incomplete, b) := by
  unfold KdbProjection.alloc
  by_cases hle : 5 <= b.remaining
  · have hlen : (b.adj 1).readI32.1 = n :=
      ReadBuf.readI32_of_front [KdbType.projection.i8] hn (by simp; omega) hpre
    rw [if_neg (by rw [ReadBuf.canRead_eq]; omega), if_pos hle]
    simp only [ReadBuf.readI8_snd, ReadBuf.readI32_snd, ReadBuf.adj_adj, hlen]
    rw [if_neg (by omega), Int.toNat_natCast]
  · rw [if_pos (by rw [ReadBuf.canRead_eq]; omega), if_neg hle]

theorem tableAlloc_eq (b : ReadBuf) :
    KdbTable.alloc b =
      if 3 <= b.remaining then (.ok (.table none none), b.adj 3)
      else (.error .incomplete, b) := by
  unfold KdbTable.alloc
  by_cases hle : 3 <= b.remaining
  · rw [if_neg (by rw [ReadBuf.canRead_eq]; omega), if_pos hle]
    simp only [ReadBuf.readI8_snd, ReadBuf.adj_adj]
  · rw [if_pos (by rw [ReadBuf.canRead_eq]; omega), if_neg hle]

theorem newInstanceOf_vectorTyp (e : Elem) (b : ReadBuf) :
    newInstanceOf (some e.vectorTyp) b =
      newVec32 b (fun cap att => .vector e cap att []) := by
  cases e <;> rfl

theorem newInstanceOf_atomTyp (e : Elem) (b : ReadBuf) :
    newInstanceOf (some e.atomTyp) b = newAtomFromType b (.atom e 0) := by
  cases e <;> rfl

theorem newInstanceOf_arity (arity : Arity) (b : ReadBuf) :
    newInstanceOf (some arity.typ) b = newAtomFromType b (.primitive arity 0) := by
  cases arity <;> rfl

theorem newInstance_of_spelling {s : Spelling} {b : ReadBuf} {tail : List UInt8}
    (hcsr : 0 <= b.csr) (hfit : s.value.CountsFit)
    (hpre : b.rest <+: s.bytes ++ tail) :
    newInstance b =
      if s.value.newBytes <= b.remaining then (.ok s.value.newObj, b.adj s.value.newBytes)
      else (.error .incomplete, b) := by
  unfold newInstance
  rw [ReadBuf.cursorActive_of_nonneg hcsr, if_pos rfl]
  have hnew := s.value.newBytes_pos
  by_cases hpos : 0 < b.remaining
  · rw [if_neg (by rw [ReadBuf.canRead_eq]; omega)]
    have hpeek : KdbType.ofI8 b.peekI8 = some s.typ := by
      rcases s.bytes_cons with ⟨bs, hbs⟩
      rw [hbs] at hpre
      rw [ReadBuf.peekI8_of_front hpos hpre, KdbType.ofI8_i8]
    rw [hpeek]
    cases s with
    | exception msg => exact (if_pos hpos).symm
    | atom e val => exact (newInstanceOf_atomTyp e b).trans (if_pos hpos).symm
    | symbolAtom val => exact (if_pos hpos).symm
    | list attr parts =>
        rw [Spelling.value, KVal.CountsFit, Spelling.valueAll_length] at hfit
        rw [Spelling.bytes, List.append_assoc] at hpre
        rw [Spelling.value, KVal.newObj, Spelling.valueAll_length]
        exact newVec32_of_front (fun cap att => .list cap att []) hfit.left hpre
    | vector e attr vec =>
        rw [Spelling.bytes, List.append_assoc] at hpre
        exact (newInstanceOf_vectorTyp e b).trans
          (newVec32_of_front (fun cap att => .vector e cap att []) hfit hpre)
    | symbolVector attr syms =>
        rw [Spelling.bytes, List.append_assoc] at hpre
        exact newVec32_of_front (fun cap att => .symbolVector cap att [] []) hfit
          hpre
    | table attr typ colsAttr cols valsAttr parts => exact tableAlloc_eq b
    | dict step keys vals =>
        cases step
        · exact (if_pos hpos).symm
        · exact (if_pos hpos).symm
    | function ctx attr text =>
        rw [Spelling.bytes, List.append_assoc] at hpre
        exact functionAlloc_of_front hcsr hfit hpre
    | primitive arity val => exact (newInstanceOf_arity arity b).trans (if_pos hpos).symm
    | projection parts =>
        rw [Spelling.value, KVal.CountsFit, Spelling.valueAll_length] at hfit
        rw [Spelling.bytes, List.append_assoc] at hpre
        rw [Spelling.value, KVal.newObj, Spelling.valueAll_length]
        exact projectionAlloc_of_front hfit.left hpre
  · rw [if_pos (by rw [ReadBuf.canRead_eq]; omega), if_neg (by omega)]

/-!
## A shorter buffer
-/

/--
`Scales alloc b o n`: from the buffer `b` the object `o` is
allocated with `n` bytes, and any buffer that shows only the front of
`b` gives the same object, or nothing when the `n` bytes are not there.
-/
def Scales (alloc : ReadBuf -> NewOut) (b : ReadBuf) (o : KdbBase) (n : Nat) : Prop :=
  0 < n ∧ n <= b.remaining ∧ forall c : ReadBuf, c.rest <+: b.rest -> 0 <= c.csr ->
    0 < c.remaining -> alloc c =
      if n <= c.remaining then (.ok o, c.adj n) else (.error .incomplete, c)

theorem newAtomFromType_scales {b b1 : ReadBuf} {o : KdbBase} {mk : KdbBase}
    (hpos : 0 < b.remaining) (h : newAtomFromType b mk = (.ok o, b1)) :
    Scales (fun c => newAtomFromType c mk) b o 1 := by
  cases h
  refine ⟨Nat.one_pos, hpos, ?_⟩
  intro c _hpre _hcsr hc
  rw [if_pos (Nat.succ_le_of_lt hc)]
  rfl

theorem newVec32_scales {b b1 : ReadBuf} {o : KdbBase}
    {mk : Nat -> UInt8 -> KdbBase} (h : newVec32 b mk = (.ok o, b1)) :
    Scales (fun c => newVec32 c mk) b o 6 := by
  unfold newVec32 at h
  split at h
  · cases h
  · rename_i hread
    rw [ReadBuf.canRead_eq, not_not] at hread
    simp only [ReadBuf.readI8_fst, ReadBuf.readI8_snd, ReadBuf.readI32_snd,
      ReadBuf.adj_adj, Nat.reduceAdd] at h
    split at h
    · cases h
    · rename_i hlen
      cases h
      refine ⟨by omega, hread, ?_⟩
      intro c hpre _hcsr _hpos
      simp only [newVec32]
      by_cases hc : 6 <= c.remaining
      · rw [if_neg (by rw [ReadBuf.canRead_eq]; omega), if_pos hc]
        simp only [ReadBuf.readI8_fst, ReadBuf.readI8_snd, ReadBuf.readI32_snd,
          ReadBuf.adj_adj, Nat.reduceAdd]
        rw [ReadBuf.readI32_adj_of_shorter hpre (by omega),
          ReadBuf.peekI8_adj_of_shorter hpre (by omega), if_neg hlen]
      · rw [if_pos (by rw [ReadBuf.canRead_eq]; omega), if_neg hc]

theorem tableAlloc_scales {b b1 : ReadBuf} {o : KdbBase}
    (h : KdbTable.alloc b = (.ok o, b1)) : Scales KdbTable.alloc b o 3 := by
  rw [tableAlloc_eq] at h
  split at h
  · rename_i hread
    cases h
    exact ⟨by omega, hread, fun c _hpre _hcsr _hpos => tableAlloc_eq c⟩
  · cases h

theorem functionAlloc_scales {b b1 : ReadBuf} {o : KdbBase} (hcsr : 0 <= b.csr)
    (h : KdbFunction.alloc b = (.ok o, b1)) : Scales KdbFunction.alloc b o 8 := by
  unfold KdbFunction.alloc at h
  rw [ReadBuf.cursorActive_of_nonneg hcsr, if_pos rfl] at h
  split at h
  · cases h
  · rename_i hread
    rw [ReadBuf.canRead_eq, not_not] at hread
    simp only [ReadBuf.readI8_fst, ReadBuf.readI8_snd, ReadBuf.readI32_snd,
      ReadBuf.adj_adj, Nat.reduceAdd] at h
    split at h
    · cases h
    · rename_i hlen
      cases h
      refine ⟨by omega, hread, ?_⟩
      intro c hpre hcsr' _hpos
      unfold KdbFunction.alloc
      rw [ReadBuf.cursorActive_of_nonneg hcsr', if_pos rfl]
      by_cases hc : 8 <= c.remaining
      · rw [if_neg (by rw [ReadBuf.canRead_eq]; omega), if_pos hc]
        simp only [ReadBuf.readI8_fst, ReadBuf.readI8_snd, ReadBuf.readI32_snd,
          ReadBuf.adj_adj, Nat.reduceAdd]
        rw [ReadBuf.readI32_adj_of_shorter hpre (by omega),
          ReadBuf.peekI8_adj_of_shorter hpre (by omega), if_neg hlen]
      · rw [if_pos (by rw [ReadBuf.canRead_eq]; omega), if_neg hc]

theorem projectionAlloc_scales {b b1 : ReadBuf} {o : KdbBase}
    (h : KdbProjection.alloc b = (.ok o, b1)) :
    Scales KdbProjection.alloc b o 5 := by
  unfold KdbProjection.alloc at h
  split at h
  · cases h
  · rename_i hread
    rw [ReadBuf.canRead_eq, not_not] at hread
    simp only [ReadBuf.readI8_snd, ReadBuf.readI32_snd, ReadBuf.adj_adj,
      Nat.reduceAdd] at h
    split at h
    · cases h
    · rename_i hlen
      cases h
      refine ⟨by omega, hread, ?_⟩
      intro c hpre _hcsr _hpos
      unfold KdbProjection.alloc
      by_cases hc : 5 <= c.remaining
      · rw [if_neg (by rw [ReadBuf.canRead_eq]; omega), if_pos hc]
        simp only [ReadBuf.readI8_snd, ReadBuf.readI32_snd, ReadBuf.adj_adj,
          Nat.reduceAdd]
        rw [ReadBuf.readI32_adj_of_shorter hpre (by omega), if_neg hlen]
      · rw [if_pos (by rw [ReadBuf.canRead_eq]; omega), if_neg hc]

theorem newInstanceOf_scales {t : Option KdbType} {b b1 : ReadBuf} {o : KdbBase}
    (hcsr : 0 <= b.csr) (hpos : 0 < b.remaining)
    (h : newInstanceOf t b = (.ok o, b1)) :
    exists n, Scales (newInstanceOf t) b o n := by
  cases t with
  | none => cases h
  | some t =>
      cases t <;> simp only [newInstanceOf] at h ⊢ <;>
        first
        | exact ⟨1, newAtomFromType_scales hpos h⟩
        | exact ⟨6, newVec32_scales h⟩
        | exact ⟨3, tableAlloc_scales h⟩
        | exact ⟨8, functionAlloc_scales hcsr h⟩
        | exact ⟨5, projectionAlloc_scales h⟩
        | cases h

/--
An object allocated from a buffer is allocated from every buffer that shows less,
as long as its header is there.
-/
theorem newInstance_of_shorter {b b1 : ReadBuf} {o : KdbBase} (hcsr : 0 <= b.csr)
    (h : newInstance b = (.ok o, b1)) :
    exists n, 0 < n ∧ n <= b.remaining ∧
      forall c : ReadBuf, c.rest <+: b.rest -> 0 <= c.csr ->
        newInstance c =
          if n <= c.remaining then (.ok o, c.adj n) else (.error .incomplete, c) := by
  rw [newInstance, ReadBuf.cursorActive_of_nonneg hcsr, if_pos rfl] at h
  split at h
  · cases h
  · rename_i hread
    rw [ReadBuf.canRead_eq, not_not] at hread
    rcases newInstanceOf_scales hcsr hread h with ⟨n, hn, hle, hscale⟩
    refine ⟨n, hn, hle, ?_⟩
    intro c hpre hcsr'
    rw [newInstance, ReadBuf.cursorActive_of_nonneg hcsr', if_pos rfl]
    by_cases hpos : 0 < c.remaining
    · rw [if_neg (by rw [ReadBuf.canRead_eq]; omega),
        ReadBuf.peekI8_of_shorter hpre hpos]
      exact hscale c hpre hcsr' hpos
    · rw [if_pos (by rw [ReadBuf.canRead_eq]; omega), if_neg (by omega)]

end MgKdb
