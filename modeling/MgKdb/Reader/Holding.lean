import MgKdb.Reader.Follow
import MgKdb.Reader.Inversion

/-!
# What a half-read object holds

An object that was read from any bytes, in any number of calls, holds the bytes consumed
so far: as the front of a spelling while it is unfinished, as a spelling once it is
complete.  A read that fails for good has taken a front and perhaps one header more.
-/

namespace MgKdb

open Foundation

/-!
## Shapes
-/

def Untouched {α : Type} (init : α) : α -> List UInt8 -> Prop :=
  fun x u => x = init ∧ u = []

def SpellsText : List UInt8 -> List UInt8 -> Prop :=
  fun str u => exists t : NulText, str = t.text ∧ u = t.bytes

def SpellsWords (w : Nat) (fits : Nat -> Prop) : List (BitVec (8 * w)) -> List UInt8 -> Prop :=
  fun vec u => fits vec.length ∧ u = wordsBytes w vec

def SpellsSyms (fits : Nat -> Prop) : List LocInfo × List UInt8 -> List UInt8 -> Prop :=
  fun p u => exists syms, fits syms.length ∧
    p = (locsFrom 0 syms, KVal.symsBytes syms) ∧ u = KVal.symsBytes syms

def Never {α : Type} : α -> List UInt8 -> Prop :=
  fun _ _ => False

def SpellsBytes (fits : Nat -> Prop) : List UInt8 -> List UInt8 -> Prop :=
  fun vec u => fits vec.length ∧ u = vec

namespace KdbBase

/-- How many bytes `newInstance` takes for an object. -/
def hdrSize : KdbBase -> Nat
  | exception _ | atom _ _ | symbolAtom _ | dict _ _ | primitive _ _ => 1
  | list _ _ _ | vector _ _ _ _ | symbolVector _ _ _ _ => 6
  | table _ _ => 3
  | function _ _ => 8
  | projection _ _ => 5

theorem hdrSize_pos (o : KdbBase) : 0 < o.hdrSize := by
  cases o <;> simp [hdrSize]

def Complete (o : KdbBase) (u : List UInt8) : Prop :=
  exists s : Spelling, s.value.CountsFit ∧ o = s.value.obj ∧ u = s.bytes

def CompletePtr (accepts : KdbType -> Bool) (p : Option KdbBase) (u : List UInt8) : Prop :=
  exists o, p = some o ∧ accepts o.typ = true ∧ o.Complete u

def CompleteAll (n : Nat) (os : List KdbBase) (u : List UInt8) : Prop :=
  exists ss : List Spelling, ss.length = n ∧ KVal.CountsFitAll (Spelling.valueAll ss) ∧
    os = KVal.objAll (Spelling.valueAll ss) ∧ u = Spelling.bytesAll ss

mutual

/-- `Holding o u`: the bytes `u` were read into `o`, which is unfinished. -/
def Holding : KdbBase -> List UInt8 -> Prop
  | exception str, u => exists v, u = [KdbType.exception.i8] ++ v ∧ Untouched [] str v
  | atom e val, u => exists v, u = [e.atomTyp.i8] ++ v ∧ Untouched 0 val v
  | symbolAtom str, u => exists v, u = [KdbType.symbolAtom.i8] ++ v ∧ Untouched [] str v
  | list cap attr vals, u => exists v, u = KVal.vecHdr .list attr cap ++ v ∧
      cap < 2 ^ 31 ∧ vals.length <= cap ∧ HoldingAll vals v
  | vector e cap attr vec, u => exists v, u = KVal.vecHdr e.vectorTyp attr cap ++ v ∧
      cap < 2 ^ 31 ∧ SpellsWords e.width (fun n => n <= cap) vec v
  | symbolVector cap attr locs data, u =>
      exists v, u = KVal.vecHdr .symbolVector attr cap ++ v ∧
        cap < 2 ^ 31 ∧ SpellsSyms (fun n => n <= cap) (locs, data) v
  | table cols vals, u => exists attr typ v, u = [KdbType.table.i8, attr, typ] ++ v ∧
      ((HoldingPtr (fun t => t == .symbolVector) cols v ∧ vals = none) ∨
        exists u₁ u₂, v = u₁ ++ u₂ ∧ CompletePtr (fun t => t == .symbolVector) cols u₁ ∧
          HoldingPtr (fun t => t == .list) vals u₂)
  | dict keys vals, u =>
      exists step v, u = [if step = true then KdbType.stepDict.i8 else KdbType.dict.i8] ++ v ∧
        ((HoldingPtr (fun _ => true) keys v ∧ vals = none) ∨
          exists u₁ u₂, v = u₁ ++ u₂ ∧ CompletePtr (fun _ => true) keys u₁ ∧
            HoldingPtr (fun _ => true) vals u₂)
  | function cap vec, u => exists ctx attr v,
      u = KdbType.function.i8 :: ctx :: KVal.vecHdr .charVector attr cap ++ v ∧
        cap < 2 ^ 31 ∧ SpellsBytes (fun n => n <= cap) vec v
  | primitive arity val, u => exists v, u = [arity.typ.i8] ++ v ∧ Untouched 0 val v
  | projection cap vec, u => exists v, u = KVal.projectionHdr cap ++ v ∧
      cap < 2 ^ 31 ∧ vec.length <= cap ∧ HoldingAll vec v

def HoldingAll : List KdbBase -> List UInt8 -> Prop
  | [], u => u = []
  | o :: os, u => (Holding o u ∧ os = []) ∨
      exists u₁ u₂, u = u₁ ++ u₂ ∧ o.Complete u₁ ∧ HoldingAll os u₂

def HoldingPtr (accepts : KdbType -> Bool) : Option KdbBase -> List UInt8 -> Prop
  | none, u => u = []
  | some o, u => accepts o.typ = true ∧ Holding o u

end

/-- A header is taken, or none, but no part of the object comes of it. -/
def Refused (accepts : KdbType -> Bool) (w : List UInt8) : Prop :=
  exists b out, newInstance b = (out, b.adj w.length) ∧ b.rest.take w.length = w ∧
    forall o, out = .ok o -> accepts o.typ = false

mutual

/-- `Stopped o u`: the bytes `u` were taken for `o` before it got stuck. -/
def Stopped : KdbBase -> List UInt8 -> Prop
  | list cap attr vals, u => exists v, u = KVal.vecHdr .list attr cap ++ v ∧
      cap < 2 ^ 31 ∧ StoppedAll cap vals v
  | table cols vals, u => exists attr typ v, u = [KdbType.table.i8, attr, typ] ++ v ∧
      ((StoppedPtr (fun t => t == .symbolVector) cols v ∧ vals = none) ∨
        exists u₁ u₂, v = u₁ ++ u₂ ∧ CompletePtr (fun t => t == .symbolVector) cols u₁ ∧
          StoppedPtr (fun t => t == .list) vals u₂)
  | dict keys vals, u =>
      exists step v, u = [if step = true then KdbType.stepDict.i8 else KdbType.dict.i8] ++ v ∧
        ((StoppedPtr (fun _ => true) keys v ∧ vals = none) ∨
          exists u₁ u₂, v = u₁ ++ u₂ ∧ CompletePtr (fun _ => true) keys u₁ ∧
            StoppedPtr (fun _ => true) vals u₂)
  | projection cap vec, u => exists v, u = KVal.projectionHdr cap ++ v ∧
      cap < 2 ^ 31 ∧ StoppedAll cap vec v
  | exception _, _ | atom _ _, _ | symbolAtom _, _ | vector _ _ _ _, _
  | symbolVector _ _ _ _, _ | function _ _, _ | primitive _ _, _ => False

def StoppedAll (n : Nat) : List KdbBase -> List UInt8 -> Prop
  | [], u => 0 < n ∧ Refused (fun _ => true) u
  | o :: os, u => (Stopped o u ∧ os = []) ∨
      exists u₁ u₂, u = u₁ ++ u₂ ∧ o.Complete u₁ ∧ StoppedAll (n - 1) os u₂

def StoppedPtr (accepts : KdbType -> Bool) : Option KdbBase -> List UInt8 -> Prop
  | none, u => Refused accepts u
  | some o, u => accepts o.typ = true ∧ Stopped o u

end

end KdbBase

/-!
## The classes without parts
-/

section Leaves

variable {n : Nat}

theorem readTextData_follows (size : List UInt8 -> Nat) :
    Follows size n (Untouched []) SpellsText Never readTextData where
  follow := by
    rintro str u b _ ⟨rfl, rfl⟩ hat
    have hcsr := ReadBuf.active_of_at hat
    rw [readTextData, if_pos (ReadBuf.cursorActive_of_nonneg hcsr), ReadBuf.readSym]
    split
    · split
      · exact Followed.wait hcsr ⟨rfl, rfl⟩
      · rename_i hterm
        rcases exists_nulText hterm with ⟨t, htext, hbytes⟩
        have hle := strnlen_le_length b.rest b.remaining
        refine Followed.take hcsr ?_ ⟨t, htext, hbytes⟩
        unfold ReadBuf.remaining at hterm hle ⊢
        omega
    · exact Followed.wait hcsr ⟨rfl, rfl⟩
  pass := by
    rintro str u m b ⟨t, rfl, rfl⟩ hat
    exact (readTextData_resumes t).read_full hat

theorem readIntAtomData_follows (e : Elem) (size : BitVec (8 * e.width) -> Nat) :
    Follows size n (Untouched 0) (fun val u => u = wordBytes e.width val) Never
      (readIntAtomData e) where
  follow := by
    rintro val u b _ ⟨rfl, rfl⟩ hat
    have hcsr := ReadBuf.active_of_at hat
    rw [readIntAtomData, if_pos (ReadBuf.cursorActive_of_nonneg hcsr)]
    split
    · exact Followed.wait hcsr ⟨rfl, rfl⟩
    · rename_i hroom
      exact Followed.take hcsr (Nat.not_lt.mp hroom)
        (wordBytes_wordAt (Nat.not_lt.mp hroom)).symm
  pass := by
    rintro val u m b rfl hat
    exact (readIntAtomData_resumes e val).read_full hat

theorem readPrimitiveData_follows (size : UInt8 -> Nat) :
    Follows size n (Untouched 0) (fun val u => u = [val]) Never readPrimitiveData where
  follow := by
    rintro val u b _ ⟨rfl, rfl⟩ hat
    have hcsr := ReadBuf.active_of_at hat
    rw [readPrimitiveData, if_pos (ReadBuf.cursorActive_of_nonneg hcsr)]
    split
    · exact Followed.wait hcsr ⟨rfl, rfl⟩
    · rename_i hroom
      have hlen := length_of_canRead hroom
      exact Followed.take hcsr hlen (take_one hlen)
  pass := by
    rintro val u m b rfl hat
    exact (readPrimitiveData_resumes val).read_full hat

theorem readIntVectorData_follows {w : Nat} (hw : 0 < w) (cap : Nat)
    (size : List (BitVec (8 * w)) -> Nat) :
    Follows size n (SpellsWords w (fun k => k <= cap)) (SpellsWords w (fun k => k = cap))
      Never (readIntVectorData w cap) where
  follow := by
    rintro vec u b _ ⟨hcap, rfl⟩ hat
    obtain ⟨q, hq⟩ : exists q, b.remaining / w = q := ⟨_, rfl⟩
    have hlen : (wordsBytes w vec).length = w * vec.length := wordsBytes_length w vec
    have hroom : w * min (cap - vec.length) q <= b.remaining :=
      Nat.le_trans (Nat.mul_le_mul_left w (Nat.min_le_right _ _))
        (hq ▸ Nat.mul_div_le b.remaining w)
    have htake : wordsBytes w vec ++ b.rest.take (w * min (cap - vec.length) q) =
        wordsBytes w (vec ++ wordsAt w (min (cap - vec.length) q) b.rest) := by
      rw [wordsBytes_append, wordsBytes_wordsAt hroom]
    rw [hlen] at hat
    rw [readIntVectorData_eq hcap hq, ReadBuf.at_ffwd hat, ReadBuf.advance_adj, Nat.zero_add,
      ← hlen]
    by_cases hall : cap - vec.length <= q
    · rw [if_pos hall]
      refine .done _ _ hroom ⟨?_, htake⟩
      rw [List.length_append, wordsAt_length]
      omega
    · rw [if_neg hall]
      refine .short _ _ hroom ⟨?_, htake⟩
      rw [List.length_append, wordsAt_length]
      omega
  pass := by
    rintro vec u m b ⟨rfl, rfl⟩ hat
    exact (readIntVectorData_resumes hw vec).read_full hat

theorem readFunctionText_follows (cap : Nat) (size : List UInt8 -> Nat) :
    Follows size n (SpellsBytes (fun k => k <= cap)) (SpellsBytes (fun k => k = cap))
      Never (readFunctionText cap) where
  follow := by
    rintro vec u b _ ⟨hcap, rfl⟩ hat
    have hroom : min (cap - u.length) b.remaining <= b.remaining := Nat.min_le_right _ _
    have hlen : (u ++ b.rest.take (min (cap - u.length) b.remaining)).length =
        u.length + min (cap - u.length) b.remaining := by
      rw [List.length_append, List.length_take]
      congr 1
      exact Nat.min_eq_left hroom
    rw [readFunctionText_eq hcap, ReadBuf.at_ffwd hat, ReadBuf.advance_adj, Nat.zero_add]
    by_cases hall : cap - u.length <= b.remaining
    · rw [if_pos hall]
      exact .done _ _ hroom ⟨by omega, rfl⟩
    · rw [if_neg hall]
      exact .short _ _ hroom ⟨by omega, rfl⟩
  pass := by
    rintro vec u m b ⟨rfl, rfl⟩ hat
    exact (readFunctionText_resumes u).read_full hat

theorem readSymsLoop_takes (k : Nat) :
    forall (locs : List LocInfo) (data : List UInt8) (b : ReadBuf),
      exists syms, syms.length <= k ∧ (KVal.symsBytes syms).length <= b.remaining ∧
        b.rest.take (KVal.symsBytes syms).length = KVal.symsBytes syms ∧
        b.readSymsLoop k locs data =
          (if syms.length = k then .ok else .incomplete,
            (locs ++ locsFrom data.length syms, data ++ KVal.symsBytes syms),
            b.adj (KVal.symsBytes syms).length) := by
  intro locs data b
  have hfront := ReadBuf.leadingTexts_prefix k b.rest
  exact ⟨leadingTexts k b.rest, leadingTexts_length_le k b.rest, hfront.length_le,
    (List.prefix_iff_eq_take.mp hfront).symm, ReadBuf.readSymsLoop_eq k locs data b⟩

theorem readSymbolVectorData_follows (cap : Nat)
    (size : List LocInfo × List UInt8 -> Nat) :
    Follows size n (SpellsSyms (fun k => k <= cap)) (SpellsSyms (fun k => k = cap)) Never
      (fun p b => readSymbolVectorData cap p.1 p.2 b) where
  follow := by
    rintro p u b _ ⟨syms, hcap, rfl, rfl⟩ hat
    rw [readSymbolVectorData, locsFrom_length, ReadBuf.at_ffwd hat]
    by_cases hfull : syms.length = cap
    · rw [if_pos hfull]
      exact .done _ 0 (Nat.zero_le _)
        ⟨syms, hfull, rfl, by rw [List.take_zero, List.append_nil]⟩
    · rw [if_neg hfull, readSyms_eq (by omega)]
      rcases readSymsLoop_takes (cap - syms.length) (locsFrom 0 syms) (KVal.symsBytes syms)
        (b.advance (KVal.symsBytes syms).length 0) with ⟨more, hcount, hroom, hfront, hloop⟩
      have hrem : (b.advance (KVal.symsBytes syms).length 0).remaining = b.remaining := by
        simp [ReadBuf.remaining]
      rw [hrem] at hroom
      rw [ReadBuf.advance_rest, List.drop_zero] at hfront
      have hsum : (syms ++ more).length = syms.length + more.length := List.length_append
      have hlocs : locsFrom 0 syms ++ locsFrom (KVal.symsBytes syms).length more =
          locsFrom 0 (syms ++ more) := by
        rw [locsFrom_append, Nat.zero_add]
      have hdata : KVal.symsBytes syms ++ b.rest.take (KVal.symsBytes more).length =
          KVal.symsBytes (syms ++ more) := by
        rw [hfront, KVal.symsBytes_append]
      rw [hloop, hlocs, ← KVal.symsBytes_append, ReadBuf.advance_adj, Nat.zero_add]
      by_cases hall : more.length = cap - syms.length
      · rw [if_pos hall]
        exact .done _ _ hroom ⟨syms ++ more, by omega, rfl, hdata⟩
      · rw [if_neg hall]
        exact .short _ _ hroom ⟨syms ++ more, by omega, rfl, hdata⟩
  pass := by
    rintro p u m b ⟨syms, rfl, rfl, rfl⟩ hat
    exact (readSymbolVectorData_resumes syms).read_full hat

end Leaves

/-!
## Allocation
-/

/-- An allocation that fails takes nothing, or it takes a header that makes no sense. -/
def Refuses (b : ReadBuf) (out : NewOut) : Prop :=
  forall rr b1, out = (.error rr, b1) ->
    ((rr = .incomplete ∨ rr = .errLogic) ∧ b1 = b) ∨
      (rr ≠ .incomplete ∧ rr ≠ .errLogic ∧ b.off < b1.off)

theorem newVec32_refuses (b : ReadBuf) (mk : Nat -> UInt8 -> KdbBase) :
    Refuses b (newVec32 b mk) := by
  intro rr b1 hout
  unfold newVec32 at hout
  split at hout
  · cases hout
    exact Or.inl ⟨Or.inl rfl, rfl⟩
  · simp only [ReadBuf.readI8, ReadBuf.readI32, ReadBuf.adj_adj] at hout
    split at hout
    · cases hout
      refine Or.inr ⟨by simp, by simp, ?_⟩
      rw [ReadBuf.adj_off]
      omega
    · cases hout

theorem tableAlloc_refuses (b : ReadBuf) : Refuses b (KdbTable.alloc b) := by
  intro rr b1 hout
  unfold KdbTable.alloc at hout
  split at hout
  · cases hout
    exact Or.inl ⟨Or.inl rfl, rfl⟩
  · cases hout

theorem functionAlloc_refuses {b : ReadBuf} (hcsr : 0 <= b.csr) :
    Refuses b (KdbFunction.alloc b) := by
  intro rr b1 hout
  unfold KdbFunction.alloc at hout
  rw [if_pos (ReadBuf.cursorActive_of_nonneg hcsr)] at hout
  split at hout
  · cases hout
    exact Or.inl ⟨Or.inl rfl, rfl⟩
  · simp only [ReadBuf.readI8, ReadBuf.readI32, ReadBuf.adj_adj] at hout
    split at hout
    · cases hout
      refine Or.inr ⟨by simp, by simp, ?_⟩
      rw [ReadBuf.adj_off]
      omega
    · cases hout

theorem projectionAlloc_refuses (b : ReadBuf) : Refuses b (KdbProjection.alloc b) := by
  intro rr b1 hout
  unfold KdbProjection.alloc at hout
  split at hout
  · cases hout
    exact Or.inl ⟨Or.inl rfl, rfl⟩
  · simp only [ReadBuf.readI8, ReadBuf.readI32, ReadBuf.adj_adj] at hout
    split at hout
    · cases hout
      refine Or.inr ⟨by simp, by simp, ?_⟩
      rw [ReadBuf.adj_off]
      omega
    · cases hout

theorem newInstance_refuses {b : ReadBuf} (hcsr : 0 <= b.csr) :
    Refuses b (newInstance b) := by
  unfold newInstance
  rw [if_pos (ReadBuf.cursorActive_of_nonneg hcsr)]
  have hlogic : Refuses b (.error .errLogic, b) := by
    intro rr b1 hout
    cases hout
    exact Or.inl ⟨Or.inr rfl, rfl⟩
  split
  · intro rr b1 hout
    cases hout
    exact Or.inl ⟨Or.inl rfl, rfl⟩
  · cases KdbType.ofI8 b.peekI8 with
    | none => exact hlogic
    | some t =>
        cases t <;> simp only [newInstanceOf] <;>
          first
          | exact newVec32_refuses b _
          | exact tableAlloc_refuses b
          | exact functionAlloc_refuses hcsr
          | exact projectionAlloc_refuses b
          | exact hlogic
          | exact fun rr b1 hout => by cases hout

theorem newInstance_of_neg {b : ReadBuf} (h : b.csr < 0) :
    newInstance b = (.error (.trap .badPointer), b) := by
  rw [newInstance, ReadBuf.cursorActive_of_neg h]
  rfl

theorem newInstance_halts {b b1 : ReadBuf} {rr : ReadResult} (hcsr : 0 <= b.csr)
    (h : newInstance b = (.error rr, b1)) :
    (rr = .incomplete ∧ b1 = b) ∨
      exists j, j <= b.remaining ∧ b1 = b.adj j ∧
        forall (ys : List UInt8) (c : ReadBuf), c.csr = -(j : Int) ->
          c.rest = b.rest.drop j ++ ys -> exists rr', newInstance c = (.error rr', c) := by
  have hself := newInstance_local (List.prefix_rfl (l := b.rest)) hcsr hcsr
  rcases newInstance_refuses hcsr rr b1 h with ⟨rfl | rfl, rfl⟩ | ⟨hinc, _, hoff⟩
  · exact Or.inl ⟨rfl, rfl⟩
  · right
    refine ⟨0, Nat.zero_le _, (ReadBuf.adj_zero _).symm, ?_⟩
    intro ys c hc hrest
    rw [List.drop_zero] at hrest
    have hc' : 0 <= c.csr := by omega
    obtain ⟨out, c1, hout⟩ : exists out c1, newInstance c = (out, c1) := ⟨_, _, rfl⟩
    rcases newInstance_local (b := c) (c := b1) (hrest ▸ List.prefix_append _ _) hc' hcsr with
      hcut | ⟨_, _, hsame⟩
    · rw [h] at hcut
      cases hcut
    · rw [h, hout] at hsame
      have herr : out = .error .errLogic := (congrArg Prod.fst hsame).symm
      rw [herr] at hout
      rcases newInstance_refuses hc' _ _ hout with ⟨_, hstay⟩ | ⟨_, hno, _⟩
      · exact ⟨_, by rw [hout, hstay]⟩
      · exact absurd rfl hno
  · right
    rcases hself with hcut | ⟨j, hj, hadj⟩
    · rw [h] at hcut
      cases hcut
      exact absurd rfl hinc
    · rw [h] at hadj
      have hb1 : b1 = b.adj j := congrArg Prod.snd hadj
      refine ⟨j, hj, hb1, ?_⟩
      intro ys c hc _
      rw [hb1, ReadBuf.adj_off] at hoff
      exact ⟨_, newInstance_of_neg (by omega)⟩

namespace KdbBase

theorem holding_of_fresh {o : KdbBase} {hdr : List UInt8} (h : Fresh o hdr) :
    o.Holding hdr ∧ hdr.length = o.hdrSize := by
  cases h with
  | exception => exact ⟨⟨[], rfl, rfl, rfl⟩, rfl⟩
  | atom e => exact ⟨⟨[], rfl, rfl, rfl⟩, rfl⟩
  | symbolAtom => exact ⟨⟨[], rfl, rfl, rfl⟩, rfl⟩
  | list attr hcap =>
      exact ⟨⟨[], (List.append_nil _).symm, hcap, Nat.zero_le _, rfl⟩, KVal.vecHdr_length _ _ _⟩
  | vector e attr hcap =>
      exact ⟨⟨[], (List.append_nil _).symm, hcap, Nat.zero_le _, rfl⟩, KVal.vecHdr_length _ _ _⟩
  | symbolVector attr hcap =>
      exact ⟨⟨[], (List.append_nil _).symm, hcap, [], Nat.zero_le _, rfl, rfl⟩,
        KVal.vecHdr_length _ _ _⟩
  | table attr typ => exact ⟨⟨attr, typ, [], rfl, Or.inl ⟨rfl, rfl⟩⟩, rfl⟩
  | dict step => exact ⟨⟨step, [], rfl, Or.inl ⟨rfl, rfl⟩⟩, rfl⟩
  | function ctx attr hcap =>
      exact ⟨⟨ctx, attr, [], (List.append_nil _).symm, hcap, Nat.zero_le _, rfl⟩,
        by simp [hdrSize]⟩
  | primitive arity => exact ⟨⟨[], rfl, rfl, rfl⟩, rfl⟩
  | projection hcap =>
      exact ⟨⟨[], (List.append_nil _).symm, hcap, Nat.zero_le _, rfl⟩,
        KVal.projectionHdr_length _⟩

end KdbBase

theorem newInstance_takes {b b1 : ReadBuf} {o : KdbBase}
    (h : newInstance b = (.ok o, b1)) :
    exists k, 0 < k ∧ k <= b.remaining ∧ b1 = b.adj k ∧ k = o.hdrSize ∧
      o.Holding (b.rest.take k) := by
  have hcsr := newInstance_active h
  rcases newInstance_allocated b o b1 h with ⟨hdr, hfresh, htook⟩
  rcases KdbBase.holding_of_fresh hfresh with ⟨hheld, hsize⟩
  have hcount := congrArg List.length htook.rest
  rcases newInstance_local (List.prefix_rfl (l := b.rest)) hcsr hcsr with hcut | ⟨k, hk, hadj⟩
  · rw [h] at hcut
    cases hcut
  · rw [h] at hadj
    have hb1 : b1 = b.adj k := congrArg Prod.snd hadj
    rw [List.length_append, hb1, ReadBuf.adj_rest, List.length_drop] at hcount
    unfold ReadBuf.remaining at hk
    have hlen : hdr.length = k := by omega
    have htake : b.rest.take k = hdr := by
      rw [htook.rest, ← hlen, List.take_left]
    have hpos := o.hdrSize_pos
    exact ⟨k, by omega, hk, hb1, by omega, by rw [htake]; exact hheld⟩

/-!
## Parts
-/

namespace KdbBase

theorem hdrSize_obj (v : KVal) : v.obj.hdrSize = v.newBytes := by
  cases v <;> simp [KVal.obj, hdrSize, KVal.newBytes]

theorem read_complete {o : KdbBase} {u : List UInt8} {m : Nat} {b : ReadBuf}
    (h : o.Complete u) (hat : b.At u.length m o.hdrSize) :
    o.read b = (.ok, o, b.advance u.length 0) := by
  rcases h with ⟨s, hfit, rfl, rfl⟩
  rw [← s.respelled.left, hdrSize_obj] at hat
  rw [← s.respelled.left]
  exact (read_resumes s.value hfit).read_full hat

theorem hdrSize_le_of_complete {o : KdbBase} {u : List UInt8} (h : o.Complete u) :
    o.hdrSize <= u.length := by
  rcases h with ⟨s, hfit, rfl, rfl⟩
  rw [hdrSize_obj, ← s.respelled.left]
  have hresumes := read_resumes s.value hfit
  exact hresumes.new_le hresumes.full

theorem hdrSize_le_of_holding {o : KdbBase} {u : List UInt8} (h : o.Holding u) :
    o.hdrSize <= u.length := by
  cases o with
  | exception _ | atom _ _ | symbolAtom _ | vector _ _ _ _ | symbolVector _ _ _ _
  | primitive _ _ | list _ _ _ | projection _ _ =>
      rcases h with ⟨v, rfl, _⟩
      simp [hdrSize]
  | table cols vals =>
      rcases h with ⟨attr, typ, v, rfl, _⟩
      simp [hdrSize]
  | dict keys vals =>
      rcases h with ⟨step, v, rfl, _⟩
      simp [hdrSize]
  | function cap vec =>
      rcases h with ⟨ctx, attr, v, rfl, _⟩
      simp [hdrSize]

theorem refused_of_take {accepts : KdbType -> Bool} {b : ReadBuf} {j : Nat}
    {out : Except ReadResult KdbBase} (hj : j <= b.remaining)
    (hnew : newInstance b = (out, b.adj j))
    (haccepts : forall o, out = .ok o -> accepts o.typ = false) :
    Refused accepts ([] ++ b.rest.take j) := by
  have hlen : ([] ++ b.rest.take j).length = j := by
    rw [List.nil_append, List.length_take]
    exact Nat.min_eq_left hj
  refine ⟨b, out, by rw [hlen]; exact hnew, by rw [hlen]; rfl, haccepts⟩

theorem read_typ (o : KdbBase) (b : ReadBuf) : (o.read b).2.1.typ = o.typ :=
  readFuel_typ _ o b

end KdbBase

/-- `rd` reads a part: it allocates it, unless that happened in an earlier call. -/
structure Slotted (accepts : KdbType -> Bool)
    (rd : Option KdbBase -> ReadBuf -> ReadOut (Option KdbBase)) : Prop where
  held : forall o b, b.csr < 0 ->
    rd (some o) b = ((o.read b).1, some (o.read b).2.1, (o.read b).2.2)
  fails : forall b rr b1, newInstance b = (.error rr, b1) -> rd none b = (rr, none, b1)
  allocs : forall b o b1, newInstance b = (.ok o, b1) ->
    rd none b =
      if accepts o.typ = true then ((o.read b1).1, some (o.read b1).2.1, (o.read b1).2.2)
      else (.errIpc, none, b1)

theorem readElem_slotted : Slotted (fun _ => true) readElem where
  held := fun o b _hcsr => rfl
  fails := by
    intro b rr b1 h
    rw [readElem, h]
  allocs := by
    intro b o b1 h
    rw [readElem, h]
    rfl

theorem readPart_slotted (accepts : KdbType -> Bool) :
    Slotted accepts (readPart KdbBase.read accepts) where
  held := by
    intro o b hcsr
    rw [readPart, ReadBuf.cursorActive_of_neg hcsr]
    rfl
  fails := by
    intro b rr b1 h
    by_cases hcsr : b.csr < 0
    · rw [newInstance_of_neg hcsr] at h
      cases h
      rw [readPart, ReadBuf.cursorActive_of_neg hcsr]
      rfl
    · rw [readPart, ReadBuf.cursorActive_of_nonneg (by omega), if_pos rfl, h]
  allocs := by
    intro b o b1 h
    rw [readPart, ReadBuf.cursorActive_of_nonneg (newInstance_active h), if_pos rfl, h]

/-- The readers of objects and buffers that are small enough together follow any bytes. -/
def ReadsFollow (n : Nat) : Prop :=
  forall {o : KdbBase} {u : List UInt8} {b : ReadBuf}, o.height + b.remaining < n ->
    o.Holding u -> b.At u.length 0 o.hdrSize ->
    Followed KdbBase.Holding KdbBase.Complete KdbBase.Stopped KdbBase.read u b (o.read b)

section Parts

variable {n : Nat} {accepts : KdbType -> Bool}
  {rd : Option KdbBase -> ReadBuf -> ReadOut (Option KdbBase)}

theorem Slotted.followed (h : Slotted accepts rd) {u : List UInt8} {b : ReadBuf}
    {out : ReadOut KdbBase} (hu : 0 < u.length) (haccepts : accepts out.2.1.typ = true)
    (hout : Followed KdbBase.Holding KdbBase.Complete KdbBase.Stopped KdbBase.read u b out) :
    Followed (KdbBase.HoldingPtr accepts) (KdbBase.CompletePtr accepts)
      (KdbBase.StoppedPtr accepts) rd u b (out.1, some out.2.1, out.2.2) := by
  cases hout with
  | done o j hj hw => exact .done (some o) j hj ⟨o, rfl, haccepts, hw⟩
  | short o j hj hp => exact .short (some o) j hj ⟨haccepts, hp⟩
  | stuck rr o b' j hrr hj hoff hs hstuck =>
      refine .stuck rr (some o) b' j hrr hj hoff ⟨haccepts, hs⟩ ?_
      intro ys c hcsr hrest
      rcases hstuck ys c hcsr hrest with ⟨rr', c', hread, hrr', hoff'⟩
      refine ⟨rr', c', ?_, hrr', hoff'⟩
      rw [h.held o c (by omega), hread]

theorem Slotted.stuck_none (h : Slotted accepts rd) {b : ReadBuf} {k : Nat}
    (hnew : forall (ys : List UInt8) (c : ReadBuf), c.csr = -(k : Int) ->
      c.rest = b.rest.drop k ++ ys -> exists rr, newInstance c = (.error rr, c)) :
    Stuck rd none k (b.rest.drop k) := by
  intro ys c hcsr hrest
  rcases hnew ys c hcsr hrest with ⟨rr, hfail⟩
  exact ⟨rr, c, h.fails c rr c hfail, (newInstance_allocates c).fails rr (by rw [hfail]), rfl⟩

theorem Slotted.follows (h : Slotted accepts rd) (hobj : ReadsFollow n) :
    Follows KdbBase.heightPtr n (KdbBase.HoldingPtr accepts) (KdbBase.CompletePtr accepts)
      (KdbBase.StoppedPtr accepts) rd where
  follow := by
    intro p u b hsize hp hat
    cases p with
    | some o =>
        rcases hp with ⟨haccepts, hheld⟩
        have hhdr := KdbBase.hdrSize_le_of_holding hheld
        have hpos := o.hdrSize_pos
        have hcsr : b.csr = -(u.length : Int) := by
          unfold ReadBuf.At at hat
          omega
        rw [h.held o b (by omega)]
        rw [KdbBase.heightPtr] at hsize
        refine h.followed (by omega) (by rw [KdbBase.read_typ]; exact haccepts)
          (hobj (by omega) hheld (Or.inl ?_))
        push_cast
        omega
    | none =>
        have hu : u = [] := hp
        subst hu
        have hcsr := ReadBuf.active_of_at hat
        rcases hnew : newInstance b with ⟨rr | o, b1⟩
        · rw [h.fails b rr b1 hnew]
          rcases newInstance_halts hcsr hnew with ⟨rfl, rfl⟩ | ⟨j, hj, rfl, hhalts⟩
          · exact Followed.wait hcsr rfl
          · refine .stuck rr none (b.adj j) j
              ((newInstance_allocates b).fails rr (by rw [hnew])) hj rfl
              (KdbBase.refused_of_take hj hnew (fun o ho => by cases ho)) ?_
            rw [List.length_nil, Nat.zero_add]
            exact h.stuck_none hhalts
        · rw [h.allocs b o b1 hnew]
          have hflat := (newInstance_allocates b).flat o (by rw [hnew])
          rcases newInstance_takes hnew with ⟨k, hpos, hk, rfl, hsizeK, hheld⟩
          rw [hnew] at hflat
          split
          · rename_i haccepts
            have hlen : (b.rest.take k).length = k := by
              rw [List.length_take]
              exact Nat.min_eq_left hk
            have hat' : (b.adj k).At (b.rest.take k).length 0 o.hdrSize := by
              right
              rw [ReadBuf.adj_csr]
              omega
            have hlt : o.height + (b.adj k).remaining < n := by
              have hless := hflat.right
              rw [hflat.left]
              rw [KdbBase.heightPtr] at hsize
              simp only at hless
              omega
            exact Followed.rebase hcsr hk
              (h.followed (by omega) (by rw [KdbBase.read_typ]; exact haccepts)
                (hobj hlt hheld hat'))
          · rename_i haccepts
            refine .stuck .errIpc none (b.adj k) k (by simp) hk rfl
              (KdbBase.refused_of_take hk hnew ?_) ?_
            · rintro _ ⟨rfl⟩
              exact Bool.eq_false_of_not_eq_true haccepts
            rw [List.length_nil, Nat.zero_add]
            refine h.stuck_none ?_
            intro ys c hc _
            exact ⟨_, newInstance_of_neg (by omega)⟩
  pass := by
    rintro p u m b ⟨o, rfl, _, hw⟩ hat
    have hhdr := KdbBase.hdrSize_le_of_complete hw
    have hpos := o.hdrSize_pos
    have hcsr : b.csr = -((u.length : Int) + m) := by
      unfold ReadBuf.At at hat
      omega
    rw [h.held o b (by omega), KdbBase.read_complete hw (Or.inl hcsr)]

end Parts

/-!
## Elements
-/

section Items

variable {n : Nat}

theorem readItems_follows (hobj : ReadsFollow n) (k : Nat) :
    Follows KdbBase.heightAll n (fun os u => os.length <= k ∧ KdbBase.HoldingAll os u)
      (KdbBase.CompleteAll k) (KdbBase.StoppedAll k) (readItems KdbBase.read k) := by
  induction k with
  | zero =>
      refine ⟨?_, ?_⟩
      · rintro os u b _ ⟨hlen, hheld⟩ hat
        cases List.eq_nil_of_length_eq_zero (Nat.le_zero.mp hlen)
        have hu : u = [] := hheld
        subst hu
        have hcsr := ReadBuf.active_of_at hat
        rw [readItems_zero]
        have hdone : Followed (fun os u => os.length <= 0 ∧ KdbBase.HoldingAll os u)
            (KdbBase.CompleteAll 0) (KdbBase.StoppedAll 0) (readItems KdbBase.read 0) [] b
            (.ok, [], b.adj 0) :=
          Followed.take hcsr (Nat.zero_le _) ⟨[], rfl, trivial, rfl, rfl⟩
        rwa [ReadBuf.adj_zero] at hdone
      · rintro os u m b ⟨ss, hlen, _, rfl, rfl⟩ hat
        cases List.eq_nil_of_length_eq_zero hlen
        have hpass := ReadBuf.at_ffwd (k := 0) hat
        rw [ReadBuf.ffwd_zero] at hpass
        exact congrArg (fun c => (ReadResult.ok, ([] : List KdbBase), c)) hpass
  | succ k ih =>
      have hnil : ([] : List KdbBase).length <= k ∧ KdbBase.HoldingAll [] [] :=
        ⟨Nat.zero_le _, rfl⟩
      have hpair := (readElem_slotted.follows hobj).pair ih hnil
      refine hpair.map (g := fun p => p.1.toList ++ p.2) ?_ ?_ ?_ ?_ ?_ ?_
      · rintro os u ⟨hlen, hheld⟩
        cases os with
        | nil =>
            exact ⟨(none, []), rfl, Or.inl ⟨hheld, rfl⟩, by simp⟩
        | cons o os =>
            rw [List.length_cons] at hlen
            refine ⟨(some o, os), rfl, ?_, by simp⟩
            rcases hheld with ⟨ho, rfl⟩ | ⟨u₁, u₂, rfl, ho, hos⟩
            · exact Or.inl ⟨⟨rfl, ho⟩, rfl⟩
            · exact Or.inr ⟨u₁, u₂, rfl, ⟨o, rfl, rfl, ho⟩,
                Nat.le_of_succ_le_succ hlen, hos⟩
      · rintro ⟨p, os⟩ u (⟨hp, hos⟩ | ⟨u₁, u₂, rfl, ⟨o, rfl, _, ho⟩, hlen, hos⟩)
        · cases hos
          cases p with
          | none => exact ⟨Nat.zero_le _, hp⟩
          | some o => exact ⟨by simp, Or.inl ⟨hp.right, rfl⟩⟩
        · exact ⟨by simpa using hlen, Or.inr ⟨u₁, u₂, rfl, ho, hos⟩⟩
      · rintro os u ⟨ss, hlen, hfit, rfl, rfl⟩
        cases ss with
        | nil => cases hlen
        | cons s ss =>
            rw [Spelling.valueAll, KVal.CountsFitAll] at hfit
            refine ⟨(some s.value.obj, KVal.objAll (Spelling.valueAll ss)), ?_,
              s.bytes, Spelling.bytesAll ss, ?_, ⟨_, rfl, rfl, s, hfit.left, rfl, rfl⟩,
              ss, Nat.succ.inj hlen, hfit.right, rfl, rfl⟩
            · rw [Spelling.valueAll, KVal.objAll]
              rfl
            · rw [Spelling.bytesAll]
      · rintro ⟨p, os⟩ u ⟨u₁, u₂, rfl, ⟨o, rfl, _, s, hfit, rfl, rfl⟩,
          ss, hlen, hfits, rfl, rfl⟩
        refine ⟨s :: ss, by rw [List.length_cons, hlen], ?_, ?_, ?_⟩
        · rw [Spelling.valueAll]
          exact ⟨hfit, hfits⟩
        · rw [Spelling.valueAll, KVal.objAll]
          rfl
        · rw [Spelling.bytesAll]
      · rintro ⟨p, os⟩ u (⟨hp, hos⟩ | ⟨u₁, u₂, rfl, ⟨o, rfl, _, ho⟩, hos⟩)
        · cases hos
          cases p with
          | none => exact ⟨Nat.zero_lt_succ k, hp⟩
          | some o => exact Or.inl ⟨hp.right, rfl⟩
        · exact Or.inr ⟨u₁, u₂, rfl, ho, hos⟩
      · rintro ⟨p, os⟩ u c hp
        refine readItems_succ k p os ?_ c
        rintro rfl
        rcases hp with (⟨_, hos⟩ | ⟨_, _, _, ⟨o, ho, _⟩, _⟩) | ⟨_, _, _, ⟨o, ho, _⟩, _⟩ |
          (⟨_, hos⟩ | ⟨_, _, _, ⟨o, ho, _⟩, _⟩)
        · exact hos
        · cases ho
        · cases ho
        · exact hos
        · cases ho

theorem readParts_follows (hobj : ReadsFollow n) (p q : KdbType -> Bool) :
    Follows (fun x => max (KdbBase.heightPtr x.1) (KdbBase.heightPtr x.2)) n
      (Joined (KdbBase.HoldingPtr p) (KdbBase.CompletePtr p) none (KdbBase.HoldingPtr q))
      (Both (KdbBase.CompletePtr p) (KdbBase.CompletePtr q))
      (Joined (KdbBase.StoppedPtr p) (KdbBase.CompletePtr p) none (KdbBase.StoppedPtr q))
      (inTurn (readPart KdbBase.read p) (readPart KdbBase.read q)) :=
  ((readPart_slotted p).follows hobj).pair ((readPart_slotted q).follows hobj) rfl

end Items

/-!
## Objects
-/

theorem at_behind {hdr v : List UInt8} {n : Nat} {b : ReadBuf} (hn : hdr.length = n)
    (hpos : 0 < n) (hat : b.At (hdr ++ v).length 0 n) : (b.skipHdr n).At v.length 0 0 := by
  rw [List.length_append, hn] at hat
  exact ReadBuf.at_skipHdr hat hpos

theorem KdbBase.followed {α : Type} {P W S : α -> List UInt8 -> Prop}
    {rd : α -> ReadBuf -> ReadOut α} {g : α -> KdbBase} {hdr v : List UInt8} {n : Nat}
    {b : ReadBuf} {x : α} (hn : hdr.length = n) (hpos : 0 < n)
    (hP : forall x v, P x v -> (g x).Holding (hdr ++ v))
    (hW : forall x v, W x v -> (g x).Complete (hdr ++ v))
    (hS : forall x v, S x v -> (g x).Stopped (hdr ++ v))
    (hrd : forall x c, (g x).read c =
      ((rd x (c.skipHdr n)).1, g (rd x (c.skipHdr n)).2.1, (rd x (c.skipHdr n)).2.2))
    (hat : b.At (hdr ++ v).length 0 n)
    (h : (b.skipHdr n).At v.length 0 0 ->
      Followed P W S rd v (b.skipHdr n) (rd x (b.skipHdr n))) :
    Followed Holding Complete Stopped read (hdr ++ v) b ((g x).read b) := by
  rw [hrd]
  exact Followed.behind hn hpos hP hW hS hrd hat (h (at_behind hn hpos hat))

theorem complete_table (attr typ : UInt8) {x : Option KdbBase × Option KdbBase}
    {v : List UInt8}
    (h : Both (KdbBase.CompletePtr (fun t => t == .symbolVector))
      (KdbBase.CompletePtr (fun t => t == .list)) x v) :
    (KdbBase.table x.1 x.2).Complete ([KdbType.table.i8, attr, typ] ++ v) := by
  rcases x with ⟨p, q⟩
  rcases h with ⟨u₁, u₂, rfl, ⟨_, rfl, hcols, s, hfit, rfl, rfl⟩,
    ⟨_, rfl, hvals, s', hfit', rfl, rfl⟩⟩
  rcases spelling_symbolVector (KVal.holds_obj s.value) (beq_iff_eq.mp hcols) with
    ⟨colsAttr, cols, rfl⟩
  rcases spelling_list (KVal.holds_obj s'.value) (beq_iff_eq.mp hvals) with
    ⟨valsAttr, vals, rfl⟩
  exact ⟨.table attr typ colsAttr cols valsAttr vals, ⟨hfit, hfit'⟩, rfl, rfl⟩

/-- Reading the object follows any bytes, where its height and the buffer come to `n` at most. -/
def FollowsWithin (n : Nat) (o : KdbBase) : Prop :=
  forall {u : List UInt8} {b : ReadBuf}, o.height + b.remaining < n + 1 ->
    o.Holding u -> b.At u.length 0 o.hdrSize ->
    Followed KdbBase.Holding KdbBase.Complete KdbBase.Stopped KdbBase.read u b (o.read b)

section Classes

variable {n : Nat}

theorem exception_follows (str : List UInt8) : FollowsWithin n (.exception str) := by
  intro u b hsize hheld hat
  rcases hheld with ⟨v, rfl, hv⟩
  refine KdbBase.followed (g := KdbBase.exception) rfl Nat.one_pos ?_ ?_
    (fun _ _ => False.elim) KdbBase.read_exception hat
    ((readTextData_follows (fun _ => 0)).follow (Nat.le_refl _) hv)
  · exact fun x v hx => ⟨v, rfl, hx⟩
  · rintro x v ⟨t, rfl, rfl⟩
    exact ⟨.exception t, trivial, rfl, rfl⟩

theorem atom_follows (e : Elem) (val : BitVec (8 * e.width)) : FollowsWithin n (.atom e val) := by
  intro u b hsize hheld hat
  rcases hheld with ⟨v, rfl, hv⟩
  refine KdbBase.followed (g := KdbBase.atom e) rfl Nat.one_pos ?_ ?_
    (fun _ _ => False.elim) (KdbBase.read_atom e) hat
    ((readIntAtomData_follows e (fun _ => 0)).follow (Nat.le_refl _) hv)
  · exact fun x v hx => ⟨v, rfl, hx⟩
  · rintro x v rfl
    exact ⟨.atom e x, trivial, rfl, rfl⟩

theorem symbolAtom_follows (str : List UInt8) : FollowsWithin n (.symbolAtom str) := by
  intro u b hsize hheld hat
  rcases hheld with ⟨v, rfl, hv⟩
  refine KdbBase.followed (g := KdbBase.symbolAtom) rfl Nat.one_pos ?_ ?_
    (fun _ _ => False.elim) KdbBase.read_symbolAtom hat
    ((readTextData_follows (fun _ => 0)).follow (Nat.le_refl _) hv)
  · exact fun x v hx => ⟨v, rfl, hx⟩
  · rintro x v ⟨t, rfl, rfl⟩
    exact ⟨.symbolAtom t, trivial, rfl, rfl⟩

theorem list_follows (hobj : ReadsFollow n) {cap : Nat} {attr : UInt8} {vals : List KdbBase} :
    FollowsWithin n (.list cap attr vals) := by
  intro u b hsize hheld hat
  rcases hheld with ⟨v, rfl, hcap, hlen, hv⟩
  rw [KdbBase.height] at hsize
  refine KdbBase.followed (g := KdbBase.list cap attr) (KVal.vecHdr_length _ _ _)
    (by decide) ?_ ?_ ?_ (KdbBase.read_list cap attr) hat
    ((readItems_follows hobj cap).follow (by rw [ReadBuf.skipHdr_remaining]; omega)
      ⟨hlen, hv⟩)
  · exact fun x v hx => ⟨v, rfl, hcap, hx⟩
  · rintro x v ⟨ss, rfl, hfits, rfl, rfl⟩
    refine ⟨.list attr ss, ?_, ?_, ?_⟩
    · rw [Spelling.value, KVal.CountsFit, Spelling.valueAll_length]
      exact ⟨hcap, hfits⟩
    · rw [Spelling.value, KVal.obj, Spelling.valueAll_length]
    · rw [Spelling.bytes]
  · exact fun x v hx => ⟨v, rfl, hcap, hx⟩

theorem vector_follows (e : Elem) (cap : Nat) (attr : UInt8) (vec : List (BitVec (8 * e.width))) :
    FollowsWithin n (.vector e cap attr vec) := by
  intro u b hsize hheld hat
  rcases hheld with ⟨v, rfl, hcap, hv⟩
  refine KdbBase.followed (g := KdbBase.vector e cap attr) (KVal.vecHdr_length _ _ _)
    (by decide) ?_ ?_ (fun _ _ => False.elim) (KdbBase.read_vector e cap attr) hat
    ((readIntVectorData_follows e.width_pos cap (fun _ => 0)).follow (Nat.le_refl _) hv)
  · exact fun x v hx => ⟨v, rfl, hcap, hx⟩
  · rintro x v ⟨rfl, rfl⟩
    exact ⟨.vector e attr x, hcap, rfl, rfl⟩

theorem symbolVector_follows (cap : Nat) (attr : UInt8) (locs : List LocInfo) (data : List UInt8) :
    FollowsWithin n (.symbolVector cap attr locs data) := by
  intro u b hsize hheld hat
  rcases hheld with ⟨v, rfl, hcap, hv⟩
  refine KdbBase.followed (g := fun x => KdbBase.symbolVector cap attr x.1 x.2)
    (x := (locs, data)) (KVal.vecHdr_length _ _ _) (by decide) ?_ ?_
    (fun _ _ => False.elim) (fun x => KdbBase.read_symbolVector cap attr x.1 x.2) hat
    ((readSymbolVectorData_follows cap (fun _ => 0)).follow (Nat.le_refl _) hv)
  · exact fun x v hx => ⟨v, rfl, hcap, hx⟩
  · rintro x v ⟨syms, rfl, rfl, rfl⟩
    exact ⟨.symbolVector attr syms, hcap, rfl, rfl⟩

theorem table_follows (hobj : ReadsFollow n) {cols vals : Option KdbBase} :
    FollowsWithin n (.table cols vals) := by
  intro u b hsize hheld hat
  rcases hheld with ⟨attr, typ, v, rfl, hv⟩
  have hhdr : [KdbType.table.i8, attr, typ].length = 3 := rfl
  have hsmall : max (KdbBase.heightPtr cols) (KdbBase.heightPtr vals) +
      (b.skipHdr 3).remaining <= n := by
    rw [KdbBase.height] at hsize
    rw [ReadBuf.skipHdr_remaining]
    omega
  refine KdbBase.followed (g := fun x => KdbBase.table x.1 x.2) (x := (cols, vals)) hhdr
    (by decide) ?_ ?_ ?_ ?_ hat ((readParts_follows hobj (fun t => t == .symbolVector)
      (fun t => t == .list)).follow hsmall hv)
  · exact fun x v hx => ⟨attr, typ, v, rfl, hx⟩
  · exact fun x v hx => complete_table attr typ hx
  · exact fun x v hx => ⟨attr, typ, v, rfl, hx⟩
  · intro x c
    rw [KdbBase.read_table, KdbBase.readTableParts, readParts_eq]
    rfl

theorem dict_follows (hobj : ReadsFollow n) {keys vals : Option KdbBase} :
    FollowsWithin n (.dict keys vals) := by
  intro u b hsize hheld hat
  rcases hheld with ⟨step, v, rfl, hv⟩
  have hhdr : [if step = true then KdbType.stepDict.i8 else KdbType.dict.i8].length = 1 :=
    rfl
  have hsmall : max (KdbBase.heightPtr keys) (KdbBase.heightPtr vals) +
      (b.skipHdr 1).remaining <= n := by
    rw [KdbBase.height] at hsize
    rw [ReadBuf.skipHdr_remaining]
    omega
  refine KdbBase.followed (g := fun x => KdbBase.dict x.1 x.2) (x := (keys, vals)) hhdr
    Nat.one_pos ?_ ?_ ?_ ?_ hat ((readParts_follows hobj (fun _ => true)
      (fun _ => true)).follow hsmall hv)
  · exact fun x v hx => ⟨step, v, rfl, hx⟩
  · rintro ⟨p, q⟩ v ⟨u₁, u₂, rfl, ⟨_, rfl, _, s, hfit, rfl, rfl⟩,
      ⟨_, rfl, _, s', hfit', rfl, rfl⟩⟩
    exact ⟨.dict step s s', ⟨hfit, hfit'⟩, rfl, rfl⟩
  · exact fun x v hx => ⟨step, v, rfl, hx⟩
  · intro x c
    rw [KdbBase.read_dict, KdbBase.readDictParts, readParts_eq]
    rfl

theorem function_follows (cap : Nat) (vec : List UInt8) : FollowsWithin n (.function cap vec) := by
  intro u b hsize hheld hat
  rcases hheld with ⟨ctx, attr, v, rfl, hcap, hv⟩
  refine KdbBase.followed (g := KdbBase.function cap) (by simp) (by decide) ?_ ?_
    (fun _ _ => False.elim) (KdbBase.read_function cap) hat
    ((readFunctionText_follows cap (fun _ => 0)).follow (Nat.le_refl _) hv)
  · exact fun x v hx => ⟨ctx, attr, v, rfl, hcap, hx⟩
  · rintro x v ⟨rfl, rfl⟩
    exact ⟨.function ctx attr v, hcap, rfl, rfl⟩

theorem primitive_follows (arity : Arity) (val : UInt8) :
    FollowsWithin n (.primitive arity val) := by
  intro u b hsize hheld hat
  rcases hheld with ⟨v, rfl, hv⟩
  refine KdbBase.followed (g := KdbBase.primitive arity) rfl Nat.one_pos ?_ ?_
    (fun _ _ => False.elim) (KdbBase.read_primitive arity) hat
    ((readPrimitiveData_follows (fun _ => 0)).follow (Nat.le_refl _) hv)
  · exact fun x v hx => ⟨v, rfl, hx⟩
  · rintro x v rfl
    exact ⟨.primitive arity x, trivial, rfl, rfl⟩

theorem projection_follows (hobj : ReadsFollow n) {cap : Nat} {vec : List KdbBase} :
    FollowsWithin n (.projection cap vec) := by
  intro u b hsize hheld hat
  rcases hheld with ⟨v, rfl, hcap, hlen, hv⟩
  rw [KdbBase.height] at hsize
  refine KdbBase.followed (g := KdbBase.projection cap) (KVal.projectionHdr_length _)
    (by decide) ?_ ?_ ?_ (KdbBase.read_projection cap) hat
    ((readItems_follows hobj cap).follow (by rw [ReadBuf.skipHdr_remaining]; omega)
      ⟨hlen, hv⟩)
  · exact fun x v hx => ⟨v, rfl, hcap, hx⟩
  · rintro x v ⟨ss, rfl, hfits, rfl, rfl⟩
    refine ⟨.projection ss, ?_, ?_, ?_⟩
    · rw [Spelling.value, KVal.CountsFit, Spelling.valueAll_length]
      exact ⟨hcap, hfits⟩
    · rw [Spelling.value, KVal.obj, Spelling.valueAll_length]
    · rw [Spelling.bytes]
  · exact fun x v hx => ⟨v, rfl, hcap, hx⟩

end Classes

theorem readsFollow_succ {n : Nat} (hobj : ReadsFollow n) : ReadsFollow (n + 1) := by
  intro o u b hsize hheld hat
  cases o with
  | exception str => exact exception_follows str hsize hheld hat
  | atom e val => exact atom_follows e val hsize hheld hat
  | symbolAtom str => exact symbolAtom_follows str hsize hheld hat
  | list cap attr vals => exact list_follows hobj hsize hheld hat
  | vector e cap attr vec => exact vector_follows e cap attr vec hsize hheld hat
  | symbolVector cap attr locs data => exact symbolVector_follows cap attr locs data hsize hheld hat
  | table cols vals => exact table_follows hobj hsize hheld hat
  | dict keys vals => exact dict_follows hobj hsize hheld hat
  | function cap vec => exact function_follows cap vec hsize hheld hat
  | primitive arity val => exact primitive_follows arity val hsize hheld hat
  | projection cap vec => exact projection_follows hobj hsize hheld hat

theorem readsFollow (n : Nat) : ReadsFollow n := by
  induction n with
  | zero =>
      intro o u b hsize
      omega
  | succ n ih => exact readsFollow_succ ih

end MgKdb
