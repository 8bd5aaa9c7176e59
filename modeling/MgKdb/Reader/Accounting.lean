import MgKdb.Inflate.Stream
import MgKdb.Reader.Holding

/-!
# The account of a message's bytes

The reader takes what the payload's own counts ask for and what the buffer holds, and never
looks at the declared length again.  So the account is right as long as the payload is as
long as the header says.
-/

namespace MgKdb

open Foundation

namespace KdbIpcMessageReader

/-!
## The root object
-/

section Root

variable {r : KdbIpcMessageReader} {b b' : ReadBuf} {x : Option KdbBase} {rr : ReadResult}

theorem readMsgData1_ok (result : ReadMsgResult) (h : readElem r.msg b = (.ok, x, b')) :
    readMsgData1 r b result =
      ((true, { result with result := .ok, message := x }), { r with msg := none }, b') := by
  unfold readMsgData1
  cases hmsg : r.msg with
  | some o =>
      rw [hmsg, readElem] at h
      rcases hread : o.read b with ⟨rr, o', b2⟩
      rw [hread] at h
      cases h
      simp only [allocMsg, hread]
  | none =>
      rw [hmsg, readElem] at h
      rcases hnew : newInstance b with ⟨rr | o, b1⟩
      · rw [hnew] at h
        cases h
        exact absurd rfl (newInstance_error_ne_ok (congrArg Prod.fst hnew))
      · rw [hnew] at h
        rcases hread : o.read b1 with ⟨rr, o', b2⟩
        simp only [hread] at h
        cases h
        simp only [allocMsg, hnew, hread]

theorem readMsgData1_fails (result : ReadMsgResult) (h : readElem r.msg b = (rr, x, b'))
    (hrr : rr ≠ .ok) :
    exists code, readMsgData1 r b result =
      ((false, { result with result := code }), { r with msg := x }, b') := by
  unfold readMsgData1
  cases hmsg : r.msg with
  | some o =>
      rw [hmsg, readElem] at h
      rcases hread : o.read b with ⟨rr', o', b2⟩
      rw [hread] at h
      cases h
      simp only [allocMsg, hread]
      cases rr'
      case ok => exact absurd rfl hrr
      all_goals exact ⟨_, rfl⟩
  | none =>
      rw [hmsg, readElem] at h
      rcases hnew : newInstance b with ⟨rr' | o, b1⟩
      · rw [hnew] at h
        cases h
        have hsame : { r with msg := none } = r := by rw [← hmsg]
        simp only [allocMsg, hnew, hsame]
        cases rr <;> exact ⟨_, rfl⟩
      · rw [hnew] at h
        rcases hread : o.read b1 with ⟨rr', o', b2⟩
        simp only [hread] at h
        cases h
        simp only [allocMsg, hnew, hread]
        cases rr
        case ok => exact absurd rfl hrr
        all_goals exact ⟨_, rfl⟩

theorem readMsgBody_of_data {reply : Bool × ReadMsgResult} (result : ReadMsgResult)
    (hplain : r.compressed = false)
    (h : readMsgData1 r b result = (reply, { r with msg := x }, b')) :
    readMsgBody r b result =
      (reply, { r with
        msg := x
        bytDez := r.bytDez + (b'.off - b.off)
        bytUsd := r.bytUsd + (b'.off - b.off) }) := by
  rw [readMsgBody, if_pos hplain, readMsgData, h]

end Root

/-!
## Uncompressed messages
-/

/-- A front of a payload that may be taken while the root is not complete. -/
def Front (u : List UInt8) : Prop :=
  exists x, KdbBase.HoldingPtr (fun _ => true) x u ∨ KdbBase.StoppedPtr (fun _ => true) x u

structure PlainAt (n : Nat) (payload : List UInt8) (r : KdbIpcMessageReader) : Prop where
  plain : r.compressed = false
  ipcLen : r.ipcLen = n
  used : r.bytUsd = 8 + r.bytDez
  le : r.bytDez <= payload.length
  held : KdbBase.HoldingPtr (fun _ => true) r.msg (payload.take r.bytDez) ∨
    (Front (payload.take r.bytDez) ∧
      Stuck readElem r.msg r.bytDez (payload.drop r.bytDez))

structure PlainDone (n : Nat) (payload : List UInt8) (r : KdbIpcMessageReader) : Prop where
  ipcLen : r.ipcLen = n
  used : r.bytUsd = 8 + r.bytDez
  le : r.bytDez <= payload.length
  complete : exists o : KdbBase, o.Complete (payload.take r.bytDez)

section Plain

variable {n : Nat} {payload payload' : List UInt8} {r : KdbIpcMessageReader} {b : ReadBuf}

theorem PlainAt.front (h : PlainAt n payload r) : Front (payload.take r.bytDez) := by
  rcases h.held with hheld | ⟨hfront, _⟩
  · exact ⟨_, Or.inl hheld⟩
  · exact hfront

theorem PlainAt.more (h : PlainAt n payload r) (hpre : payload <+: payload') :
    PlainAt n payload' r := by
  rcases hpre with ⟨xs, rfl⟩
  have htake : (payload ++ xs).take r.bytDez = payload.take r.bytDez :=
    List.take_append_of_le_length h.le
  have hdrop : (payload ++ xs).drop r.bytDez = payload.drop r.bytDez ++ xs :=
    List.drop_append_of_le_length h.le
  refine ⟨h.plain, h.ipcLen, h.used, ?_, ?_⟩
  · rw [List.length_append]
    exact Nat.le_trans h.le (Nat.le_add_right _ _)
  · rw [htake, hdrop]
    rcases h.held with hheld | ⟨hfront, hstuck⟩
    · exact Or.inl hheld
    · refine Or.inr ⟨hfront, ?_⟩
      intro ys c hcsr hrest
      exact hstuck (xs ++ ys) c hcsr (by rw [hrest, List.append_assoc])

theorem readMsgBody_held (h : PlainAt n payload r)
    (hheld : KdbBase.HoldingPtr (fun _ => true) r.msg (payload.take r.bytDez))
    (hat : b.At r.bytDez 0 0) (hrest : b.rest = payload.drop r.bytDez)
    (result : ReadMsgResult) :
    ((readMsgBody r b result).1.1 = false ∧ PlainAt n payload (readMsgBody r b result).2) ∨
      ((readMsgBody r b result).1.1 = true ∧
        PlainDone n payload (readMsgBody r b result).2) := by
  have hlen : (payload.take r.bytDez).length = r.bytDez := by
    rw [List.length_take]
    exact Nat.min_eq_left h.le
  have hrem : b.remaining = payload.length - r.bytDez := by
    rw [ReadBuf.remaining, hrest, List.length_drop]
  have hle := h.le
  have htake (j : Nat) : payload.take r.bytDez ++ b.rest.take j =
      payload.take (r.bytDez + j) := by
    rw [hrest, List.take_add]
  have hused (j : Nat) : r.bytUsd + j = 8 + (r.bytDez + j) := by
    rw [h.used, Nat.add_assoc]
  obtain ⟨out, hout⟩ : exists out, readElem r.msg b = out := ⟨_, rfl⟩
  have hfollow := (readElem_slotted.follows (readsFollow _)).follow (Nat.le_refl _) hheld
    (by rw [hlen]; exact hat)
  rw [hout] at hfollow
  cases hfollow with
  | done x j hj hw =>
      rcases hw with ⟨o, rfl, _, hw⟩
      have hbody := readMsgBody_of_data result h.plain (readMsgData1_ok result hout)
      rw [hbody, ReadBuf.advance_off, Nat.add_sub_cancel_left]
      refine Or.inr ⟨rfl, h.ipcLen, hused j, by simp only; omega, o, ?_⟩
      rw [htake] at hw
      exact hw
  | short x j hj hp =>
      rcases readMsgData1_fails result hout (by simp) with ⟨code, hdata⟩
      rw [readMsgBody_of_data result h.plain hdata, ReadBuf.advance_off,
        Nat.add_sub_cancel_left]
      rw [htake] at hp
      exact Or.inl ⟨rfl, h.plain, h.ipcLen, hused j, by simp only; omega, Or.inl hp⟩
  | stuck rr x b' j hrr hj hoff hs hstuck =>
      rcases readMsgData1_fails result hout hrr with ⟨code, hdata⟩
      rw [readMsgBody_of_data result h.plain hdata, hoff, Nat.add_sub_cancel_left]
      rw [htake] at hs
      rw [hlen, hrest, List.drop_drop] at hstuck
      exact Or.inl ⟨rfl, h.plain, h.ipcLen, hused j, by simp only; omega,
        Or.inr ⟨⟨x, Or.inr hs⟩, hstuck⟩⟩

theorem readMsgBody_stuck (h : PlainAt n payload r)
    (hstuck : Stuck readElem r.msg r.bytDez (payload.drop r.bytDez))
    (hcsr : b.csr = -(r.bytDez : Int)) (hrest : b.rest = payload.drop r.bytDez)
    (result : ReadMsgResult) :
    (readMsgBody r b result).1.1 = false ∧ (readMsgBody r b result).2 = r := by
  rcases hstuck [] b hcsr (by rw [List.append_nil]; exact hrest) with
    ⟨rr, b', hread, hrr, hoff⟩
  rcases readMsgData1_fails result hread hrr with ⟨code, hdata⟩
  rw [readMsgBody_of_data result h.plain hdata, hoff, Nat.sub_self]
  exact ⟨rfl, rfl⟩

end Plain

/-!
## Compressed messages
-/

/-- Some front of the stream in `body` inflates to bytes that begin with an object's header. -/
def BegunIn (n m : Nat) (body : List UInt8) : Prop :=
  exists u s, u <+: body ∧ KdbIpcDecompressor.Inflates n m u s ∧
    exists (o : KdbBase) (v : List UInt8), v <+: s.dst ∧ o.Holding v

structure InflatingAt (n m : Nat) (body : List UInt8) (s : KdbIpcDecompressor)
    (r : KdbIpcMessageReader) : Prop where
  compressed : r.compressed = true
  ipcLen : r.ipcLen = n
  inflater : r.inflater = some s
  used : r.bytUsd = 12 + s.rdx
  reached : KdbIpcDecompressor.Reached n m body s
  begun : r.msg = none ∨ BegunIn n m body

/-- After the call that has completed the root, when the calls before had delivered `early`. -/
structure InflatedAt (n m : Nat) (early body : List UInt8) (s : KdbIpcDecompressor)
    (r : KdbIpcMessageReader) : Prop where
  ipcLen : r.ipcLen = n
  used : r.bytUsd = 12 + s.rdx
  inflates : KdbIpcDecompressor.Inflates n m body s
  object : BegunIn n m early ∨
    exists (o : KdbBase) (u : List UInt8), u <+: s.dst ∧ o.Complete u

section Compressed

variable {n m : Nat} {early body : List UInt8} {s : KdbIpcDecompressor}
  {r : KdbIpcMessageReader} {b : ReadBuf}

theorem BegunIn.more (h : BegunIn n m body) (xs : List UInt8) : BegunIn n m (body ++ xs) := by
  rcases h with ⟨u, s, hpre, hrest⟩
  exact ⟨u, s, hpre.trans (List.prefix_append _ _), hrest⟩

theorem InflatingAt.more (h : InflatingAt n m body s r) (xs : List UInt8) :
    InflatingAt n m (body ++ xs) s r :=
  ⟨h.compressed, h.ipcLen, h.inflater, h.used, h.reached.more xs,
    h.begun.imp_right fun hbegun => hbegun.more xs⟩

theorem readElem_begins {x : Option KdbBase} {b' : ReadBuf} {rr : ReadResult}
    (h : readElem none b = (rr, x, b')) :
    x = none ∨ exists (o : KdbBase) (v : List UInt8), v <+: b.rest ∧ o.Holding v := by
  rcases hnew : newInstance b with ⟨code | o, b1⟩
  · rw [readElem, hnew] at h
    cases h
    exact Or.inl rfl
  · rcases newInstance_takes hnew with ⟨k, _, _, _, _, hheld⟩
    exact Or.inr ⟨o, b.rest.take k, List.take_prefix _ _, hheld⟩

theorem readElem_completes {x : Option KdbBase} {b' : ReadBuf} (hcsr : 0 <= b.csr)
    (h : readElem none b = (.ok, x, b')) :
    exists (o : KdbBase) (u : List UInt8), u <+: b.rest ∧ o.Complete u := by
  have hat : b.At ([] : List UInt8).length 0 0 := by
    right
    simpa using hcsr
  have hfollow := (readElem_slotted.follows (readsFollow _)).follow
    (x := none) (Nat.le_refl _) rfl hat
  rw [h] at hfollow
  cases hfollow with
  | done x j hj hw =>
      rcases hw with ⟨o, rfl, _, hw⟩
      rw [List.nil_append] at hw
      exact ⟨o, _, List.take_prefix _ _, hw⟩
  | stuck rr x b' j hrr => exact absurd rfl hrr

/--
One call goes on along the stream.  If it completes a root that no call before has begun,
the inflated bytes begin with a complete object.
-/
theorem readMsgBody_inflating (h : InflatingAt n m body s r)
    (hbegun : r.msg = none ∨ BegunIn n m early) (hrest : b.rest = body.drop s.rdx)
    (result : ReadMsgResult) :
    ((readMsgBody r b result).1.1 = false ∧
        exists s', InflatingAt n m body s' (readMsgBody r b result).2) ∨
      ((readMsgBody r b result).1.1 = true ∧
        exists s', InflatedAt n m early body s' (readMsgBody r b result).2) := by
  have hcomp : ¬ r.compressed = false := by
    rw [h.compressed]
    decide
  rw [readMsgBody, if_neg hcomp, inflateMsg, h.inflater]
  simp only
  cases hun : s.uncompress b with
  | error f => exact Or.inl ⟨rfl, s, h⟩
  | ok next =>
      rcases next with ⟨s', b1⟩
      rcases h.reached.uncompress hrest hun with ⟨hinflates, hrdx⟩
      have hused : r.bytUsd + (b1.off - b.off) = 12 + s'.rdx := by
        rw [h.used, hrdx, Nat.add_assoc]
      have hcsr : 0 <= (s'.getReadBuf r.bytDez).csr := Int.natCast_nonneg _
      rcases hread : readElem r.msg (s'.getReadBuf r.bytDez) with ⟨rr, x, b'⟩
      simp only [readMsgData]
      by_cases hrr : rr = .ok
      · subst hrr
        rw [readMsgData1_ok (r := { r with inflater := some s' }) result hread]
        refine Or.inr ⟨rfl, s', h.ipcLen, hused, hinflates, ?_⟩
        rcases hbegun with hnone | hbegun
        · rw [hnone] at hread
          exact Or.inr (readElem_completes hcsr hread)
        · exact Or.inl hbegun
      · rcases readMsgData1_fails (r := { r with inflater := some s' }) result hread hrr with
          ⟨code, hdata⟩
        rw [hdata]
        refine Or.inl ⟨rfl, s', h.compressed, h.ipcLen, rfl, hused,
          ⟨body, List.prefix_rfl, hinflates⟩, ?_⟩
        rcases h.begun with hnone | hbegun
        · rw [hnone] at hread
          exact (readElem_begins hread).imp_right fun hheld =>
            ⟨body, s', List.prefix_rfl, hinflates, hheld⟩
        · exact Or.inr hbegun

end Compressed

/-!
## The header
-/

structure PlainHdr (got : List UInt8) : Prop where
  len : 8 <= got.length
  endian : (ReadBuf.new got 0).peekI8 = 1
  comp : (ReadBuf.new got 0).hdrComp ≠ 1

structure CompressedHdr (got : List UInt8) : Prop where
  len : 12 <= got.length
  endian : (ReadBuf.new got 0).peekI8 = 1
  comp : (ReadBuf.new got 0).hdrComp = 1

def declared (got : List UInt8) : Nat :=
  (ReadBuf.new got 0).hdrIpcLen

/-- The length that the header of a compressed message declares for the inflated one. -/
def declaredInflated (got : List UInt8) : Nat :=
  (ReadBuf.new got 0).hdrMsgLen

section Header

variable {got : List UInt8}

theorem declared_more (hlen : 8 <= got.length) (xs : List UInt8) :
    declared (got ++ xs) = declared got := by
  have hpre : (ReadBuf.new got 0).rest <+: (ReadBuf.new (got ++ xs) 0).rest :=
    List.prefix_append got xs
  exact congrArg u64 (ReadBuf.readI32_adj_of_shorter hpre hlen).symm

theorem declaredInflated_more (hlen : 12 <= got.length) (xs : List UInt8) :
    declaredInflated (got ++ xs) = declaredInflated got := by
  have hpre : (ReadBuf.new got 0).rest <+: (ReadBuf.new (got ++ xs) 0).rest :=
    List.prefix_append got xs
  exact congrArg u64 (ReadBuf.readI32_adj_of_shorter hpre hlen).symm

theorem refused_more {canAlloc : Nat -> Bool} (hlen : 12 <= got.length) (xs : List UInt8) :
    (ReadBuf.new (got ++ xs) 0).Refused canAlloc <-> (ReadBuf.new got 0).Refused canAlloc := by
  have hsame : (ReadBuf.new (got ++ xs) 0).hdrMsgLen = (ReadBuf.new got 0).hdrMsgLen :=
    declaredInflated_more hlen xs
  rw [ReadBuf.Refused, hsame, ReadBuf.Refused]

theorem hdrStart_more (hlen : 8 <= got.length) (xs : List UInt8) :
    (ReadBuf.new (got ++ xs) 0).peekI8 = (ReadBuf.new got 0).peekI8 ∧
      (ReadBuf.new (got ++ xs) 0).hdrComp = (ReadBuf.new got 0).hdrComp := by
  have hpre : (ReadBuf.new got 0).rest <+: (ReadBuf.new (got ++ xs) 0).rest :=
    List.prefix_append got xs
  have hrem : 8 <= (ReadBuf.new got 0).remaining := hlen
  exact ⟨(ReadBuf.peekI8_of_shorter hpre (by omega)).symm,
    (ReadBuf.peekI8_adj_of_shorter hpre (by omega)).symm⟩

theorem PlainHdr.more (h : PlainHdr got) (xs : List UInt8) : PlainHdr (got ++ xs) := by
  rcases hdrStart_more h.len xs with ⟨hend, hcomp⟩
  refine ⟨?_, hend.trans h.endian, hcomp.trans_ne h.comp⟩
  rw [List.length_append]
  exact Nat.le_trans h.len (Nat.le_add_right _ _)

theorem PlainHdr.front {m : Nat} (h : PlainHdr got) (hm : 8 <= m) : PlainHdr (got.take m) := by
  have hlen : 8 <= (got.take m).length := by
    rw [List.length_take]
    exact Nat.le_min.mpr ⟨hm, h.len⟩
  have hsame := hdrStart_more hlen (got.drop m)
  rw [List.take_append_drop] at hsame
  exact ⟨hlen, hsame.left.symm.trans h.endian, hsame.right.symm.trans_ne h.comp⟩

theorem CompressedHdr.more (h : CompressedHdr got) (xs : List UInt8) :
    CompressedHdr (got ++ xs) := by
  rcases hdrStart_more (Nat.le_trans (by decide) h.len) xs with ⟨hend, hcomp⟩
  refine ⟨?_, hend.trans h.endian, hcomp.trans h.comp⟩
  rw [List.length_append]
  exact Nat.le_trans h.len (Nat.le_add_right _ _)

end Header

/-!
## One call
-/

/-- What is known of a reader between two calls that have delivered `got`. -/
inductive Accounted (canAlloc : Nat -> Bool) (got : List UInt8) (r : KdbIpcMessageReader) :
    Prop
  | idle (h : Idle r) (hinf : r.inflater = none) (hhdr : ¬ PlainHdr got)
  | refused (hhdr : CompressedHdr got) (hne : declared got ≠ 0) (hipc : r.ipcLen = declared got)
      (hcomp : r.compressed = true) (hused : r.bytUsd = 0) (hinf : r.inflater = none)
  | plain (hhdr : PlainHdr got) (h : PlainAt (declared got) (got.drop 8) r)
  | inflating (hhdr : CompressedHdr got) (hfits : ¬ (ReadBuf.new got 0).Refused canAlloc)
      (s : KdbIpcDecompressor)
      (h : InflatingAt (declared got) (declaredInflated got) (got.drop 12) s r)

/-- What is known of the reader when a call behind those for `early` has completed the message. -/
inductive Completed (canAlloc : Nat -> Bool) (early got : List UInt8)
    (r : KdbIpcMessageReader) : Prop
  | plain (hhdr : PlainHdr got) (h : PlainDone (declared got) (got.drop 8) r)
  | inflated (hhdr : CompressedHdr got) (hfits : ¬ (ReadBuf.new got 0).Refused canAlloc)
      (s : KdbIpcDecompressor)
      (h : InflatedAt (declared got) (declaredInflated got) (early.drop 12) (got.drop 12) s r)

def Outcome (canAlloc : Nat -> Bool) (early got : List UInt8)
    (out : (Bool × ReadMsgResult) × KdbIpcMessageReader) : Prop :=
  (out.1.1 = false ∧ Accounted canAlloc got out.2) ∨
    (out.1.1 = true ∧ Completed canAlloc early got out.2)

section Calls

variable {canAlloc : Nat -> Bool} {early got xs : List UInt8} {r r1 : KdbIpcMessageReader}
  {b1 : ReadBuf} {result result1 : ReadMsgResult}

theorem readMsg_of_hdr {src : List UInt8}
    (h : readMsgHdr canAlloc r (ReadBuf.new src (-r.bytUsd)) result =
      ((true, result1), r1, b1)) :
    readMsg canAlloc r src result = readMsgBody r1 b1 result1 := by
  rw [readMsg, h]
  rfl

theorem outcome_plain (hhdr : PlainHdr got)
    (h : readMsgHdr canAlloc r (ReadBuf.new (got.drop r.bytUsd) (-r.bytUsd)) result =
      ((true, result1), r1, b1))
    (hat : PlainAt (declared got) (got.drop 8) r1)
    (hheld : KdbBase.HoldingPtr (fun _ => true) r1.msg ((got.drop 8).take r1.bytDez))
    (hcsr : b1.At r1.bytDez 0 0) (hrest : b1.rest = (got.drop 8).drop r1.bytDez) :
    Outcome canAlloc early got (readMsg canAlloc r (got.drop r.bytUsd) result) := by
  rw [readMsg_of_hdr h]
  rcases readMsgBody_held hat hheld hcsr hrest result1 with ⟨hfalse, hnext⟩ | ⟨htrue, hdone⟩
  · exact Or.inl ⟨hfalse, .plain hhdr hnext⟩
  · exact Or.inr ⟨htrue, .plain hhdr hdone⟩

theorem outcome_inflating (hhdr : CompressedHdr got)
    (hfits : ¬ (ReadBuf.new got 0).Refused canAlloc) {s : KdbIpcDecompressor}
    (h : readMsgHdr canAlloc r (ReadBuf.new (got.drop r.bytUsd) (-r.bytUsd)) result =
      ((true, result1), r1, b1))
    (hat : InflatingAt (declared got) (declaredInflated got) (got.drop 12) s r1)
    (hbegun : r1.msg = none ∨
      BegunIn (declared got) (declaredInflated got) (early.drop 12))
    (hrest : b1.rest = (got.drop 12).drop s.rdx) :
    Outcome canAlloc early got (readMsg canAlloc r (got.drop r.bytUsd) result) := by
  rw [readMsg_of_hdr h]
  rcases readMsgBody_inflating hat hbegun hrest result1 with
    ⟨hfalse, s', hnext⟩ | ⟨htrue, s', hdone⟩
  · exact Or.inl ⟨hfalse, .inflating hhdr hfits s' hnext⟩
  · exact Or.inr ⟨htrue, .inflated hhdr hfits s' hdone⟩

theorem outcome_idle (hidle : Idle r) (hnone : r.inflater = none) (result : ReadMsgResult) :
    Outcome canAlloc early got (readMsg canAlloc r (got.drop r.bytUsd) result) := by
  have hzero : ReadBuf.new (got.drop r.bytUsd) (-r.bytUsd) = ReadBuf.new got 0 := by
    rw [hidle.used]
    rfl
  obtain ⟨out, hout⟩ : exists out,
      readMsgHdr canAlloc r (ReadBuf.new (got.drop r.bytUsd) (-r.bytUsd)) result = out :=
    ⟨_, rfl⟩
  have hstep := readMsgHdr_step canAlloc r (ReadBuf.new got 0) result
  rw [← hzero, hout, hzero] at hstep
  have hfail : out.1.1 = false -> readMsg canAlloc r (got.drop r.bytUsd) result =
      (out.1, out.2.1) := by
    intro hfalse
    rw [readMsg, hout, if_pos hfalse]
  cases hstep with
  | again hne => exact absurd hidle.ipcLen hne
  | short _ hshort =>
      rw [hfail rfl]
      exact Or.inl ⟨rfl, .idle hidle hnone fun hhdr => absurd hhdr.len (Nat.not_le.mpr hshort)⟩
  | endian _ _ hend =>
      rw [hfail rfl]
      exact Or.inl ⟨rfl, .idle hidle hnone fun hhdr => hend hhdr.endian⟩
  | cut _ _ _ hcomp =>
      rw [hfail rfl]
      exact Or.inl ⟨rfl, .idle ⟨rfl, hidle.used, hidle.held⟩ hnone fun hhdr => hhdr.comp hcomp⟩
  | refused _ hlen hend hcomp =>
      rw [hfail rfl]
      by_cases hlength : declared got = 0
      · exact Or.inl ⟨rfl, .idle ⟨hlength, hidle.used, hidle.held⟩ hnone
          fun hhdr => hhdr.comp hcomp⟩
      · exact Or.inl ⟨rfl, .refused ⟨hlen, hend, hcomp⟩ hlength rfl rfl hidle.used hnone⟩
  | plain _ hlen hend hcomp =>
      have hheld : KdbBase.HoldingPtr (fun _ => true)
          (r.behindPlain (ReadBuf.new got 0)).msg ((got.drop 8).take 0) := by
        rw [behindPlain, hidle.held]
        rfl
      exact outcome_plain ⟨hlen, hend, hcomp⟩ hout
        ⟨rfl, rfl, rfl, Nat.zero_le _, Or.inl hheld⟩ hheld
        (Or.inr ⟨by simp [ReadBuf.new], rfl, rfl⟩) rfl
  | compressed _ hlen hend hcomp hfits =>
      exact outcome_inflating ⟨hlen, hend, hcomp⟩ hfits hout
        ⟨rfl, rfl, rfl, rfl, KdbIpcDecompressor.reached_new _ _ _, Or.inl hidle.held⟩
        (Or.inl hidle.held) rfl

def DeclaresLength (canAlloc : Nat -> Bool) (got : List UInt8) : Prop :=
  (PlainHdr got -> declared got ≠ 0) ∧
    (CompressedHdr got -> ¬ (ReadBuf.new got 0).Refused canAlloc -> declared got ≠ 0)

theorem Accounted.call (h : Accounted canAlloc got r)
    (hdecl : DeclaresLength canAlloc (got ++ xs)) (result : ReadMsgResult) :
    Outcome canAlloc got (got ++ xs)
      (readMsg canAlloc r ((got ++ xs).drop r.bytUsd) result) := by
  cases h with
  | idle hidle hnone _ => exact outcome_idle hidle hnone result
  | refused hhdr hne hipc hcomp hused hnone =>
      have hsame := declared_more (Nat.le_trans (by decide) hhdr.len) xs
      have hhdr' : readMsgHdr canAlloc r _ result = _ :=
        readMsgHdr_again_eq (b := ReadBuf.new ((got ++ xs).drop r.bytUsd) (-r.bytUsd))
          (by rw [hipc]; exact hne)
      rw [readMsg_of_hdr hhdr', readMsgBody, if_neg (by rw [hcomp]; decide), inflateMsg, hnone]
      exact Or.inl ⟨rfl, .refused (hhdr.more xs) (hsame.trans_ne hne) (hipc.trans hsame.symm)
        hcomp hused hnone⟩
  | plain hhdr hat =>
      have hsame := declared_more hhdr.len xs
      have hpre : got.drop 8 <+: (got ++ xs).drop 8 := (List.prefix_append got xs).drop 8
      have hmore := hat.more hpre
      rw [← hsame] at hmore
      have hne : r.ipcLen ≠ 0 := by
        rw [hmore.ipcLen]
        exact hdecl.left (hhdr.more xs)
      have hhdr' : readMsgHdr canAlloc r _ result = _ :=
        readMsgHdr_again_eq (b := ReadBuf.new ((got ++ xs).drop r.bytUsd) (-r.bytUsd)) hne
      rw [hat.plain, if_neg Bool.false_ne_true] at hhdr'
      have hrest : ((ReadBuf.new ((got ++ xs).drop r.bytUsd) (-r.bytUsd)).ffwd 8).rest =
          ((got ++ xs).drop 8).drop r.bytDez := by
        rw [ReadBuf.ffwd_rest, ReadBuf.new, List.drop_drop, hat.used]
      have hcsr : ((ReadBuf.new ((got ++ xs).drop r.bytUsd) (-r.bytUsd)).ffwd 8).csr =
          -(r.bytDez : Int) := by
        rw [ReadBuf.ffwd_csr, ReadBuf.new, hat.used]
        push_cast
        omega
      rcases hmore.held with hheld | ⟨_, hstuck⟩
      · refine outcome_plain (hhdr.more xs) hhdr' hmore hheld (Or.inl ?_) hrest
        exact hcsr.trans (by simp)
      · rw [readMsg_of_hdr hhdr']
        rcases readMsgBody_stuck hmore hstuck hcsr hrest result with ⟨hfalse, hstay⟩
        refine Or.inl ⟨hfalse, ?_⟩
        rw [hstay]
        exact .plain (hhdr.more xs) hmore
  | inflating hhdr hfits s hat =>
      have hsame := declared_more (Nat.le_trans (by decide) hhdr.len) xs
      have hsame' := declaredInflated_more hhdr.len xs
      have hfits' : ¬ (ReadBuf.new (got ++ xs) 0).Refused canAlloc := by
        rwa [refused_more hhdr.len]
      have hmore := hat.more xs
      rw [← hsame, ← hsame', ← List.drop_append_of_le_length hhdr.len] at hmore
      have hne : r.ipcLen ≠ 0 := by
        rw [hmore.ipcLen]
        exact hdecl.right (hhdr.more xs) hfits'
      have hhdr' : readMsgHdr canAlloc r _ result = _ :=
        readMsgHdr_again_eq (b := ReadBuf.new ((got ++ xs).drop r.bytUsd) (-r.bytUsd)) hne
      rw [hat.compressed, if_pos rfl] at hhdr'
      have hbegun := hat.begun
      rw [← hsame, ← hsame'] at hbegun
      refine outcome_inflating (hhdr.more xs) hfits' hhdr' hmore hbegun ?_
      rw [ReadBuf.ffwd_rest, ReadBuf.ffwd_rest, ReadBuf.new, List.drop_drop, hat.used]

theorem Accounted.behind (h : Accounted canAlloc got r) (hhdr : PlainHdr got) :
    PlainAt (declared got) (got.drop 8) r := by
  cases h with
  | idle _ _ hnot => exact absurd hhdr hnot
  | refused hother => exact absurd hother.comp hhdr.comp
  | plain _ hat => exact hat
  | inflating hother => exact absurd hother.comp hhdr.comp

end Calls

/-!
## The declared length
-/

/--
An uncompressed payload is as long as `n`, the declared length, says: nothing that may
be taken of it goes beyond, and a complete object ends there.
-/
structure PlainFits (n : Nat) (payload : List UInt8) : Prop where
  front : forall u, u <+: payload -> Front u -> 8 + u.length <= n
  object : forall (o : KdbBase) (u : List UInt8), u <+: payload -> o.Complete u ->
    8 + u.length = n

/--
A compressed message is as long as declared: whatever of the stream inflates ends within
the declared length.  And it ends there with the bytes of the call, or the object is still
open: the bytes `early` of the calls before do not show its header, and those inflated now
do not show all of it.
-/
structure CompressedFits (early got : List UInt8) : Prop where
  stream : forall u s, u <+: got.drop 12 ->
    KdbIpcDecompressor.Inflates (declared got) (declaredInflated got) u s ->
      12 + s.rdx <= declared got
  object : forall s,
    KdbIpcDecompressor.Inflates (declared got) (declaredInflated got) (got.drop 12) s ->
      12 + s.rdx = declared got ∨
        (¬ BegunIn (declared got) (declaredInflated got) (early.drop 12) ∧
          forall (o : KdbBase) (u : List UInt8), u <+: s.dst -> ¬ o.Complete u)

/-- What the account of a call rests on, with `early` delivered before it and `got` with it. -/
structure Fits (canAlloc : Nat -> Bool) (early got : List UInt8) : Prop where
  plain : PlainHdr got -> PlainFits (declared got) (got.drop 8)
  compressed : CompressedHdr got -> ¬ (ReadBuf.new got 0).Refused canAlloc ->
    CompressedFits early got

section Account

variable {canAlloc : Nat -> Bool} {early got : List UInt8} {r : KdbIpcMessageReader}

theorem declared_lt (got : List UInt8) : declared got < 2 ^ 64 := by
  unfold declared ReadBuf.hdrIpcLen u64
  omega

theorem front_nil : Front [] := ⟨none, Or.inl rfl⟩

theorem DeclaresLength.front {xs : List UInt8} (h : DeclaresLength canAlloc (got ++ xs)) :
    DeclaresLength canAlloc got := by
  refine ⟨fun hhdr => ?_, fun hhdr hfits => ?_⟩
  · rw [← declared_more hhdr.len xs]
    exact h.left (hhdr.more xs)
  · rw [← declared_more (Nat.le_trans (by decide) hhdr.len) xs]
    exact h.right (hhdr.more xs) (by rwa [refused_more hhdr.len])

theorem Accounted.within (h : Accounted canAlloc got r)
    (hfits : Fits canAlloc early got) : r.bytUsd <= r.ipcLen ∧ r.ipcLen < 2 ^ 64 := by
  cases h with
  | idle hidle =>
      rw [hidle.used, hidle.ipcLen]
      exact ⟨Nat.le_refl 0, by decide⟩
  | refused _ _ hipc _ hused =>
      rw [hused, hipc]
      exact ⟨Nat.zero_le _, declared_lt got⟩
  | plain hhdr hat =>
      have hfront := (hfits.plain hhdr).front _ (List.take_prefix _ _) hat.front
      rw [List.length_take, Nat.min_eq_left hat.le] at hfront
      rw [hat.used, hat.ipcLen]
      exact ⟨hfront, declared_lt got⟩
  | inflating hhdr hroom s hat =>
      rcases hat.reached with ⟨u, hpre, hinflates⟩
      rw [hat.used, hat.ipcLen]
      exact ⟨(hfits.compressed hhdr hroom).stream u s hpre hinflates, declared_lt got⟩

theorem Completed.exact (h : Completed canAlloc early got r)
    (hfits : Fits canAlloc early got) : r.bytUsd = r.ipcLen ∧ r.ipcLen < 2 ^ 64 := by
  cases h with
  | plain hhdr hat =>
      rcases hat.complete with ⟨o, ho⟩
      have hobject := (hfits.plain hhdr).object o _ (List.take_prefix _ _) ho
      rw [List.length_take, Nat.min_eq_left hat.le] at hobject
      rw [hat.used, hat.ipcLen]
      exact ⟨hobject, declared_lt got⟩
  | inflated hhdr hroom s hat =>
      rw [hat.used, hat.ipcLen]
      refine ⟨?_, declared_lt got⟩
      rcases (hfits.compressed hhdr hroom).object s hat.inflates with heq | ⟨hfresh, hopen⟩
      · exact heq
      · rcases hat.object with hbegun | ⟨o, u, hpre, ho⟩
        · exact absurd hbegun hfresh
        · exact absurd ho (hopen o u hpre)

end Account

end KdbIpcMessageReader

end MgKdb
