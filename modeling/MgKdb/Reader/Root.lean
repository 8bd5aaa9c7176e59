import MgKdb.Reader.Compressed
import MgKdb.Reader.Reached

/-!
# A malformed root object

`readMsgData1` answers any failed allocation of the root with incomplete.  However a
message is cut, the call that makes the malformed root visible looks like every call
before it.
-/

namespace MgKdb

open Foundation

/-!
## What an allocation looks at
-/

theorem canRead_of_le {b : ReadBuf} {n : Nat} (h : n <= b.remaining) :
    ¬ b.canRead n = false := by
  rw [ReadBuf.canRead_eq, not_not]
  exact h

/--
From a buffer that shows less, an allocation is incomplete, or it does what it does with
all bytes.
-/
def Local (alloc : ReadBuf -> NewOut) : Prop :=
  forall b c : ReadBuf, c.rest <+: b.rest -> 0 <= b.csr -> 0 <= c.csr ->
    0 < c.remaining ->
    alloc c = (.error .incomplete, c) ∨
      exists n, n <= c.remaining ∧ alloc c = ((alloc b).1, c.adj n)

theorem newAtomFromType_local (o : KdbBase) : Local (fun b => newAtomFromType b o) := by
  intro b c _hpre _hb _hc hpos
  exact Or.inr ⟨1, hpos, rfl⟩

theorem newVec32_local (mk : Nat -> UInt8 -> KdbBase) :
    Local (fun b => newVec32 b mk) := by
  intro b c hpre _hb _hc _hpos
  have hle : c.remaining <= b.remaining := hpre.length_le
  simp only [newVec32, ReadBuf.readI8_fst, ReadBuf.readI8_snd, ReadBuf.readI32_snd,
    ReadBuf.adj_adj, Nat.reduceAdd]
  by_cases hlen : 6 <= c.remaining
  · right
    rw [if_neg (canRead_of_le hlen), if_neg (canRead_of_le (Nat.le_trans hlen hle)),
      ReadBuf.readI32_adj_of_shorter hpre (by omega),
      ReadBuf.peekI8_adj_of_shorter hpre (by omega)]
    refine ⟨6, hlen, ?_⟩
    split <;> rfl
  · left
    rw [if_pos (by rw [ReadBuf.canRead_eq]; omega)]

theorem tableAlloc_local : Local KdbTable.alloc := by
  intro b c hpre _hb _hc _hpos
  have hle : c.remaining <= b.remaining := hpre.length_le
  rw [tableAlloc_eq, tableAlloc_eq]
  by_cases hlen : 3 <= c.remaining
  · right
    rw [if_pos hlen, if_pos (by omega)]
    exact ⟨3, hlen, rfl⟩
  · left
    rw [if_neg hlen]

theorem functionAlloc_local : Local KdbFunction.alloc := by
  intro b c hpre hb hc _hpos
  have hle : c.remaining <= b.remaining := hpre.length_le
  simp only [KdbFunction.alloc, ReadBuf.cursorActive_of_nonneg hb,
    ReadBuf.cursorActive_of_nonneg hc, if_true, ReadBuf.readI8_fst, ReadBuf.readI8_snd,
    ReadBuf.readI32_snd, ReadBuf.adj_adj, Nat.reduceAdd]
  by_cases hlen : 8 <= c.remaining
  · right
    rw [if_neg (canRead_of_le hlen), if_neg (canRead_of_le (Nat.le_trans hlen hle)),
      ReadBuf.readI32_adj_of_shorter hpre (by omega),
      ReadBuf.peekI8_adj_of_shorter hpre (by omega)]
    refine ⟨8, hlen, ?_⟩
    split <;> rfl
  · left
    rw [if_pos (by rw [ReadBuf.canRead_eq]; omega)]

theorem projectionAlloc_local : Local KdbProjection.alloc := by
  intro b c hpre _hb _hc _hpos
  have hle : c.remaining <= b.remaining := hpre.length_le
  simp only [KdbProjection.alloc, ReadBuf.readI8_snd, ReadBuf.readI32_snd,
    ReadBuf.adj_adj, Nat.reduceAdd]
  by_cases hlen : 5 <= c.remaining
  · right
    rw [if_neg (canRead_of_le hlen), if_neg (canRead_of_le (Nat.le_trans hlen hle)),
      ReadBuf.readI32_adj_of_shorter hpre (by omega)]
    refine ⟨5, hlen, ?_⟩
    split <;> rfl
  · left
    rw [if_pos (by rw [ReadBuf.canRead_eq]; omega)]

theorem newInstanceOf_local (t : Option KdbType) : Local (newInstanceOf t) := by
  intro b c hpre hb hc hpos
  have hlogic : exists n, n <= c.remaining ∧
      ((Except.error ReadResult.errLogic, c) : NewOut) = (.error .errLogic, c.adj n) :=
    ⟨0, Nat.zero_le _, by rw [ReadBuf.adj_zero]⟩
  cases t with
  | none => exact Or.inr hlogic
  | some t =>
      cases t <;> simp only [newInstanceOf] <;>
        first
        | exact newAtomFromType_local _ b c hpre hb hc hpos
        | exact newVec32_local _ b c hpre hb hc hpos
        | exact tableAlloc_local b c hpre hb hc hpos
        | exact functionAlloc_local b c hpre hb hc hpos
        | exact projectionAlloc_local b c hpre hb hc hpos
        | exact Or.inr hlogic

theorem newInstance_local {b c : ReadBuf} (hpre : c.rest <+: b.rest) (hb : 0 <= b.csr)
    (hc : 0 <= c.csr) :
    newInstance c = (.error .incomplete, c) ∨
      exists n, n <= c.remaining ∧ newInstance c = ((newInstance b).1, c.adj n) := by
  have hle : c.remaining <= b.remaining := hpre.length_le
  simp only [newInstance, ReadBuf.cursorActive_of_nonneg hb,
    ReadBuf.cursorActive_of_nonneg hc, if_true]
  by_cases hpos : 0 < c.remaining
  · rw [if_neg (canRead_of_le hpos), if_neg (canRead_of_le (Nat.le_trans hpos hle)),
      ReadBuf.peekI8_of_shorter hpre hpos]
    exact newInstanceOf_local _ b c hpre hb hc hpos
  · left
    rw [if_pos (by rw [ReadBuf.canRead_eq]; omega)]

theorem newInstance_congr {b c : ReadBuf} (hrest : c.rest = b.rest) (hb : 0 <= b.csr)
    (hc : 0 <= c.csr) : (newInstance c).1 = (newInstance b).1 := by
  rcases newInstance_local (hrest ▸ List.prefix_rfl) hb hc with hcut | ⟨_, _, hsame⟩
  · rcases newInstance_local (hrest ▸ List.prefix_rfl) hc hb with hcut' | ⟨_, _, hsame⟩
    · rw [hcut, hcut']
    · rw [hsame]
  · rw [hsame]

namespace KdbIpcMessageReader

/-!
## The root as a single call sees it
-/

/-- The parser of a single call with `got` starts on the bytes `shown`. -/
def Shows (canAlloc : Nat -> Bool) (got shown : List UInt8) : Prop :=
  exists r b, new.parsing canAlloc got unset = some (r, b) ∧ b.rest = shown ∧ 0 <= b.csr

/-- In a single call with `got` the root cannot be allocated, for a reason given. -/
def RootFails (canAlloc : Nat -> Bool) (got : List UInt8) (rr : ReadResult) : Prop :=
  exists shown, Shows canAlloc got shown ∧
    (newInstance (ReadBuf.new shown 0)).1 = .error rr

variable {canAlloc : Nat -> Bool} {msg : IpcMsg} {r : KdbIpcMessageReader}
  {got xs shown : List UInt8} {rr : ReadResult}

theorem newInstance_fails_of_front {shown' : List UInt8} (hpre : shown <+: shown')
    (hrr : rr ≠ .incomplete)
    (hfail : (newInstance (ReadBuf.new shown 0)).1 = .error rr) :
    (newInstance (ReadBuf.new shown' 0)).1 = .error rr := by
  rcases newInstance_local (b := ReadBuf.new shown' 0) (c := ReadBuf.new shown 0) hpre
    (Int.le_refl 0) (Int.le_refl 0) with hcut | ⟨_, _, hsame⟩
  · rw [hcut] at hfail
    exact absurd (Except.error.inj hfail).symm hrr
  · rw [hsame] at hfail
    exact hfail

theorem readMsgData_of_fails {b : ReadBuf} {code : ReadResult} (result : ReadMsgResult)
    (hmsg : r.msg = none) (hfail : (newInstance b).1 = .error code)
    (hcode : forall why, code ≠ .trap why) :
    (readMsgData r b result).1 = (false, { result with result := .incomplete }) := by
  rw [readMsgData_fst]
  unfold readMsgData1
  rw [hmsg, allocMsg]
  rcases hnew : newInstance b with ⟨code' | o, b1⟩
  · rw [hnew] at hfail
    cases hfail
    cases code
    case trap why => exact absurd rfl (hcode why)
    all_goals rfl
  · rw [hnew] at hfail
    cases hfail

theorem readMsgData_of_incomplete {b : ReadBuf} (result : ReadMsgResult)
    (hmsg : r.msg = none) (hcut : newInstance b = (.error .incomplete, b)) :
    readMsgData r b result = ((false, { result with result := .incomplete }), r, b) := by
  simp only [readMsgData, readMsgData1, hmsg, allocMsg, hcut, Nat.sub_self, Nat.add_zero]
  rw [← hmsg]

/-!
## Uncompressed messages
-/

structure Waiting (msg : IpcMsg) (r : KdbIpcMessageReader) : Prop where
  plain : r.compressed = false
  ipcLen : r.ipcLen = 8 + msg.rest.length
  used : r.bytUsd = 8
  dez : r.bytDez = 0
  held : r.msg = none

/-- Between two calls that have delivered `got` of a message, none of it the root. -/
def WaitingWith (msg : IpcMsg) (got : List UInt8) (r : KdbIpcMessageReader) : Prop :=
  Idle r ∨ (8 <= got.length ∧ Waiting msg r)

theorem readMsgBody_plain (b : ReadBuf) (result : ReadMsgResult)
    (hplain : r.compressed = false) :
    readMsgBody r b result =
      ((readMsgData r b result).1,
        { (readMsgData r b result).2.1 with
          bytUsd := r.bytUsd + ((readMsgData r b result).2.2.off - b.off) }) := by
  rcases readMsgData_frame r b result with ⟨x, hframe⟩
  rw [readMsgBody, if_pos hplain]
  simp only [hframe]

theorem readMsg_plain (canAlloc : Nat -> Bool) (hsize : msg.bytes.length < 2 ^ 31)
    (hcomp : msg.comp ≠ 1) (hr : WaitingWith msg got r) (hpre : got ++ xs <+: msg.bytes)
    (h8 : 8 <= (got ++ xs).length) (result : ReadMsgResult) :
    exists r1 b result1,
      r.parsing canAlloc ((got ++ xs).drop r.bytUsd) result = some (r1, b) ∧
      readMsg canAlloc r ((got ++ xs).drop r.bytUsd) result =
        ((readMsgData r1 b result1).1,
          { (readMsgData r1 b result1).2.1 with
            bytUsd := 8 + ((readMsgData r1 b result1).2.2.off - b.off) }) ∧
      Waiting msg r1 ∧ b.rest = (got ++ xs).drop 8 ∧ 0 <= b.csr := by
  rcases hr with hidle | ⟨_, hr⟩
  · -- the header is read in this call
    have hlen : 8 <= (ReadBuf.new (got ++ xs) 0).remaining := h8
    have hhead := IpcMsg.headed_of_front hsize hlen hpre
    have hhdr : readMsgHdr canAlloc r (ReadBuf.new (got ++ xs) 0) result = _ :=
      readMsgHdr_plain_eq hidle.ipcLen hlen hhead.endian
        (by rw [hhead.comp]; exact hcomp)
    refine ⟨r.behindPlain (ReadBuf.new (got ++ xs) 0), (ReadBuf.new (got ++ xs) 0).adj 8,
      { result with msgTyp := (ReadBuf.new (got ++ xs) 0).hdrTyp }, ?_, ?_,
      ⟨rfl, hhead.ipcLen, rfl, rfl, hidle.held⟩, rfl, by simp [ReadBuf.new]⟩
    · rw [hidle.used, List.drop_zero, parsing, hidle.used, Nat.cast_zero, neg_zero, hhdr]
      rfl
    · rw [hidle.used, List.drop_zero, readMsg, hidle.used, Nat.cast_zero, neg_zero, hhdr]
      exact readMsgBody_plain (r := r.behindPlain (ReadBuf.new (got ++ xs) 0)) _ _ rfl
  · -- the header was read in an earlier call
    have hne : r.ipcLen ≠ 0 := by
      rw [hr.ipcLen]
      omega
    refine ⟨r, (ReadBuf.new ((got ++ xs).drop r.bytUsd) (-r.bytUsd)).ffwd 8, result,
      ?_, ?_, hr, ?_, ?_⟩
    · rw [parsing, readMsgHdr_again_eq hne, hr.plain]
      rfl
    · have hbody := readMsgBody_plain
        ((ReadBuf.new ((got ++ xs).drop r.bytUsd) (-r.bytUsd)).ffwd 8) result hr.plain
      rw [hr.used] at hbody ⊢
      rw [readMsg, hr.used, readMsgHdr_again_eq hne, hr.plain]
      exact hbody
    · rw [hr.used]
      rfl
    · rw [ReadBuf.ffwd_csr, ReadBuf.new, hr.used]
      exact Int.le_refl 0

theorem readMsg_short {src : List UInt8} (hidle : Idle r) (hlen : src.length < 8)
    (result : ReadMsgResult) :
    r.parsing canAlloc src result = none ∧
      readMsg canAlloc r src result = ((false, { result with result := .incomplete }), r) := by
  have hhdr : readMsgHdr canAlloc r (ReadBuf.new src 0) result = _ :=
    readMsgHdr_short result hidle.ipcLen hlen
  rw [parsing, readMsg, hidle.used, Nat.cast_zero, neg_zero, hhdr]
  exact ⟨rfl, rfl⟩

theorem shows_plain (canAlloc : Nat -> Bool) (hsize : msg.bytes.length < 2 ^ 31)
    (hcomp : msg.comp ≠ 1) (hpre : got <+: msg.bytes) :
    Shows canAlloc got shown <-> 8 <= got.length ∧ got.drop 8 = shown := by
  have hidle : Idle new := idle_reset new
  have hstart : WaitingWith msg [] new := Or.inl hidle
  constructor
  · rintro ⟨r, b, hparse, hrest, _⟩
    by_cases h8 : 8 <= got.length
    · rcases readMsg_plain canAlloc hsize hcomp hstart hpre h8 unset with
        ⟨r1, b1, _, hparse', _, _, hrest', _⟩
      have hout := hparse.symm.trans hparse'
      cases hout
      exact ⟨h8, hrest'.symm.trans hrest⟩
    · rw [(readMsg_short hidle (Nat.not_le.mp h8) unset).left] at hparse
      cases hparse
  · rintro ⟨h8, rfl⟩
    rcases readMsg_plain canAlloc hsize hcomp hstart hpre h8 unset with
      ⟨r1, b1, _, hparse, _, _, hrest, hcsr⟩
    exact ⟨r1, b1, hparse, hrest, hcsr⟩

/--
`Masks`: as long as the root of a message does not fail the calls are pending and keep
the invariant, and the call with which it fails is pending too.
-/
structure Masks (canAlloc : Nat -> Bool) (whole : List UInt8) (rr : ReadResult)
    (Inv : List UInt8 -> KdbIpcMessageReader -> Prop) : Prop where
  front : forall {got xs}, got ++ xs <+: whole -> RootFails canAlloc got rr ->
    RootFails canAlloc (got ++ xs) rr
  early : forall {r got xs} (result : ReadMsgResult), Inv got r -> got ++ xs <+: whole ->
    ¬ RootFails canAlloc (got ++ xs) rr ->
    Pending (readMsg canAlloc r ((got ++ xs).drop r.bytUsd) result).1 ∧
      Inv (got ++ xs) (readMsg canAlloc r ((got ++ xs).drop r.bytUsd) result).2
  last : forall {r got xs} (result : ReadMsgResult), Inv got r -> got ++ xs <+: whole ->
    RootFails canAlloc (got ++ xs) rr ->
    Pending (readMsg canAlloc r ((got ++ xs).drop r.bytUsd) result).1

/-- The codes of `newInstance` that speak of malformed bytes. -/
def Malformed (rr : ReadResult) : Prop :=
  rr = .errLogic ∨ rr = .errIpc

theorem Malformed.ne_incomplete (h : Malformed rr) : rr ≠ .incomplete := by
  rcases h with rfl | rfl <;> decide

theorem Malformed.ne_trap (h : Malformed rr) (why : Trap) : rr ≠ .trap why := by
  rcases h with rfl | rfl <;> simp

theorem masks_plain (hsize : msg.bytes.length < 2 ^ 31) (hcomp : msg.comp ≠ 1)
    (hrr : Malformed rr) {whole : List UInt8} (hwhole : whole <+: msg.bytes)
    (hfails : RootFails canAlloc whole rr) :
    Masks canAlloc whole rr (WaitingWith msg) where
  front := by
    intro got xs hpre hfails
    rcases hfails with ⟨shown, hshown, hfail⟩
    have hgot : got <+: msg.bytes := (List.prefix_append _ _).trans (hpre.trans hwhole)
    rcases (shows_plain canAlloc hsize hcomp hgot).mp hshown with ⟨h8, rfl⟩
    refine ⟨(got ++ xs).drop 8, (shows_plain canAlloc hsize hcomp (hpre.trans hwhole)).mpr
      ⟨?_, rfl⟩, ?_⟩
    · rw [List.length_append]
      omega
    · exact newInstance_fails_of_front ((List.prefix_append _ _).drop 8)
        hrr.ne_incomplete hfail
  early := by
    intro r got xs result hr hpre hnot
    by_cases h8 : 8 <= (got ++ xs).length
    · rcases readMsg_plain canAlloc hsize hcomp hr (hpre.trans hwhole) h8 result with
        ⟨r1, b, result1, _, hcall, hwait, hrest, hcsr⟩
      rcases hfails with ⟨shown, hshown, hfail⟩
      rcases (shows_plain canAlloc hsize hcomp hwhole).mp hshown with ⟨_, rfl⟩
      have hcut : newInstance b = (.error .incomplete, b) := by
        rcases newInstance_local (b := ReadBuf.new (whole.drop 8) 0) (c := b)
            (hrest ▸ hpre.drop 8) (Int.le_refl 0) hcsr with hcut | ⟨_, _, hsame⟩
        · exact hcut
        · refine absurd ⟨(got ++ xs).drop 8,
            (shows_plain canAlloc hsize hcomp (hpre.trans hwhole)).mpr ⟨h8, rfl⟩, ?_⟩ hnot
          rw [← hfail, ← newInstance_congr (c := b) hrest (Int.le_refl 0) hcsr, hsame]
      rw [hcall, readMsgData_of_incomplete result1 hwait.held hcut, Nat.sub_self]
      exact ⟨⟨rfl, rfl⟩, Or.inr ⟨h8, hwait.plain, hwait.ipcLen, rfl, hwait.dez, hwait.held⟩⟩
    · rcases hr with hidle | ⟨hgot, _⟩
      · rw [hidle.used, List.drop_zero,
          (readMsg_short hidle (Nat.not_le.mp h8) result).right]
        exact ⟨⟨rfl, rfl⟩, Or.inl hidle⟩
      · rw [List.length_append] at h8
        omega
  last := by
    intro r got xs result hr hpre hfails
    rcases hfails with ⟨shown, hshown, hfail⟩
    rcases (shows_plain canAlloc hsize hcomp (hpre.trans hwhole)).mp hshown with ⟨h8, rfl⟩
    rcases readMsg_plain canAlloc hsize hcomp hr (hpre.trans hwhole) h8 result with
      ⟨r1, b, result1, _, hcall, hwait, hrest, hcsr⟩
    have hfail' : (newInstance b).1 = .error rr := by
      rw [← hfail]
      exact newInstance_congr hrest (Int.le_refl 0) hcsr
    rw [hcall]
    simp only [readMsgData_of_fails result1 hwait.held hfail' hrr.ne_trap]
    exact ⟨rfl, rfl⟩

/-!
## Compressed messages
-/

variable {m : CompressedMsg}

theorem shows_compressed (canAlloc : Nat -> Bool) (hsize : m.bytes.length < 2 ^ 31)
    (hpre : got <+: m.bytes) :
    Shows canAlloc got shown <->
      12 <= got.length ∧ m.Fits canAlloc ∧
        exists s, InflatesTo m (got.length - 12) s ∧ s.dst = shown := by
  have hidle : Idle new := idle_reset new
  have hgot : m.bytes.take got.length = got := (List.prefix_iff_eq_take.mp hpre).symm
  constructor
  · rintro ⟨r, b, hparse, hrest, _⟩
    have hzero : (-(new.bytUsd : Int)) = 0 := rfl
    rw [parsing, hzero] at hparse
    by_cases h12 : 12 <= got.length
    · rcases readMsgHdr_whole (r := new) (b := ReadBuf.new got 0) canAlloc unset hidle h12
        hpre with ⟨hok, hrefused⟩
      by_cases hfits : m.Fits canAlloc
      · rw [hok hfits] at hparse
        simp only [Bool.true_eq_false, if_false] at hparse
        rw [if_neg (by simp [inflating])] at hparse
        cases hinf : m.inflater.uncompress ((ReadBuf.new got 0).adj 12) with
        | error f => simp [inflateMsg, inflating, hinf] at hparse
        | ok out =>
            have hbody : (ReadBuf.new (m.body.take (got.length - 12)) 0).rest =
                ((ReadBuf.new got 0).adj 12).rest := by
              rw [ReadBuf.adj_rest, ReadBuf.new, ReadBuf.new, ← m.take_drop_hdr, hgot]
            have hinf' := (KdbIpcDecompressor.uncompress_congr hbody hinf).left
            simp only [inflateMsg, inflating, hinf, Option.some.injEq, Prod.mk.injEq] at hparse
            rw [← hparse.right] at hrest
            exact ⟨h12, hfits, out.1, hinf', hrest⟩
      · simp only [hrefused hfits, if_true] at hparse
        cases hparse
    · have hcut := (readMsgHdr_cut (r := new) (b := ReadBuf.new got 0) canAlloc unset hidle
        (Nat.not_le.mp h12) hpre).left
      simp only [hcut, if_true] at hparse
      cases hparse
  · rintro ⟨h12, hfits, s, hs, rfl⟩
    have hstart : BetweenZ m 0 new := Or.inl hidle
    rcases readMsgHdr_window hsize hfits hstart (Nat.zero_le _) h12 hpre.length_le hs unset with
      ⟨r1, b1, result1, j, hhdr, hinf, _, hcomp, _⟩
    rw [hgot, hidle.used, List.drop_zero, Nat.cast_zero, neg_zero] at hhdr
    refine ⟨{ r1 with inflater := some s }, ReadBuf.new s.dst 0, ?_, rfl, Int.le_refl 0⟩
    have hzero : (-(new.bytUsd : Int)) = 0 := rfl
    rw [parsing, hzero, hhdr]
    simp only [Bool.true_eq_false, if_false, hcomp, hinf]

theorem masks_compressed (hsize : m.bytes.length < 2 ^ 31) (hrr : Malformed rr)
    {whole : List UInt8} (hwhole : whole <+: m.bytes)
    (hfails : RootFails canAlloc whole rr) :
    Masks canAlloc whole rr (fun got r => BetweenZ m got.length r) := by
  rcases hfails with ⟨shown, hshown, hfail⟩
  rcases (shows_compressed canAlloc hsize hwhole).mp hshown with ⟨_, hfits, sw, hsw, rfl⟩
  -- what a front of the message inflates to
  have hinflates : forall got, got <+: whole ->
      exists s, InflatesTo m (got.length - 12) s ∧ s.rdx <= got.length - 12 ∧
        s.dst <+: sw.dst := by
    intro got hpre
    have hle : got.length - 12 <= whole.length - 12 := by
      have := hpre.length_le
      omega
    rcases inflatesTo_front hsize hle hsw with ⟨s, hs, hrdx, _⟩
    have hwin : (ReadBuf.new ((m.body.take (whole.length - 12)).drop s.rdx) 0).rest =
        (m.body.take (whole.length - 12)).drop s.rdx := rfl
    have hdst := (inflatesTo_resume hsize hle hs hsw hwin).right.right
    exact ⟨s, hs, by omega, hdst⟩
  refine ⟨?_, ?_, ?_⟩
  · intro got xs hpre hfails
    rcases hfails with ⟨shown, hshown, hfail⟩
    have hgot : got <+: m.bytes := (List.prefix_append _ _).trans (hpre.trans hwhole)
    rcases (shows_compressed canAlloc hsize hgot).mp hshown with ⟨h12, _, s, hs, rfl⟩
    rcases hinflates _ hpre with ⟨s', hs', _⟩
    have hle : got.length - 12 <= (got ++ xs).length - 12 := by
      rw [List.length_append]
      omega
    have hwin : (ReadBuf.new ((m.body.take ((got ++ xs).length - 12)).drop s.rdx) 0).rest =
        (m.body.take ((got ++ xs).length - 12)).drop s.rdx := rfl
    have hdst := (inflatesTo_resume hsize hle hs hs' hwin).right.right
    refine ⟨s'.dst, (shows_compressed canAlloc hsize (hpre.trans hwhole)).mpr
      ⟨?_, hfits, s', hs', rfl⟩, newInstance_fails_of_front hdst hrr.ne_incomplete hfail⟩
    rw [List.length_append]
    omega
  · intro r got xs result hr hpre hnot
    have hle : got.length <= (got ++ xs).length := by simp
    have hgot : m.bytes.take (got ++ xs).length = got ++ xs :=
      (List.prefix_iff_eq_take.mp (hpre.trans hwhole)).symm
    by_cases h12 : 12 <= (got ++ xs).length
    · rcases hinflates _ hpre with ⟨s, hs, hrdx, hdst⟩
      rcases readMsg_window hsize hfits hr hle h12 (hpre.trans hwhole).length_le hs result with
        ⟨r1, result1, hcall, _, hinf, hcomp, hipc, hheld, hdez⟩
      have hcut : newInstance (ReadBuf.new s.dst 0) =
          (.error .incomplete, ReadBuf.new s.dst 0) := by
        rcases newInstance_local (b := ReadBuf.new sw.dst 0) (c := ReadBuf.new s.dst 0)
            hdst (Int.le_refl 0) (Int.le_refl 0) with hcut | ⟨_, _, hsame⟩
        · exact hcut
        · refine absurd ⟨s.dst, (shows_compressed canAlloc hsize (hpre.trans hwhole)).mpr
            ⟨h12, hfits, s, hs, rfl⟩, ?_⟩ hnot
          rw [← hfail, hsame]
      rw [hgot] at hcall
      rw [hcall, readMsgData_of_incomplete result1 hheld hcut]
      exact ⟨⟨rfl, rfl⟩,
        Or.inr ⟨h12, hcomp, hipc, hheld, hdez, s, hinf, hs, hrdx, rfl⟩⟩
    · rcases hr with hidle | ⟨hgot12, _⟩
      · have hcut := readMsgHdr_cut (r := r) (b := ReadBuf.new (got ++ xs) 0) canAlloc result
          hidle (Nat.not_le.mp h12) (hpre.trans hwhole)
        rw [hidle.used, List.drop_zero, readMsg, hidle.used, Nat.cast_zero, neg_zero]
        simp only [hcut.left, if_true]
        exact ⟨hcut.right.left, Or.inl hcut.right.right⟩
      · omega
  · intro r got xs result hr hpre hfails
    rcases hfails with ⟨shown, hshown, hfail⟩
    have hle : got.length <= (got ++ xs).length := by simp
    have hgot : m.bytes.take (got ++ xs).length = got ++ xs :=
      (List.prefix_iff_eq_take.mp (hpre.trans hwhole)).symm
    rcases (shows_compressed canAlloc hsize (hpre.trans hwhole)).mp hshown with
      ⟨h12, _, s, hs, rfl⟩
    rcases readMsg_window hsize hfits hr hle h12 (hpre.trans hwhole).length_le hs result with
      ⟨r1, result1, hcall, _, _, _, _, hheld, _⟩
    rw [hgot] at hcall
    rw [hcall]
    simp only [readMsgData_of_fails result1 hheld hfail hrr.ne_trap]
    exact ⟨rfl, rfl⟩

end KdbIpcMessageReader

/-!
## Every message and every delivery
-/

namespace IpcMsg

def asCompressed (msg : IpcMsg) : CompressedMsg where
  typ := msg.typ
  spare := msg.spare
  msgLen := leNat (msg.rest.take 4)
  body := msg.rest.drop 4

theorem asCompressed_bytes {msg : IpcMsg} (hcomp : msg.comp = 1)
    (hlen : 4 <= msg.rest.length) : msg.asCompressed.bytes = msg.bytes := by
  have hfield := leBytes_leNat (msg.rest.take 4)
  rw [List.length_take, Nat.min_eq_left hlen] at hfield
  have hdeclared : 12 + (msg.rest.drop 4).length = 8 + msg.rest.length := by
    rw [List.length_drop]
    omega
  simp only [CompressedMsg.bytes, CompressedMsg.hdr, asCompressed, hdeclared, hfield, bytes,
    hcomp, List.append_assoc, List.take_append_drop]

end IpcMsg

namespace KdbIpcMessageReader

variable {canAlloc : Nat -> Bool} {msg : IpcMsg} {got shown : List UInt8} {rr : ReadResult}

theorem Shows.twelve (hsize : msg.bytes.length < 2 ^ 31) (hcomp : msg.comp = 1)
    (hpre : got <+: msg.bytes) (h : Shows canAlloc got shown) : 12 <= got.length := by
  rcases h with ⟨r, b, hparse, _⟩
  have hzero : (-(new.bytUsd : Int)) = 0 := rfl
  rw [parsing, hzero] at hparse
  have hstep := readMsgHdr_step canAlloc new (ReadBuf.new got 0) unset
  generalize readMsgHdr canAlloc new (ReadBuf.new got 0) unset = out at hstep hparse
  cases hstep with
  | again hne => exact absurd rfl hne
  | short => cases hparse
  | endian => cases hparse
  | plain _ hlen _ hplain =>
      have hhead := IpcMsg.headed_of_front hsize hlen hpre
      rw [hhead.comp] at hplain
      exact absurd hcomp hplain
  | cut => cases hparse
  | refused => cases hparse
  | compressed _ hlen => exact hlen

/-- Every call of a delivery answers that the message is incomplete. -/
def AllPending (canAlloc : Nat -> Bool) (r : KdbIpcMessageReader)
    (pieces : List (ReadMsgResult × List UInt8)) : Prop :=
  forall reply, reply ∈ ((consumer canAlloc).deliver r [] pieces).1 -> Pending reply

/--
However a message is cut, every call up to the one that makes a malformed root visible
answers that the message is incomplete.
-/
theorem readMsg_malformed_root (canAlloc : Nat -> Bool) (r : KdbIpcMessageReader)
    (msg : IpcMsg) (hsize : msg.bytes.length < 2 ^ 31) (hrr : Malformed rr)
    (pieces : List (ReadMsgResult × List UInt8)) (last : ReadMsgResult × List UInt8)
    (hpre : Consumer.delivered pieces ++ last.2 <+: msg.bytes)
    (hbefore : ¬ RootFails canAlloc (Consumer.delivered pieces) rr)
    (hnow : RootFails canAlloc (Consumer.delivered pieces ++ last.2) rr) :
    AllPending canAlloc r.reset (pieces ++ [last]) := by
  have hmasks : exists Inv, Masks canAlloc (Consumer.delivered pieces ++ last.2) rr Inv ∧
      Inv [] r.reset := by
    by_cases hcomp : msg.comp = 1
    · have h12 : 12 <= (Consumer.delivered pieces ++ last.2).length := by
        rcases hnow with ⟨shown, hshown, _⟩
        exact hshown.twelve hsize hcomp hpre
      have hlen : 4 <= msg.rest.length := by
        have hle := hpre.length_le
        rw [msg.bytes_length] at hle
        omega
      have hbytes := IpcMsg.asCompressed_bytes hcomp hlen
      rw [← hbytes] at hsize hpre
      exact ⟨_, masks_compressed hsize hrr hpre hnow, Or.inl (idle_reset r)⟩
    · exact ⟨_, masks_plain hsize hcomp hrr hpre hnow, Or.inl (idle_reset r)⟩
  rcases hmasks with ⟨Inv, hmasks, hstart⟩
  have hrun : (forall reply, reply ∈ ((consumer canAlloc).deliver r.reset [] pieces).1 ->
        Pending reply) ∧
      Inv ([] ++ Consumer.delivered pieces)
        ((consumer canAlloc).deliver r.reset [] pieces).2 := by
    refine Consumer.deliver_of_step (fun got =>
      got <+: Consumer.delivered pieces ++ last.2 ∧ ¬ RootFails canAlloc got rr) ?_ ?_
      pieces hstart ⟨List.prefix_append _ _, hbefore⟩
    · rintro got xs ⟨hfront, hnot⟩
      exact ⟨(List.prefix_append _ _).trans hfront,
        fun hfails => hnot (hmasks.front hfront hfails)⟩
    · rintro r got xs result hinv ⟨hfront, hnot⟩
      exact hmasks.early result hinv hfront hnot
  intro reply hreply
  rw [Consumer.deliver_concat, List.mem_append] at hreply
  rcases hreply with hearly | hlast
  · exact hrun.left reply hearly
  · rw [List.mem_singleton.mp hlast]
    exact hmasks.last last.1 hrun.right List.prefix_rfl hnow

/-- A function whose text is a byte vector. -/
def byteFunction : IpcMsg where
  typ := 1
  comp := 0
  spare := 0
  rest := [100, 0, 4, 0, 1, 0, 0, 0, 123]

theorem byteFunction_shows {got : List UInt8} (h : got <+: byteFunction.bytes) :
    Shows (fun _ => true) got shown <-> 8 <= got.length ∧ got.drop 8 = shown :=
  shows_plain _ (by decide) (by decide) h

/-- It is cut in the header of the function, which is complete with the second call. -/
theorem readMsg_malformed_root_function :
    AllPending (fun _ => true) new.reset
      ([(unset, byteFunction.bytes.take 10)] ++
        [(unset, byteFunction.bytes.drop 10)]) := by
  refine readMsg_malformed_root (fun _ => true) new byteFunction (by decide) (Or.inr rfl)
    [(unset, byteFunction.bytes.take 10)] (unset, byteFunction.bytes.drop 10) (by decide)
    ?_ ⟨_, (byteFunction_shows (by decide)).mpr ⟨by decide, rfl⟩, rfl⟩
  rintro ⟨shown, hshown, hfail⟩
  rcases (byteFunction_shows (by decide)).mp hshown with ⟨_, rfl⟩
  cases hfail

/-- The type byte 20 is that of no object. -/
theorem readMsg_malformed_root_type :
    (newInstance (ReadBuf.new [20] 0)).1 = .error .errLogic ∧
      (readMsg (fun _ => true) new [1, 1, 0, 0, 9, 0, 0, 0, 20] unset).1.2.result ≠
        .errLogic ∧
      (readMsg (fun _ => true) new
        [1, 1, 0, 0, 15, 0, 0, 0, 0, 0, 1, 0, 0, 0, 20] unset).1.2.result = .errLogic :=
  ⟨rfl, by decide, by decide⟩

end KdbIpcMessageReader

end MgKdb
