import MgKdb.Inflate.Chunks
import MgKdb.Reader.Chunks

/-!
# Reading a compressed message in pieces

The decompressor goes on where it stopped, but the parser is always shown the
inflated bytes from the first one on, with a cursor that makes it take them for
unread.  So a message survives being cut into calls exactly when nothing was
parsed before the last call.
-/

namespace MgKdb

open Foundation

structure CompressedMsg where
  typ : UInt8
  spare : UInt8
  msgLen : Nat
  body : List UInt8

namespace CompressedMsg

def hdr (m : CompressedMsg) : List UInt8 :=
  [1, m.typ, 1, m.spare] ++
    (leBytes 4 (12 + m.body.length) ++ leBytes 4 m.msgLen)

def bytes (m : CompressedMsg) : List UInt8 :=
  m.hdr ++ m.body

@[simp] theorem hdr_length (m : CompressedMsg) : m.hdr.length = 12 := by
  simp [hdr]

theorem bytes_length (m : CompressedMsg) : m.bytes.length = 12 + m.body.length := by
  rw [bytes, List.length_append, hdr_length]

theorem take_drop_hdr (m : CompressedMsg) (d : Nat) :
    (m.bytes.take d).drop 12 = m.body.take (d - 12) := by
  have hbody : m.bytes.drop 12 = m.body := by
    rw [bytes, ← m.hdr_length, List.drop_left]
  rw [List.drop_take, hbody]

def inflater (m : CompressedMsg) : KdbIpcDecompressor :=
  .new (u64 (i32 (12 + m.body.length))) (u64 (i32 m.msgLen))

def Fits (canAlloc : Nat -> Bool) (m : CompressedMsg) : Prop :=
  ¬ (2 ^ 63 <= u64 ((u64 (i32 m.msgLen) : Int) - 8) ∨
    canAlloc (u64 ((u64 (i32 m.msgLen) : Int) - 8)) = false)

/--
The bytes delivered so far inflate to the complete header of the root object, so
that `newInstance` allocates it.
-/
def RootInflated (m : CompressedMsg) (got : List UInt8) : Prop :=
  exists s b o b1,
    m.inflater.uncompress (ReadBuf.new (got.drop 12) 0) = .ok (s, b) ∧
      newInstance (s.getReadBuf 0) = (.ok o, b1)

theorem inflater_ipcLen {m : CompressedMsg} (hsize : m.bytes.length < 2 ^ 31) :
    m.inflater.ipcLen = m.body.length := by
  rw [bytes_length] at hsize
  simp only [inflater, KdbIpcDecompressor.new, i32_of_lt hsize, u64]
  omega

end CompressedMsg

namespace KdbIpcMessageReader

variable {canAlloc : Nat -> Bool} {m : CompressedMsg} {r : KdbIpcMessageReader}

/-!
## The header
-/

def inflating (r : KdbIpcMessageReader) (m : CompressedMsg) : KdbIpcMessageReader :=
  { r with
    msgTyp := m.typ
    compressed := true
    ipcLen := u64 (i32 (12 + m.body.length))
    msgLen := u64 (i32 m.msgLen)
    inflater := some m.inflater
    bytUsd := 12
    bytDez := 0 }

theorem readMsgHdr_fields {b : ReadBuf} (hlen : 8 <= b.remaining)
    (hpre : b.rest <+: m.bytes) :
    b.peekI8 = 1 ∧ (b.adj 1).peekI8 = m.typ ∧ (b.adj 2).peekI8 = 1 ∧
      (b.adj 4).readI32.1 = i32 (12 + m.body.length) := by
  rw [CompressedMsg.bytes, CompressedMsg.hdr, List.append_assoc,
    List.append_assoc] at hpre
  exact ⟨ReadBuf.peekI8_of_front (by omega) hpre,
    ReadBuf.peekI8_adj_of_front [1] (by simp; omega) hpre,
    ReadBuf.peekI8_adj_of_front [1, m.typ] (by simp; omega) hpre,
    ReadBuf.readI32_adj_of_front [1, m.typ, 1, m.spare] (by simp; omega) hpre⟩

theorem readMsgHdr_cut (canAlloc : Nat -> Bool) {b : ReadBuf} (result : ReadMsgResult)
    (hidle : Idle r) (hlen : b.remaining < 12) (hpre : b.rest <+: m.bytes) :
    (readMsgHdr canAlloc r b result).1.1 = false ∧
      Pending (readMsgHdr canAlloc r b result).1 ∧
      Idle (readMsgHdr canAlloc r b result).2.1 := by
  by_cases h8 : b.remaining < 8
  · rw [readMsgHdr_short result hidle.ipcLen h8]
    exact ⟨rfl, ⟨rfl, rfl⟩, hidle⟩
  · rcases readMsgHdr_fields (by omega) hpre with ⟨hend, htyp, hcomp, hipc⟩
    unfold readMsgHdr
    rw [if_pos hidle.ipcLen, if_neg h8, if_neg (by simp [hend])]
    simp only [ReadBuf.readI8_fst, ReadBuf.readI8_snd, ReadBuf.readI32_snd,
      ReadBuf.adj_adj, Nat.reduceAdd, htyp, hcomp, hipc]
    rw [if_pos (by decide), if_pos (by
      rw [ReadBuf.canRead_eq, ReadBuf.adj_remaining]
      omega)]
    exact ⟨rfl, ⟨rfl, rfl⟩, ⟨rfl, hidle.used, hidle.held⟩⟩

theorem readMsgHdr_whole (canAlloc : Nat -> Bool) {b : ReadBuf} (result : ReadMsgResult)
    (hidle : Idle r) (hlen : 12 <= b.remaining) (hpre : b.rest <+: m.bytes) :
    (m.Fits canAlloc -> readMsgHdr canAlloc r b result =
      ((true, { result with msgTyp := m.typ }), r.inflating m, b.adj 12)) ∧
    (¬ m.Fits canAlloc -> (readMsgHdr canAlloc r b result).1.1 = false) := by
  rcases readMsgHdr_fields (by omega) hpre with ⟨hend, htyp, hcomp, hipc⟩
  have hmsg : (b.adj 8).readI32.1 = i32 m.msgLen := by
    have hassoc : b.rest <+: ([1, m.typ, 1, m.spare] ++
        leBytes 4 (12 + m.body.length)) ++ (leBytes 4 m.msgLen ++ m.body) := by
      simpa [CompressedMsg.bytes, CompressedMsg.hdr] using hpre
    have hfield := ReadBuf.readI32_adj_of_front _ (by simp; omega) hassoc
    simpa using hfield
  unfold readMsgHdr
  rw [if_pos hidle.ipcLen, if_neg (by omega), if_neg (by simp [hend])]
  simp only [ReadBuf.readI8_fst, ReadBuf.readI8_snd, ReadBuf.readI32_snd,
    ReadBuf.adj_adj, Nat.reduceAdd, htyp, hcomp, hipc, hmsg]
  rw [if_pos (by decide), if_neg (by
    rw [ReadBuf.canRead_eq, ReadBuf.adj_remaining]
    omega)]
  constructor
  · intro hfits
    rw [if_neg hfits, ReadBuf.adj_off, Nat.add_sub_cancel_left]
    rfl
  · intro hfits
    rw [if_pos (not_not.mp hfits)]

/-!
## Inflating what was delivered
-/

/-- The decompressor ends in `s` when it is shown `n` bytes of the body. -/
def InflatesTo (m : CompressedMsg) (n : Nat) (s : KdbIpcDecompressor) : Prop :=
  m.inflater.uncompress (ReadBuf.new (m.body.take n) 0) =
    .ok (s, (ReadBuf.new (m.body.take n) 0).adj s.rdx)

theorem inflatesTo_front (hsize : m.bytes.length < 2 ^ 31) {n n' : Nat}
    (hn : n <= n') {s' : KdbIpcDecompressor} (hs' : InflatesTo m n' s') :
    exists s, InflatesTo m n s ∧ s.rdx <= min n m.body.length ∧ s.AtBlock ∧
      s.ipcLen = m.body.length ∧
      s.uncompress ((ReadBuf.new (m.body.take n') 0).adj s.rdx) =
        .ok (s', (ReadBuf.new (m.body.take n') 0).adj s'.rdx) := by
  have hipc := CompressedMsg.inflater_ipcLen hsize
  have hpre : (ReadBuf.new (m.body.take n) 0).rest <+:
      (ReadBuf.new (m.body.take n') 0).rest := List.take_prefix_take_left hn
  have hlen : (ReadBuf.new (m.body.take n') 0).remaining <= m.body.length := by
    simp [ReadBuf.remaining, ReadBuf.new]
  rcases KdbIpcDecompressor.uncompress_split
      (by rw [hipc]; exact (Nat.zero_add _).trans_le hlen)
      (by rw [CompressedMsg.bytes_length] at hsize; omega) hpre (Or.inl rfl) hs' with
    ⟨s, k, hs, hk, hrdx, hipc', _, _, hat, hagain⟩
  have hk' : s.rdx = k := hrdx.trans (Nat.zero_add k)
  have hle : s.rdx <= min n m.body.length := by
    rw [hk', ← List.length_take]
    exact hk
  refine ⟨s, ?_, hle, hat, hipc'.trans hipc, ?_⟩
  · rw [InflatesTo, hk']
    exact hs
  · rw [hk']
    exact hagain

theorem inflatesTo_resume (hsize : m.bytes.length < 2 ^ 31) {n n' : Nat}
    (hn : n <= n') {s s' : KdbIpcDecompressor} (hs : InflatesTo m n s)
    (hs' : InflatesTo m n' s') {b : ReadBuf}
    (hrest : b.rest = (m.body.take n').drop s.rdx) :
    s.uncompress b = .ok (s', b.adj (s'.rdx - s.rdx)) ∧ s.rdx <= s'.rdx ∧
      s.dst <+: s'.dst := by
  rcases inflatesTo_front hsize hn hs' with ⟨t, ht, hrdx, hat, hipc, hagain⟩
  have heq : t = s := by
    have h := ht.symm.trans hs
    cases h
    rfl
  rw [heq] at hat hagain hrdx hipc
  rcases KdbIpcDecompressor.uncompress_congr hrest hagain with ⟨hb, hle, _⟩
  refine ⟨hb, hle, ?_⟩
  have hlen : s.rdx + b.remaining <= s.ipcLen := by
    rw [ReadBuf.remaining, hrest, List.length_drop, List.length_take, hipc]
    omega
  rcases KdbIpcDecompressor.uncompress_split hlen
      (by rw [hipc]; rw [CompressedMsg.bytes_length] at hsize; omega)
      List.prefix_rfl hat hb with ⟨u, k, hu, _, _, _, _, hdst, _, _⟩
  have hus : u = s' := congrArg Prod.fst (Except.ok.inj (hu.symm.trans hb))
  rwa [hus] at hdst

/-!
## One call
-/

structure Inflating (m : CompressedMsg) (n : Nat) (r : KdbIpcMessageReader) :
    Prop where
  compressed : r.compressed = true
  ipcLen : r.ipcLen = 12 + m.body.length
  held : r.msg = none
  dez : r.bytDez = 0
  inflater : exists s, r.inflater = some s ∧ InflatesTo m n s ∧ s.rdx <= n ∧
    r.bytUsd = 12 + s.rdx

/-- Between two calls, with `d` bytes delivered and no object allocated. -/
def BetweenZ (m : CompressedMsg) (d : Nat) (r : KdbIpcMessageReader) : Prop :=
  Idle r ∨ (12 <= d ∧ Inflating m (d - 12) r)

/--
The parser is shown the inflated bytes that follow those deserialised already.
-/
def ResumesExactly (canAlloc : Nat -> Bool)
    (call : KdbIpcMessageReader × ReadMsgResult × List UInt8) : Prop :=
  let hdr := readMsgHdr canAlloc call.1 (ReadBuf.new call.2.2 (-call.1.bytUsd))
    call.2.1
  hdr.1.1 = true -> forall inflater b zBuf,
    hdr.2.1.inflateMsg hdr.2.2 = .ok (inflater, b, zBuf) ->
      zBuf.rest = inflater.dst.drop hdr.2.1.bytDez

theorem readMsgHdr_again (canAlloc : Nat -> Bool) (hsize : m.bytes.length < 2 ^ 31)
    {s s' : KdbIpcDecompressor} {d d' : Nat} (hcomp : r.compressed = true)
    (hipc : r.ipcLen ≠ 0) (hinf : r.inflater = some s) (hused : r.bytUsd = 12 + s.rdx)
    (hs : InflatesTo m (d - 12) s) (hd : d <= d') (hs' : InflatesTo m (d' - 12) s')
    (result : ReadMsgResult) :
    exists b j,
      readMsgHdr canAlloc r
          (ReadBuf.new ((m.bytes.take d').drop r.bytUsd) (-r.bytUsd)) result =
        ((true, result), r, b) ∧
      r.inflateMsg b = .ok (s', b.adj j, ReadBuf.new s'.dst r.bytDez) ∧
      r.bytUsd + j = 12 + s'.rdx ∧ s.dst <+: s'.dst := by
  have hrest : (((ReadBuf.new ((m.bytes.take d').drop r.bytUsd)
      (-r.bytUsd)).ffwd 8).ffwd 4).rest = (m.body.take (d' - 12)).drop s.rdx := by
    rw [ReadBuf.ffwd_rest, ReadBuf.ffwd_rest, ReadBuf.new, hused, ← List.drop_drop,
      m.take_drop_hdr]
  rcases inflatesTo_resume hsize (by omega) hs hs' hrest with ⟨hagain, hle, hdst⟩
  refine ⟨((ReadBuf.new ((m.bytes.take d').drop r.bytUsd) (-r.bytUsd)).ffwd 8).ffwd 4,
    s'.rdx - s.rdx, ?_, ?_, by omega, hdst⟩
  · rw [readMsgHdr, if_neg hipc, hcomp, if_pos rfl]
  · rw [inflateMsg]
    simp only [hinf, hagain]
    rfl

theorem readMsgHdr_window (hsize : m.bytes.length < 2 ^ 31)
    (hfits : m.Fits canAlloc) {d d' : Nat} (hr : BetweenZ m d r) (hd : d <= d')
    (hd' : 12 <= d') (hle : d' <= m.bytes.length) {s' : KdbIpcDecompressor}
    (hs' : InflatesTo m (d' - 12) s') (result : ReadMsgResult) :
    exists r1 b1 result1 j,
      readMsgHdr canAlloc r
          (ReadBuf.new ((m.bytes.take d').drop r.bytUsd) (-r.bytUsd)) result =
        ((true, result1), r1, b1) ∧
      r1.inflateMsg b1 = .ok (s', b1.adj j, ReadBuf.new s'.dst 0) ∧
      r1.bytUsd + j = 12 + s'.rdx ∧ r1.compressed = true ∧
      r1.ipcLen = 12 + m.body.length ∧ r1.msg = none ∧ r1.bytDez = 0 := by
  rcases hr with hidle | ⟨h12, hr⟩
  · -- the header is read in this call
    have hpre : (ReadBuf.new (m.bytes.take d') 0).rest <+: m.bytes :=
      List.take_prefix d' _
    have hlen : 12 <= (ReadBuf.new (m.bytes.take d') 0).remaining := by
      rw [ReadBuf.remaining, ReadBuf.new, List.length_take]
      omega
    have hhdr := (readMsgHdr_whole canAlloc result hidle hlen hpre).left hfits
    refine ⟨r.inflating m, (ReadBuf.new (m.bytes.take d') 0).adj 12,
      { result with msgTyp := m.typ }, s'.rdx, ?_, ?_, rfl, rfl, ?_, hidle.held, rfl⟩
    · rw [hidle.used, List.drop_zero, Nat.cast_zero, neg_zero]
      exact hhdr
    · have hinf : m.inflater.uncompress
          ((ReadBuf.new (m.bytes.take d') 0).adj 12) =
          .ok (s', ((ReadBuf.new (m.bytes.take d') 0).adj 12).adj s'.rdx) :=
        (KdbIpcDecompressor.uncompress_congr (m.take_drop_hdr d') hs').left
      rw [inflateMsg]
      simp only [inflating, hinf]
      rfl
    · rw [CompressedMsg.bytes_length] at hsize
      simp only [inflating, i32_of_lt hsize, u64]
      omega
  · -- the header was read in an earlier call
    rcases hr.inflater with ⟨s, hs, hinf, _, hused⟩
    have hne : r.ipcLen ≠ 0 := by
      rw [hr.ipcLen]
      omega
    rcases readMsgHdr_again canAlloc hsize hr.compressed hne hs hused hinf hd hs'
      result with ⟨b, j, hhdr, hagain, hj, _⟩
    rw [hr.dez] at hagain
    exact ⟨r, b, result, j, hhdr, hagain, hj, hr.compressed, hr.ipcLen, hr.held,
      hr.dez⟩

theorem readMsgData_frame (r : KdbIpcMessageReader) (b : ReadBuf)
    (result : ReadMsgResult) :
    exists x, (readMsgData r b result).2.1 =
      { r with
        msg := x
        bytDez := r.bytDez + ((readMsgData r b result).2.2.off - b.off) } := by
  unfold readMsgData readMsgData1
  rcases allocMsg r.msg b with ⟨rr | o, b1⟩
  · cases rr <;> exact ⟨r.msg, rfl⟩
  · rcases hread : o.read b1 with ⟨rr, o', b2⟩
    simp only [hread]
    cases rr
    case ok => exact ⟨none, rfl⟩
    all_goals exact ⟨some o', rfl⟩

theorem readMsg_window (hsize : m.bytes.length < 2 ^ 31)
    (hfits : m.Fits canAlloc) {d d' : Nat} (hr : BetweenZ m d r) (hd : d <= d')
    (hd' : 12 <= d') (hle : d' <= m.bytes.length) {s' : KdbIpcDecompressor}
    (hs' : InflatesTo m (d' - 12) s') (result : ReadMsgResult) :
    exists r1 result1,
      readMsg canAlloc r ((m.bytes.take d').drop r.bytUsd) result =
        ((readMsgData r1 (ReadBuf.new s'.dst 0) result1).1,
          { (readMsgData r1 (ReadBuf.new s'.dst 0) result1).2.1 with
            bytUsd := 12 + s'.rdx }) ∧
      (ResumesExactly canAlloc (r, result, (m.bytes.take d').drop r.bytUsd)) ∧
      r1.inflater = some s' ∧ r1.compressed = true ∧
      r1.ipcLen = 12 + m.body.length ∧ r1.msg = none ∧ r1.bytDez = 0 := by
  rcases readMsgHdr_window hsize hfits hr hd hd' hle hs' result with
    ⟨r1, b1, result1, j, hhdr, hinf, hused, hcomp, hipc, hheld, hdez⟩
  refine ⟨{ r1 with inflater := some s' }, result1, ?_, ?_, rfl, hcomp, hipc, hheld,
    hdez⟩
  · rw [readMsg, hhdr]
    simp only [Bool.true_eq_false, if_false]
    rw [readMsgBody, if_neg (by rw [hcomp]; decide), hinf]
    rcases readMsgData_frame { r1 with inflater := some s' }
      (ReadBuf.new s'.dst 0) result1 with ⟨x, hframe⟩
    simp only [hframe, Prod.mk.injEq, KdbIpcMessageReader.mk.injEq, true_and,
      and_true, ReadBuf.adj_off]
    omega
  · intro _ inflater b zBuf hcall
    simp only [hhdr] at hcall
    rw [hinf] at hcall
    cases hcall
    simp only [hhdr, hdez]
    rfl

structure OneShot (canAlloc : Nat -> Bool) (m : CompressedMsg)
    (s : KdbIpcDecompressor) (o : KdbBase) (b : ReadBuf) : Prop where
  size : m.bytes.length < 2 ^ 31
  fits : m.Fits canAlloc
  inflates : InflatesTo m m.body.length s
  root : newInstance (ReadBuf.new s.dst 0) = (.ok o, b)

theorem oneShot_of_complete (hsize : m.bytes.length < 2 ^ 31)
    {single : ReadMsgResult}
    (h : (readMsg canAlloc r.reset m.bytes single).1.1 = true) :
    exists s o b, OneShot canAlloc m s o b := by
  have hpre : (ReadBuf.new m.bytes 0).rest <+: m.bytes := List.prefix_rfl
  have hlen : 12 <= (ReadBuf.new m.bytes 0).remaining := by
    rw [ReadBuf.remaining, ReadBuf.new, CompressedMsg.bytes_length]
    omega
  rcases readMsgHdr_whole canAlloc single (idle_reset r) hlen hpre with
    ⟨hok, hfail⟩
  have hcall : readMsg canAlloc r.reset m.bytes single =
      let hdr := readMsgHdr canAlloc r.reset (ReadBuf.new m.bytes 0) single
      if hdr.1.1 = false then (hdr.1, hdr.2.1)
      else readMsgBody hdr.2.1 hdr.2.2 hdr.1.2 := by
    have hsrc : ReadBuf.new m.bytes (-(r.reset.bytUsd : Int)) = ReadBuf.new m.bytes 0 := rfl
    rw [readMsg, hsrc]
  by_cases hfits : m.Fits canAlloc
  · rw [hcall, hok hfits] at h
    simp only [Bool.true_eq_false, if_false] at h
    rw [readMsgBody, if_neg (by simp [inflating])] at h
    cases hinf : m.inflater.uncompress ((ReadBuf.new m.bytes 0).adj 12) with
    | error f => simp [inflateMsg, inflating, hinf] at h
    | ok out =>
        have hrest : (ReadBuf.new (m.body.take m.body.length) 0).rest =
            ((ReadBuf.new m.bytes 0).adj 12).rest := by
          rw [List.take_length, ReadBuf.adj_rest, ReadBuf.new, ReadBuf.new,
            CompressedMsg.bytes, ← m.hdr_length, List.drop_left]
        have hinf' := (KdbIpcDecompressor.uncompress_congr hrest hinf).left
        simp only [inflateMsg, inflating, hinf] at h
        rcases hnew : newInstance (ReadBuf.new out.1.dst 0) with ⟨rr | o, b1⟩
        · exfalso
          simp only [readMsgData, readMsgData1, allocMsg, reset, new,
            KdbIpcDecompressor.getReadBuf, Nat.cast_zero, hnew] at h
          cases rr <;> simp at h
        · exact ⟨out.1, o, b1, hsize, hfits, hinf', hnew⟩
  · rw [hcall] at h
    simp only [hfail hfits, if_true] at h
    cases h

variable {sf : KdbIpcDecompressor} {o : KdbBase} {bf : ReadBuf}

/--
The root object has a header of some length `n`: it can be allocated as soon
as that many bytes are inflated.
-/
theorem OneShot.root_of_front (hone : OneShot canAlloc m sf o bf) :
    exists n, 0 < n ∧ forall d, d <= m.bytes.length ->
      exists s, InflatesTo m (d - 12) s ∧ s.rdx <= d - 12 ∧
        (m.RootInflated (m.bytes.take d) <-> n <= s.dst.length) ∧
        newInstance (ReadBuf.new s.dst 0) =
          if n <= s.dst.length then (.ok o, (ReadBuf.new s.dst 0).adj n)
          else (.error .incomplete, ReadBuf.new s.dst 0) := by
  rcases newInstance_of_shorter (Int.le_refl 0) hone.root with ⟨n, hn, _, hnew⟩
  refine ⟨n, hn, ?_⟩
  intro d hd
  rw [CompressedMsg.bytes_length] at hd
  have hle : d - 12 <= m.body.length := by omega
  rcases inflatesTo_front hone.size hle hone.inflates with ⟨s, hs, hrdx, _, _, _⟩
  have hwin : (ReadBuf.new ((m.body.take m.body.length).drop s.rdx) 0).rest =
      (m.body.take m.body.length).drop s.rdx := rfl
  have hdst := (inflatesTo_resume hone.size hle hs hone.inflates hwin).right.right
  have hroot : newInstance (ReadBuf.new s.dst 0) =
      if n <= s.dst.length then (.ok o, (ReadBuf.new s.dst 0).adj n)
      else (.error .incomplete, ReadBuf.new s.dst 0) :=
    hnew (ReadBuf.new s.dst 0) hdst (Int.le_refl 0)
  have hinf : m.inflater.uncompress
      (ReadBuf.new ((m.bytes.take d).drop 12) 0) = _ :=
    (congrArg (fun w => m.inflater.uncompress (ReadBuf.new w 0))
      (m.take_drop_hdr d)).trans hs
  refine ⟨s, hs, by omega, ⟨?_, ?_⟩, hroot⟩
  · rintro ⟨t, b, o', b', ht, hnew'⟩
    rw [hinf] at ht
    cases ht
    by_contra hlt
    rw [if_neg hlt] at hroot
    have hclash := hroot.symm.trans hnew'
    cases hclash
  · intro hle'
    rw [if_pos hle'] at hroot
    exact ⟨s, _, o, _, hinf, hroot⟩

theorem OneShot.root_mono (hone : OneShot canAlloc m sf o bf) {d d' : Nat}
    (hd : d <= d') (hd' : d' <= m.bytes.length)
    (hroot : m.RootInflated (m.bytes.take d)) :
    m.RootInflated (m.bytes.take d') := by
  rcases hone.root_of_front with ⟨n, _, hprefix⟩
  rcases hprefix d (Nat.le_trans hd hd') with ⟨s, hs, _, hiff, _⟩
  rcases hprefix d' hd' with ⟨s', hs', _, hiff', _⟩
  have hwin : (ReadBuf.new ((m.body.take (d' - 12)).drop s.rdx) 0).rest =
      (m.body.take (d' - 12)).drop s.rdx := rfl
  have hdst := (inflatesTo_resume hone.size (by omega) hs hs' hwin).right.right
  exact hiff'.mpr (Nat.le_trans (hiff.mp hroot) hdst.length_le)

theorem readMsg_early (hone : OneShot canAlloc m sf o bf) {d d' : Nat}
    (hr : BetweenZ m d r) (hd : d <= d') (hle : d' <= m.bytes.length)
    (hroot : ¬ m.RootInflated (m.bytes.take d')) (result : ReadMsgResult) :
    Pending (readMsg canAlloc r ((m.bytes.take d').drop r.bytUsd) result).1 ∧
      BetweenZ m d' (readMsg canAlloc r ((m.bytes.take d').drop r.bytUsd) result).2 ∧
      ResumesExactly canAlloc (r, result, (m.bytes.take d').drop r.bytUsd) := by
  by_cases h12 : 12 <= d'
  · rcases hone.root_of_front with ⟨n, _, hprefix⟩
    rcases hprefix d' hle with ⟨s, hs, hrdx, hiff, hnew⟩
    rw [if_neg (fun hn => hroot (hiff.mpr hn))] at hnew
    rcases readMsg_window hone.size hone.fits hr hd h12 hle hs result with
      ⟨r1, result1, hcall, hresumes, hinf, hcomp, hipc, hheld, hdez⟩
    have hdata : readMsgData r1 (ReadBuf.new s.dst 0) result1 =
        ((false, { result1 with result := .incomplete }), r1,
          ReadBuf.new s.dst 0) := by
      simp only [readMsgData, readMsgData1, hheld, allocMsg, hnew, Nat.sub_self,
        Nat.add_zero]
      rw [← hheld]
    rw [hcall, hdata]
    exact ⟨⟨rfl, rfl⟩,
      Or.inr ⟨h12, hcomp, hipc, hheld, hdez, s, hinf, hs, hrdx, rfl⟩, hresumes⟩
  · rcases hr with hidle | ⟨hd12, _⟩
    · have hpre : (ReadBuf.new (m.bytes.take d') 0).rest <+: m.bytes :=
        List.take_prefix d' _
      have hlen : (ReadBuf.new (m.bytes.take d') 0).remaining < 12 := by
        rw [ReadBuf.remaining, ReadBuf.new, List.length_take]
        omega
      rcases readMsgHdr_cut canAlloc result hidle hlen hpre with
        ⟨hfalse, hpending, hidle'⟩
      have hcsr : (-(r.bytUsd : Int)) = 0 := by
        rw [hidle.used]
        rfl
      have hcall : readMsg canAlloc r (m.bytes.take d') result =
          ((readMsgHdr canAlloc r (ReadBuf.new (m.bytes.take d') 0) result).1,
            (readMsgHdr canAlloc r (ReadBuf.new (m.bytes.take d') 0) result).2.1) := by
        rw [readMsg, hcsr]
        exact if_pos hfalse
      rw [hidle.used, List.drop_zero, hcall]
      refine ⟨hpending, Or.inl hidle', ?_⟩
      intro htrue
      simp only [hcsr, hfalse] at htrue
      cases htrue
    · omega

def rootReply (o : KdbBase) (b : ReadBuf) (result : ReadMsgResult) :
    Bool × ReadMsgResult :=
  match o.read b with
  | (.ok, o', _) => (true, { result with result := .ok, message := some o' })
  | (rr, _, _) => (false, { result with result := rr })

structure Rooted (m : CompressedMsg) (d n : Nat) (s : KdbIpcDecompressor)
    (o : KdbBase) (r : KdbIpcMessageReader) : Prop where
  inflates : InflatesTo m (d - 12) s
  shown : n <= s.dst.length
  inflater : r.inflater = some s
  compressed : r.compressed = true
  ipcLen : r.ipcLen = 12 + m.body.length
  used : r.bytUsd = 12 + s.rdx
  dez : r.bytDez = (o.read ((ReadBuf.new s.dst 0).adj n)).2.2.off

theorem readMsg_rooted (hone : OneShot canAlloc m sf o bf) :
    exists n, 0 < n ∧ forall {r : KdbIpcMessageReader} {d d' : Nat},
      BetweenZ m d r -> d <= d' -> 12 <= d' -> d' <= m.bytes.length ->
      m.RootInflated (m.bytes.take d') -> forall result : ReadMsgResult,
        exists s result1,
          Rooted m d' n s o
            (readMsg canAlloc r ((m.bytes.take d').drop r.bytUsd) result).2 ∧
          (readMsg canAlloc r ((m.bytes.take d').drop r.bytUsd) result).1 =
            rootReply o ((ReadBuf.new s.dst 0).adj n) result1 ∧
          ResumesExactly canAlloc (r, result, (m.bytes.take d').drop r.bytUsd) := by
  rcases hone.root_of_front with ⟨n, hn, hprefix⟩
  refine ⟨n, hn, ?_⟩
  intro r d d' hr hd h12 hle hroot result
  rcases hprefix d' hle with ⟨s, hs, hrdx, hiff, hnew⟩
  have hshown := hiff.mp hroot
  rw [if_pos hshown] at hnew
  rcases readMsg_window hone.size hone.fits hr hd h12 hle hs result with
    ⟨r1, result1, hcall, hresumes, hinf, hcomp, hipc, hheld, hdez⟩
  refine ⟨s, result1, ?_, ?_, hresumes⟩
  · rw [hcall]
    rcases hread : o.read ((ReadBuf.new s.dst 0).adj n) with ⟨rr, o', b2⟩
    have hoff : (ReadBuf.new s.dst 0).off = 0 := rfl
    refine ⟨hs, hshown, ?_, ?_, ?_, rfl, ?_⟩ <;>
      simp only [readMsgData, readMsgData1, hheld, allocMsg, hnew, hread, hdez,
        hoff] <;>
      cases rr <;> simp [hinf, hcomp, hipc]
  · rw [hcall]
    rcases hread : o.read ((ReadBuf.new s.dst 0).adj n) with ⟨rr, o', b2⟩
    simp only [readMsgData, readMsgData1, hheld, allocMsg, hnew, hread, rootReply]
    cases rr <;> rfl

end KdbIpcMessageReader

end MgKdb
