import Mathlib.Tactic.IntervalCases
import MgKdb.Inflate.Decompressor

/-!
# Inflating in pieces

The decompressor stops only between blocks, and it starts a block only when the
buffer holds all of it.  So inflating part of a message first and the whole of
it later ends in the same state as inflating the whole at once.
-/

namespace MgKdb
namespace KdbIpcDecompressor

/-!
## One item
-/

def cost (s : KdbIpcDecompressor) : Nat :=
  if s.bit &&& s.idx ≠ 0 then 2 else 1

structure ItemStep (s : KdbIpcDecompressor) (b : ReadBuf)
    (s' : KdbIpcDecompressor) (b' : ReadBuf) : Prop where
  ipcLen : s'.ipcLen = s.ipcLen
  msgLen : s'.msgLen = s.msgLen
  bit : s'.bit = s.bit
  idx : s'.idx = s.nextBit.idx
  rdx : s'.rdx = s.rdx + s.cost
  buf : b' = b.adj s.cost
  room : s.cost <= b.remaining
  grows : exists xs, xs ≠ [] ∧ s'.dst = s.dst ++ xs

theorem plain_step {s s' : KdbIpcDecompressor} {b b' : ReadBuf}
    (hcost : s.cost = 1) (h : s.plain b = .ok (s', b')) : ItemStep s b s' b' := by
  rcases ok_bind_iff.mp h with ⟨⟨x, s0, b1⟩, hread, hrest⟩
  rcases ok_bind_iff.mp hrest with ⟨s1, hstore, hrest⟩
  rcases ok_bind_iff.mp hrest with ⟨s2, hindex, hlast⟩
  rcases readByte_eq_ok.mp hread with ⟨hpos, rfl, rfl, rfl⟩
  rcases store_eq_ok.mp hstore with ⟨_hroom, rfl⟩
  rcases index_frame hindex with ⟨lbh, rfl⟩
  cases hlast
  refine ⟨rfl, rfl, rfl, rfl, by rw [hcost]; rfl, by rw [hcost], by omega, ?_⟩
  exact ⟨[b.peekI8], by simp, rfl⟩

theorem backRef_step {s s' : KdbIpcDecompressor} {b b' : ReadBuf}
    (hcost : s.cost = 2) (h : s.backRef b = .ok (s', b')) :
    ItemStep s b s' b' := by
  rcases ok_bind_iff.mp h with ⟨⟨x, s0, b1⟩, hhash, hrest⟩
  rcases ok_bind_iff.mp hrest with ⟨old, _hlookup, hrest⟩
  rcases ok_bind_iff.mp hrest with ⟨s1, hcopy, hrest⟩
  rcases ok_bind_iff.mp hrest with ⟨⟨rdn, s2, b2⟩, hrdn, hrest⟩
  rcases ok_bind_iff.mp hrest with ⟨s3, hrun, hrest⟩
  rcases ok_bind_iff.mp hrest with ⟨s4, hindex, hlast⟩
  rcases readByte_eq_ok.mp hhash with ⟨hpos, rfl, rfl, rfl⟩
  rcases copy_frame hcopy with ⟨xs, hxs, rfl⟩
  rcases readByte_eq_ok.mp hrdn with ⟨hpos', rfl, rfl, rfl⟩
  rcases copy_frame hrun with ⟨ys, _hys, rfl⟩
  rcases index_frame hindex with ⟨lbh, rfl⟩
  cases hlast
  have hroom : 2 <= b.remaining := by
    simp only [ReadBuf.remaining, ReadBuf.adj_rest, List.length_drop] at hpos'
    unfold ReadBuf.remaining
    omega
  refine ⟨rfl, rfl, rfl, rfl, by rw [hcost]; rfl,
    by rw [hcost]; exact ReadBuf.adj_adj b 1 1, by omega, xs ++ ys, ?_,
    List.append_assoc _ _ _⟩
  intro hnil
  rw [(List.append_eq_nil_iff.mp hnil).left] at hxs
  cases hxs

theorem item_step {s s' : KdbIpcDecompressor} {b b' : ReadBuf}
    (h : s.item b = .ok (s', b')) : ItemStep s b s' b' := by
  unfold item at h
  by_cases hbit : s.bit &&& s.idx ≠ 0
  · rw [if_pos hbit] at h
    exact backRef_step (by rw [cost, if_pos hbit]) h
  · rw [if_neg hbit] at h
    exact plain_step (by rw [cost, if_neg hbit]) h

theorem readByte_of_peek {s s' : KdbIpcDecompressor} {b c c' : ReadBuf}
    {x : UInt8} (hpeek : b.peekI8 = c.peekI8) (hpos : 0 < b.remaining)
    (h : s.readByte c = .ok (x, s', c')) :
    s.readByte b = .ok (x, s', b.adj 1) := by
  rcases readByte_eq_ok.mp h with ⟨_, rfl, rfl, rfl⟩
  exact readByte_eq_ok.mpr ⟨hpos, hpeek.symm, rfl, rfl⟩

theorem item_of_peek {s s' : KdbIpcDecompressor} {b c c' : ReadBuf}
    (hpeek : forall j, j < s.cost -> (b.adj j).peekI8 = (c.adj j).peekI8)
    (hroom : s.cost <= b.remaining) (h : s.item c = .ok (s', c')) :
    s.item b = .ok (s', b.adj s.cost) := by
  unfold item at h ⊢
  unfold cost at hpeek hroom ⊢
  by_cases hbit : s.bit &&& s.idx ≠ 0
  · rw [if_pos hbit] at h hroom hpeek ⊢
    rw [if_pos hbit]
    rcases ok_bind_iff.mp h with ⟨⟨x, s0, c1⟩, hhash, hrest⟩
    rcases ok_bind_iff.mp hrest with ⟨old, hlookup, hrest⟩
    rcases ok_bind_iff.mp hrest with ⟨s1, hcopy, hrest⟩
    rcases ok_bind_iff.mp hrest with ⟨⟨rdn, s2, c2⟩, hrdn, hrest⟩
    rcases ok_bind_iff.mp hrest with ⟨s3, hrun, hrest⟩
    rcases ok_bind_iff.mp hrest with ⟨s4, hindex, hlast⟩
    cases hlast
    have hpeek' : (b.adj 1).peekI8 = c1.peekI8 := by
      rcases readByte_eq_ok.mp hhash with ⟨_, _, _, rfl⟩
      exact hpeek 1 (by omega)
    have hroom' : 0 < (b.adj 1).remaining := by
      rw [ReadBuf.adj_remaining]
      omega
    have hpeek0 := hpeek 0 (by omega)
    rw [ReadBuf.adj_zero, ReadBuf.adj_zero] at hpeek0
    refine ok_bind_iff.mpr ⟨_, readByte_of_peek hpeek0 (by omega) hhash, ?_⟩
    refine ok_bind_iff.mpr ⟨_, hlookup, ?_⟩
    refine ok_bind_iff.mpr ⟨_, hcopy, ?_⟩
    refine ok_bind_iff.mpr ⟨_, readByte_of_peek hpeek' hroom' hrdn, ?_⟩
    refine ok_bind_iff.mpr ⟨_, hrun, ?_⟩
    refine ok_bind_iff.mpr ⟨_, hindex, ?_⟩
    simp only [ReadBuf.adj_adj]
  · rw [if_neg hbit] at h hroom hpeek ⊢
    rw [if_neg hbit]
    rcases ok_bind_iff.mp h with ⟨⟨x, s0, c1⟩, hread, hrest⟩
    rcases ok_bind_iff.mp hrest with ⟨s1, hstore, hrest⟩
    rcases ok_bind_iff.mp hrest with ⟨s2, hindex, hlast⟩
    cases hlast
    have hpeek0 := hpeek 0 (by omega)
    rw [ReadBuf.adj_zero, ReadBuf.adj_zero] at hpeek0
    refine ok_bind_iff.mpr ⟨_, readByte_of_peek hpeek0 (by omega) hread, ?_⟩
    refine ok_bind_iff.mpr ⟨_, hstore, ?_⟩
    exact ok_bind_iff.mpr ⟨_, hindex, rfl⟩

theorem item_of_front {s s' : KdbIpcDecompressor} {b c c' : ReadBuf}
    (hpre : b.rest <+: c.rest) (hroom : s.cost <= b.remaining)
    (h : s.item c = .ok (s', c')) : s.item b = .ok (s', b.adj s.cost) := by
  refine item_of_peek (fun j hj => ?_) hroom h
  exact ReadBuf.peekI8_adj_of_shorter hpre (Nat.lt_of_lt_of_le hj hroom)

theorem item_of_shorter {s s' : KdbIpcDecompressor} {b c b' : ReadBuf}
    (hpre : b.rest <+: c.rest) (h : s.item b = .ok (s', b')) :
    s.item c = .ok (s', c.adj s.cost) := by
  have hroom := (item_step h).room
  refine item_of_peek (fun j hj => ?_) (Nat.le_trans hroom hpre.length_le) h
  exact (ReadBuf.peekI8_adj_of_shorter hpre (Nat.lt_of_lt_of_le hj hroom)).symm

/-!
## One block
-/

/-- The input bytes that items `i` to seven of a block take. -/
def blockNeed (set i : Nat) : Nat :=
  (((List.range 8).drop i).map (fun j => if set.testBit j then 2 else 1)).sum

theorem blockNeed_succ {set i : Nat} (hi : i < 8) :
    blockNeed set i =
      (if set.testBit i then 2 else 1) + blockNeed set (i + 1) := by
  unfold blockNeed
  rw [List.drop_eq_getElem_cons (by simpa using hi), List.map_cons, List.sum_cons,
    List.getElem_range]

theorem blockNeed_zero (set : Nat) : blockNeed set 0 = 8 + popcount set := by
  have hsum : forall is : List Nat,
      (is.map (fun j => if set.testBit j then 2 else 1)).sum =
        is.length + is.countP (fun i => set.testBit i) := by
    intro is
    induction is with
    | nil => rfl
    | cons i is ih =>
        rw [List.map_cons, List.sum_cons, ih, List.length_cons, List.countP_cons]
        split <;> omega
  rw [blockNeed, List.drop_zero, hsum, List.length_range, popcount]

theorem popcount_le (set : Nat) : popcount set <= 8 := by
  exact List.countP_le_length

theorem cost_of_idx {s : KdbIpcDecompressor} {i : Nat} (hidx : s.idx = 2 ^ i) :
    s.cost = if s.bit.testBit i then 2 else 1 := by
  unfold cost
  rw [hidx, Nat.and_two_pow]
  cases s.bit.testBit i <;> simp

theorem nextBlock_eq_some {s s1 : KdbIpcDecompressor} {b b1 : ReadBuf} :
    s.nextBlock b = some (s1, b1) <->
      (s.idx = 0 ∧ s.blockReadSz b <= b.remaining ∧
        s1 = { s with bit := b.peekI8.toNat, rdx := s.rdx + 1, idx := 1 } ∧
        b1 = b.adj 1) ∨
      (s.idx ≠ 0 ∧ s1 = s ∧ b1 = b) := by
  unfold nextBlock
  by_cases hidx : s.idx = 0
  · by_cases hroom : b.remaining < s.blockReadSz b
    · simp [hidx, hroom]
    · simp [hidx, hroom, Nat.not_lt.mp hroom, eq_comm]
  · simp [hidx, eq_comm]

theorem nextBlock_eq_none {s : KdbIpcDecompressor} {b : ReadBuf} :
    s.nextBlock b = none <-> s.idx = 0 ∧ b.remaining < s.blockReadSz b := by
  unfold nextBlock
  by_cases hidx : s.idx = 0
  · by_cases hroom : b.remaining < s.blockReadSz b
    · simp [hidx, hroom]
    · simp [hidx, hroom]
  · simp [hidx]

theorem nextBlock_frame {s s1 : KdbIpcDecompressor} {b b1 : ReadBuf}
    (h : s.nextBlock b = some (s1, b1)) :
    s1.ipcLen = s.ipcLen ∧ s1.msgLen = s.msgLen ∧ s1.dst = s.dst ∧
      s1.lbh = s.lbh ∧ s1.chx = s.chx := by
  rcases nextBlock_eq_some.mp h with ⟨_, _, rfl, _⟩ | ⟨_, rfl, _⟩
  · exact ⟨rfl, rfl, rfl, rfl, rfl⟩
  · exact ⟨rfl, rfl, rfl, rfl, rfl⟩

theorem ItemStep.off_lt {s s' : KdbIpcDecompressor} {b b' : ReadBuf}
    (h : ItemStep s b s' b') : s.off < s'.off := by
  rcases h.grows with ⟨xs, hxs, hdst⟩
  have hpos : 0 < xs.length := List.length_pos_of_ne_nil hxs
  rw [off, off, hdst, List.length_append]
  omega

/-!
## The loop
-/

theorem loop_fuel (n : Nat) :
    forall {m : Nat} {s : KdbIpcDecompressor} {b : ReadBuf},
      s.msgLen - s.off <= n -> s.msgLen - s.off <= m -> loop n s b = loop m s b := by
  induction n with
  | zero =>
      intro m s b hn _hm
      cases m with
      | zero => rfl
      | succ m => rw [loop, loop, if_neg (by omega)]
  | succ n ih =>
      intro m s b hn hm
      cases m with
      | zero => rw [loop, loop, if_neg (by omega)]
      | succ m =>
          rw [loop, loop]
          by_cases hoff : s.off < s.msgLen
          · rw [if_pos hoff, if_pos hoff]
            cases hblk : s.nextBlock b with
            | none => rfl
            | some blk =>
                rcases nextBlock_frame hblk with ⟨_, hmsg, hdst, _, _⟩
                simp only
                cases hitem : blk.1.item blk.2 with
                | error f => rfl
                | ok next =>
                    have hstep := item_step hitem
                    have hgrow := hstep.off_lt
                    have hlen := hstep.msgLen
                    have hoff' : blk.1.off = s.off := by rw [off, off, hdst]
                    exact ih (by omega) (by omega)
          · rw [if_neg hoff, if_neg hoff]

/-- Where the loop may stop: before a block, or with the whole message inflated. -/
def AtBlock (s : KdbIpcDecompressor) : Prop :=
  s.idx = 0 ∨ s.msgLen <= s.off

/--
A short buffer holds the rest of the block that was started, unless it shows
all that the full one does.
-/
def Ready (s : KdbIpcDecompressor) (short full : ReadBuf) : Prop :=
  s.idx = 0 ∨ exists i, i < 8 ∧ s.idx = 2 ^ i ∧
    (blockNeed s.bit i <= short.remaining ∨ short.rest = full.rest)

theorem nextBlock_ready {s s1 : KdbIpcDecompressor} {short full b1 : ReadBuf}
    (hlen : s.rdx + full.remaining <= s.ipcLen) (hlt : s.ipcLen < 2 ^ 64)
    (hpre : short.rest <+: full.rest) (hready : Ready s short full)
    (h : s.nextBlock short = some (s1, b1)) :
    exists j, b1 = short.adj j ∧ s.nextBlock full = some (s1, full.adj j) ∧
      j <= short.remaining ∧ s1.rdx = s.rdx + j ∧ s1.idx ≠ 0 ∧
      Ready s1 (short.adj j) (full.adj j) := by
  have hle : short.remaining <= full.remaining := hpre.length_le
  rcases nextBlock_eq_some.mp h with ⟨hidx, hsz, rfl, rfl⟩ | ⟨hidx, rfl, rfl⟩
  · have hpos : 0 < short.remaining := by
      unfold blockReadSz at hsz
      by_cases hzero : short.remaining = 0
      · rw [if_pos hzero] at hsz
        omega
      · omega
    have hpeek := ReadBuf.peekI8_of_shorter hpre hpos
    have hsame : s.blockReadSz full = s.blockReadSz short := by
      unfold blockReadSz
      rw [if_neg (by omega), if_neg (by omega), hpeek]
    refine ⟨1, rfl, ?_, hpos, rfl, by simp, Or.inr ⟨0, by omega, rfl, ?_⟩⟩
    · rw [nextBlock_eq_some]
      exact Or.inl ⟨hidx, by omega, by rw [hpeek], rfl⟩
    · -- either all eight items are there, or the last declared byte is
      have hcount := popcount_le short.peekI8.toNat
      rw [blockReadSz, if_neg (by omega)] at hsz
      simp only at hsz
      rw [blockNeed_zero]
      simp only [ReadBuf.adj_remaining, ReadBuf.adj_rest]
      unfold u64 at hsz
      by_cases hfull : short.remaining = full.remaining
      · right
        rw [hpre.eq_of_length hfull]
      · left
        omega
  · rcases hready with hzero | ⟨i, hi, hpow, hneed⟩
    · exact absurd hzero hidx
    · refine ⟨0, (ReadBuf.adj_zero _).symm, ?_, Nat.zero_le _, rfl, hidx, ?_⟩
      · rw [nextBlock_eq_some, ReadBuf.adj_zero]
        exact Or.inr ⟨hidx, rfl, rfl⟩
      · rw [ReadBuf.adj_zero, ReadBuf.adj_zero]
        exact Or.inr ⟨i, hi, hpow, hneed⟩

theorem nextBit_idx {s : KdbIpcDecompressor} {i : Nat} (hi : i < 8)
    (hidx : s.idx = 2 ^ i) :
    (i = 7 ∧ s.nextBit.idx = 0) ∨ (i + 1 < 8 ∧ s.nextBit.idx = 2 ^ (i + 1)) := by
  simp only [nextBit, hidx]
  interval_cases i <;> simp

theorem item_ready {s s' : KdbIpcDecompressor} {short full b' : ReadBuf}
    (hpre : short.rest <+: full.rest) (hready : Ready s short full)
    (hidx : s.idx ≠ 0) (h : s.item full = .ok (s', b')) :
    s.item short = .ok (s', short.adj s.cost) ∧ s.cost <= short.remaining ∧
      Ready s' (short.adj s.cost) (full.adj s.cost) := by
  have hstep := item_step h
  rcases hready with hzero | ⟨i, hi, hpow, hneed⟩
  · exact absurd hzero hidx
  have hcost := cost_of_idx hpow
  have hblock : blockNeed s.bit i = _ := blockNeed_succ hi
  rw [← hcost] at hblock
  have hroom : s.cost <= short.remaining := by
    rcases hneed with hneed | hsame
    · omega
    · have hfull := hstep.room
      unfold ReadBuf.remaining at hfull ⊢
      rwa [hsame]
  refine ⟨item_of_front hpre hroom h, hroom, ?_⟩
  unfold Ready
  rw [hstep.idx, hstep.bit]
  rcases nextBit_idx hi hpow with ⟨_, hnext⟩ | ⟨hi', hnext⟩
  · exact Or.inl hnext
  · refine Or.inr ⟨i + 1, hi', hnext, ?_⟩
    rcases hneed with hneed | hsame
    · left
      rw [ReadBuf.adj_remaining]
      omega
    · right
      rw [ReadBuf.adj_rest, ReadBuf.adj_rest, hsame]

/--
What the loop does with a short buffer is a part of what it does with the full
one; the rest is done by running it again on the bytes that are left.
-/
theorem loop_split (n : Nat) :
    forall {s sf : KdbIpcDecompressor} {short full bf : ReadBuf},
      s.msgLen - s.off <= n -> s.rdx + full.remaining <= s.ipcLen ->
      s.ipcLen < 2 ^ 64 -> short.rest <+: full.rest -> Ready s short full ->
      loop n s full = .ok (sf, bf) ->
      exists s' k, loop n s short = .ok (s', short.adj k) ∧
        k <= short.remaining ∧ s'.rdx = s.rdx + k ∧ s'.ipcLen = s.ipcLen ∧
        s'.msgLen = s.msgLen ∧ s.dst <+: s'.dst ∧ AtBlock s' ∧
        s'.uncompress (full.adj k) = .ok (sf, bf) := by
  -- stopping here leaves everything to the second run
  have hstop : forall {n : Nat} {s sf : KdbIpcDecompressor}
      {short full bf : ReadBuf}, s.msgLen - s.off <= n -> AtBlock s ->
      loop n s full = .ok (sf, bf) -> loop n s short = .ok (s, short) ->
      exists s' k, loop n s short = .ok (s', short.adj k) ∧
        k <= short.remaining ∧ s'.rdx = s.rdx + k ∧ s'.ipcLen = s.ipcLen ∧
        s'.msgLen = s.msgLen ∧ s.dst <+: s'.dst ∧ AtBlock s' ∧
        s'.uncompress (full.adj k) = .ok (sf, bf) := by
    intro n s sf short full bf hn hat hfull hshort
    refine ⟨s, 0, ?_, Nat.zero_le _, rfl, rfl, rfl, List.prefix_rfl, hat, ?_⟩
    · rw [ReadBuf.adj_zero]
      exact hshort
    · rw [ReadBuf.adj_zero, uncompress, loop_fuel _ (Nat.le_refl _) hn]
      exact hfull
  induction n with
  | zero =>
      intro s sf short full bf hn _hlen _hlt _hpre _hready hfull
      exact hstop hn (Or.inr (by omega)) hfull rfl
  | succ n ih =>
      intro s sf short full bf hn hlen hlt hpre hready hfull
      by_cases hoff : s.off < s.msgLen
      · cases hblk : s.nextBlock short with
        | none =>
            refine hstop hn (Or.inl (nextBlock_eq_none.mp hblk).left) hfull ?_
            rw [loop, if_pos hoff, hblk]
        | some blk =>
            rcases nextBlock_ready hlen hlt hpre hready hblk with
              ⟨j, hb1, hblk', hj, hrdx, hidx, hready'⟩
            rcases nextBlock_frame hblk with ⟨hipc, hmsg, hdst, _, _⟩
            have hpre' : (short.adj j).rest <+: (full.adj j).rest := hpre.drop j
            rw [loop, if_pos hoff, hblk'] at hfull
            rw [loop, if_pos hoff, hblk]
            simp only at hfull ⊢
            rw [hb1]
            rcases ok_bind_iff.mp hfull with ⟨⟨s2, b2⟩, hitem, hrest⟩
            have hstep := item_step hitem
            rcases item_ready hpre' hready' hidx hitem with
              ⟨hitem', hroom, hready''⟩
            rw [hitem']
            have hgrow := hstep.off_lt
            have hoff' : blk.1.off = s.off := by rw [off, off, hdst]
            have hcost := hstep.room
            rw [hstep.buf] at hrest
            rw [ReadBuf.adj_remaining] at hcost hroom
            have hshorter : short.remaining <= full.remaining := hpre.length_le
            rcases ih (by rw [hstep.msgLen, hmsg]; omega)
              (by
                rw [hstep.rdx, hstep.ipcLen, ReadBuf.adj_remaining,
                  ReadBuf.adj_remaining]
                omega)
              (by rw [hstep.ipcLen, hipc]; exact hlt) (hpre'.drop _) hready'' hrest
              with ⟨s', k, hloop, hk, hrdx', hipc', hmsg', hpre'', hat, hagain⟩
            rw [ReadBuf.adj_adj, ReadBuf.adj_adj] at hagain
            rw [ReadBuf.adj_remaining, ReadBuf.adj_remaining] at hk
            rcases hstep.grows with ⟨xs, _, hgrows⟩
            refine ⟨s', j + (blk.1.cost + k), ?_, by omega, ?_, ?_, ?_, ?_, hat,
              hagain⟩
            · refine hloop.trans ?_
              rw [ReadBuf.adj_adj, ReadBuf.adj_adj]
            · rw [hrdx', hstep.rdx, hrdx]
              omega
            · rw [hipc', hstep.ipcLen, hipc]
            · rw [hmsg', hstep.msgLen, hmsg]
            · rw [← hdst]
              rw [hgrows] at hpre''
              exact (List.prefix_append _ _).trans hpre''
      · refine hstop hn (Or.inr (by omega)) hfull ?_
        rw [loop, if_neg hoff]

theorem uncompress_split {s sf : KdbIpcDecompressor} {short full bf : ReadBuf}
    (hlen : s.rdx + full.remaining <= s.ipcLen) (hlt : s.ipcLen < 2 ^ 64)
    (hpre : short.rest <+: full.rest) (hat : AtBlock s)
    (h : s.uncompress full = .ok (sf, bf)) :
    exists s' k, s.uncompress short = .ok (s', short.adj k) ∧
      k <= short.remaining ∧ s'.rdx = s.rdx + k ∧ s'.ipcLen = s.ipcLen ∧
      s'.msgLen = s.msgLen ∧ s.dst <+: s'.dst ∧ AtBlock s' ∧
      s'.uncompress (full.adj k) = .ok (sf, bf) := by
  unfold uncompress at h
  rcases hat with hidx | hdone
  · exact loop_split _ (Nat.le_refl _) hlen hlt hpre (Or.inl hidx) h
  · rw [show s.msgLen - s.off = 0 by omega, loop] at h
    cases h
    refine ⟨s, 0, ?_, Nat.zero_le _, rfl, rfl, rfl, List.prefix_rfl,
      Or.inr hdone, ?_⟩
    · rw [uncompress, show s.msgLen - s.off = 0 by omega, loop, ReadBuf.adj_zero]
    · rw [uncompress, show s.msgLen - s.off = 0 by omega, loop, ReadBuf.adj_zero]

/-! Only the unread bytes of the buffer matter. -/

theorem blockReadSz_congr (s : KdbIpcDecompressor) {b c : ReadBuf}
    (hrest : b.rest = c.rest) : s.blockReadSz b = s.blockReadSz c := by
  rw [blockReadSz, blockReadSz, ReadBuf.remaining, ReadBuf.remaining,
    ReadBuf.peekI8, ReadBuf.peekI8, hrest]

theorem nextBlock_congr {s s1 : KdbIpcDecompressor} {b c c1 : ReadBuf}
    (hrest : b.rest = c.rest) (h : s.nextBlock c = some (s1, c1)) :
    exists j, s.nextBlock b = some (s1, b.adj j) ∧ c1 = c.adj j ∧
      j <= b.remaining ∧ s1.rdx = s.rdx + j := by
  have hrem : b.remaining = c.remaining := congrArg List.length hrest
  have hsize := s.blockReadSz_congr hrest
  rcases nextBlock_eq_some.mp h with ⟨hidx, hsz, rfl, rfl⟩ | ⟨hidx, rfl, rfl⟩
  · refine ⟨1, ?_, rfl, ?_, rfl⟩
    · rw [nextBlock_eq_some, hsize, hrem]
      have hpeek : b.peekI8 = c.peekI8 := by
        rw [ReadBuf.peekI8, ReadBuf.peekI8, hrest]
      exact Or.inl ⟨hidx, hsz, by rw [hpeek], rfl⟩
    · unfold blockReadSz at hsz
      split at hsz <;> omega
  · refine ⟨0, ?_, (ReadBuf.adj_zero _).symm, Nat.zero_le _, rfl⟩
    rw [nextBlock_eq_some, ReadBuf.adj_zero]
    exact Or.inr ⟨hidx, rfl, rfl⟩

theorem item_congr {s s' : KdbIpcDecompressor} {b c c' : ReadBuf}
    (hrest : b.rest = c.rest) (h : s.item c = .ok (s', c')) :
    s.item b = .ok (s', b.adj s.cost) ∧ c' = c.adj s.cost ∧
      s.cost <= b.remaining ∧ s'.rdx = s.rdx + s.cost := by
  have hstep := item_step h
  have hrem : b.remaining = c.remaining := congrArg List.length hrest
  have hroom : s.cost <= b.remaining := hrem ▸ hstep.room
  have hpre : b.rest <+: c.rest := hrest ▸ List.prefix_rfl
  exact ⟨item_of_front hpre hroom h, hstep.buf, hroom, hstep.rdx⟩

theorem loop_congr (n : Nat) :
    forall {s s' : KdbIpcDecompressor} {b c c' : ReadBuf}, b.rest = c.rest ->
      loop n s c = .ok (s', c') ->
      exists k, loop n s b = .ok (s', b.adj k) ∧ k <= b.remaining ∧
        s'.rdx = s.rdx + k := by
  induction n with
  | zero =>
      intro s s' b c c' _hrest h
      cases h
      exact ⟨0, by rw [ReadBuf.adj_zero]; rfl, Nat.zero_le _, rfl⟩
  | succ n ih =>
      intro s s' b c c' hrest h
      rw [loop] at h ⊢
      by_cases hoff : s.off < s.msgLen
      · rw [if_pos hoff] at h ⊢
        cases hblk : s.nextBlock c with
        | none =>
            rw [hblk] at h
            cases h
            have hblk' : s.nextBlock b = none := by
              rw [nextBlock_eq_none, s.blockReadSz_congr hrest, ReadBuf.remaining,
                hrest]
              exact nextBlock_eq_none.mp hblk
            rw [hblk']
            exact ⟨0, by rw [ReadBuf.adj_zero], Nat.zero_le _, rfl⟩
        | some blk =>
            rw [hblk] at h
            rcases nextBlock_congr hrest hblk with ⟨j, hb, hc, hj, hrdx⟩
            rw [hb]
            rcases ok_bind_iff.mp h with ⟨⟨s2, c2⟩, hitem, hloop⟩
            have hrest1 : (b.adj j).rest = blk.2.rest := by
              rw [hc]
              exact congrArg (List.drop j) hrest
            rcases item_congr hrest1 hitem with ⟨hitem', hc2, hcost, hrdx2⟩
            have hrest2 : ((b.adj j).adj blk.1.cost).rest = c2.rest := by
              rw [hc2]
              exact congrArg (List.drop blk.1.cost) hrest1
            rcases ih hrest2 hloop with ⟨k, hk, hkle, hkrdx⟩
            rw [ReadBuf.adj_remaining, ReadBuf.adj_remaining] at hkle
            rw [ReadBuf.adj_remaining] at hcost
            refine ⟨j + (blk.1.cost + k), ?_, by omega, ?_⟩
            · simp only
              rw [hitem']
              refine hk.trans ?_
              rw [ReadBuf.adj_adj, ReadBuf.adj_adj]
            · rw [hkrdx, hrdx2, hrdx]
              omega
      · rw [if_neg hoff] at h ⊢
        cases h
        exact ⟨0, by rw [ReadBuf.adj_zero], Nat.zero_le _, rfl⟩

theorem uncompress_congr {s s' : KdbIpcDecompressor} {b c c' : ReadBuf}
    (hrest : b.rest = c.rest) (h : s.uncompress c = .ok (s', c')) :
    s.uncompress b = .ok (s', b.adj (s'.rdx - s.rdx)) ∧ s.rdx <= s'.rdx ∧
      s'.rdx - s.rdx <= b.remaining := by
  rcases loop_congr _ hrest h with ⟨k, hloop, hk, hrdx⟩
  rw [show s'.rdx - s.rdx = k by omega]
  exact ⟨hloop, by omega, hk⟩

end KdbIpcDecompressor
end MgKdb
