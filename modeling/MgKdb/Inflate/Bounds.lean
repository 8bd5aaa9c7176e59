import MgKdb.Inflate.History

/-!
# The memory bounds of the decompressor

Nothing in a compressed message is checked before it is used, so whether the
accesses of a call are in bounds depends on the message.  It does so item by
item: the condition below speaks of the bytes an item consists of and of what the
items before it began with.
-/

namespace MgKdb
namespace KdbIpcDecompressor

def blockLeft (s : KdbIpcDecompressor) : Nat :=
  blockNeed s.bit s.idx.log2

/--
The condition on an item.  A block that the declared input length cuts short has
the item's bytes all the same; and a back-reference names the first byte of an
earlier item and the byte behind it, and a run that fits in the message.
-/
structure ItemMeets (starts : List Nat) (s : KdbIpcDecompressor) (b : ReadBuf) :
    Prop where
  input : s.ipcLen < s.rdx + s.blockLeft -> s.cost <= b.remaining
  hash : s.bit &&& s.idx ≠ 0 ->
    exists i, i ∈ starts ∧ pairHash s.dst i = some b.peekI8
  run : s.bit &&& s.idx ≠ 0 -> s.off + 2 + (b.adj 1).peekI8.toNat <= s.msgLen

/-- A started block is in the buffer to its end, or the declared input is too short. -/
def Held (s : KdbIpcDecompressor) (b : ReadBuf) : Prop :=
  s.idx = 0 ∨ exists i, i < 8 ∧ s.idx = 2 ^ i ∧
    (blockNeed s.bit i <= b.remaining ∨ s.ipcLen < s.rdx + blockNeed s.bit i)

theorem nextBlock_held {s s1 : KdbIpcDecompressor} {b b1 : ReadBuf}
    (hlt : s.ipcLen < 2 ^ 64) (hheld : Held s b) (h : s.nextBlock b = some (s1, b1)) :
    Held s1 b1 ∧ s1.idx ≠ 0 := by
  rcases nextBlock_eq_some.mp h with ⟨_, hsz, rfl, rfl⟩ | ⟨hidx, rfl, rfl⟩
  · refine ⟨Or.inr ⟨0, by omega, rfl, ?_⟩, by simp⟩
    have hpos : b.remaining ≠ 0 := by
      intro hzero
      rw [blockReadSz, if_pos hzero] at hsz
      omega
    have hcount := popcount_le b.peekI8.toNat
    rw [blockReadSz, if_neg hpos] at hsz
    simp only [u64] at hsz
    simp only [blockNeed_zero, ReadBuf.adj_remaining]
    omega
  · exact ⟨hheld, hidx⟩

/-!
## One item
-/

section Item

variable {starts : List Nat} {s s' : KdbIpcDecompressor} {b b' : ReadBuf}

theorem Held.cost_le (hheld : Held s b) (hidx : s.idx ≠ 0)
    (hinput : s.ipcLen < s.rdx + s.blockLeft -> s.cost <= b.remaining) :
    s.cost <= b.remaining := by
  rcases hheld with hzero | ⟨i, hi, hpow, hneed | hcut⟩
  · exact absurd hzero hidx
  · have hblock : blockNeed s.bit i = _ := blockNeed_succ hi
    rw [← cost_of_idx hpow] at hblock
    omega
  · refine hinput ?_
    rw [blockLeft, hpow, Nat.log2_two_pow]
    exact hcut

theorem Held.next (hheld : Held s b) (hidx : s.idx ≠ 0) (hstep : ItemStep s b s' b') :
    Held s' b' := by
  rcases hheld with hzero | ⟨i, hi, hpow, hneed⟩
  · exact absurd hzero hidx
  have hblock : blockNeed s.bit i = _ := blockNeed_succ hi
  rw [← cost_of_idx hpow] at hblock
  unfold Held
  rw [hstep.idx, hstep.bit, hstep.buf, hstep.rdx, hstep.ipcLen]
  rcases nextBit_idx hi hpow with ⟨_, hnext⟩ | ⟨hi', hnext⟩
  · exact Or.inl hnext
  · refine Or.inr ⟨i + 1, hi', hnext, ?_⟩
    rw [ReadBuf.adj_remaining]
    omega

theorem copy_eq_ok {n : Nat} :
    forall (old : Nat) {s : KdbIpcDecompressor}, old < s.off ->
      s.off + n <= s.msgLen -> exists s', copy n old s = .ok s' := by
  induction n with
  | zero =>
      intro old s _hold _hroom
      exact ⟨s, rfl⟩
  | succ n ih =>
      intro old s hold hroom
      have hload : s.load old = .ok s.dst[old] :=
        load_eq_ok.mpr (List.getElem?_eq_getElem hold)
      have hstore := store_eq_ok (s := s) (x := s.dst[old]).mpr ⟨by omega, rfl⟩
      rcases ih (old + 1) (s := { s with dst := s.dst ++ [s.dst[old]] })
        (by simp [off]; exact hold) (by simp [off] at hroom ⊢; omega) with ⟨s', hs'⟩
      exact ⟨s', ok_bind_iff.mpr ⟨_, hload, ok_bind_iff.mpr ⟨_, hstore, hs'⟩⟩⟩

theorem copy_room {n : Nat} :
    forall {old : Nat} {s s' : KdbIpcDecompressor}, s.off <= s.msgLen ->
      copy n old s = .ok s' -> s.off + n <= s.msgLen := by
  induction n with
  | zero =>
      intro old s s' hsize _h
      exact hsize
  | succ n ih =>
      intro old s s' _hsize h
      rcases ok_bind_iff.mp h with ⟨x, _hload, hrest⟩
      rcases ok_bind_iff.mp hrest with ⟨s1, hstore, hcopy⟩
      rcases store_eq_ok.mp hstore with ⟨hroom, rfl⟩
      have hlen := ih (by simp [off] at hroom ⊢; omega) hcopy
      simp [off] at hlen ⊢
      omega

theorem plain_history (hist : History starts s) (hroom : s.off < s.msgLen)
    (hinput : 0 < b.remaining) :
    exists s' b', s.plain b = .ok (s', b') ∧ History (starts ++ [s.off]) s' := by
  have hread := readByte_eq_ok (s := s) (b := b).mpr ⟨hinput, rfl, rfl, rfl⟩
  obtain ⟨s1, hs1⟩ : exists s1 : KdbIpcDecompressor, s1 =
      { s with rdx := s.rdx + 1, dst := s.dst ++ [b.peekI8] } := ⟨_, rfl⟩
  have hstore : ({ s with rdx := s.rdx + 1 } : KdbIpcDecompressor).store b.peekI8 =
      .ok s1 := store_eq_ok.mpr ⟨hroom, hs1⟩
  have hoff : s1.off = s.off + 1 := by rw [hs1, off, List.length_append]; rfl
  have hchx : s1.chx = s.chx := by rw [hs1]
  have hsmall := hist.small
  have hle : s.chx <= s.off := by
    rcases hist.trailing with hend | ⟨hend, _⟩ <;> omega
  rcases index_enters (n := s1.off - 1 - s1.chx) (s := s1) (by omega) (by omega) with
    ⟨lbh, hindex, henters⟩
  obtain ⟨s2, hs2⟩ : exists s2 : KdbIpcDecompressor, s2 =
      { s1 with lbh := lbh, chx := s1.chx + (s1.off - 1 - s1.chx) } := ⟨_, rfl⟩
  rw [← hs2] at hindex
  refine ⟨s2.nextBit, b.adj 1, ok_bind_iff.mpr ⟨_, hread, ok_bind_iff.mpr ⟨s1, hstore,
    ok_bind_iff.mpr ⟨s2, hindex, rfl⟩⟩⟩, ?_⟩
  refine hist.item [b.peekI8] lbh (n := s1.off - 1 - s1.chx) hroom
    ?_ (Or.inl ⟨rfl, by omega, ?_⟩) ?_ ?_ ?_
  · exact henters.congr (by rw [hs1]) (by rw [hs1]) (by rw [hs1])
  · simp only [nextBit, hs2]
    omega
  · rw [nextBit, hs2, hs1]
  · rw [nextBit, hs2, hs1]
  · rw [nextBit, hs2]

theorem backRef_history (hist : History starts s) (hinput : 2 <= b.remaining)
    (hhash : exists i, i ∈ starts ∧ pairHash s.dst i = some b.peekI8)
    (hrun : s.off + 2 + (b.adj 1).peekI8.toNat <= s.msgLen) :
    exists s' b', s.backRef b = .ok (s', b') ∧ History (starts ++ [s.off]) s' := by
  rcases Option.ne_none_iff_exists'.mp (hist.lbh_ne_none_iff.mpr hhash) with ⟨old, hold⟩
  have hlt : old + 1 < s.off := pairHash_lt (hist.known hold).right
  have hread := readByte_eq_ok (s := s) (b := b).mpr ⟨by omega, rfl, rfl, rfl⟩
  obtain ⟨s0, hs0⟩ : exists s0 : KdbIpcDecompressor, s0 =
      { s with rdx := s.rdx + 1 } := ⟨_, rfl⟩
  rw [← hs0] at hread
  have hlookup : s0.lookup b.peekI8 = .ok old := lookup_eq_ok.mpr (by rw [hs0]; exact hold)
  have hoff0 : s0.off = s.off := by rw [hs0]; rfl
  have hmsg0 : s0.msgLen = s.msgLen := by rw [hs0]
  rcases copy_eq_ok (n := 2) old (s := s0) (by omega) (by omega) with
    ⟨s1, hcopy⟩
  rcases copy_frame hcopy with ⟨xs, hxs, hs1⟩
  have hoff1 : s1.off = s.off + 2 := by
    rw [hs1, off, List.length_append, hxs, ← hoff0, off]
  have hread' : s1.readByte (b.adj 1) = .ok ((b.adj 1).peekI8,
      { s1 with rdx := s1.rdx + 1 }, (b.adj 1).adj 1) :=
    readByte_eq_ok.mpr ⟨by rw [ReadBuf.adj_remaining]; omega, rfl, rfl, rfl⟩
  obtain ⟨s2, hs2⟩ : exists s2 : KdbIpcDecompressor, s2 =
      { s1 with rdx := s1.rdx + 1 } := ⟨_, rfl⟩
  rw [← hs2] at hread'
  have hoff2 : s2.off = s.off + 2 := by rw [← hoff1, hs2]; rfl
  have hmsg2 : s2.msgLen = s.msgLen := by rw [hs2, hs1, ← hmsg0]
  rcases copy_eq_ok (n := (b.adj 1).peekI8.toNat) (old + 2) (s := s2) (by omega)
    (by omega) with ⟨s3, hcopy'⟩
  rcases copy_frame hcopy' with ⟨ys, hys, hs3⟩
  have hdst3 : s3.dst = s.dst ++ (xs ++ ys) := by
    rw [hs3, hs2, hs1, hs0, List.append_assoc]
  have hlen : (xs ++ ys).length = 2 + (b.adj 1).peekI8.toNat := by
    rw [List.length_append, hxs, hys]
  have hoff3 : s3.off = s.off + (xs ++ ys).length := by
    rw [off, hdst3, List.length_append, off]
  have hchx3 : s3.chx = s.chx := by rw [hs3, hs2, hs1, hs0]
  have hmsg3 : s3.msgLen = s.msgLen := by rw [hs3, ← hmsg2]
  have hsmall := hist.small
  have hle : s.chx <= s.off := by
    rcases hist.trailing with hend | ⟨hend, _⟩ <;> omega
  rcases index_enters (n := s1.off - 1 - s3.chx) (s := s3) (by omega) (by omega) with
    ⟨lbh, hindex, henters⟩
  obtain ⟨s4, hs4⟩ : exists s4 : KdbIpcDecompressor, s4 =
      { s3 with lbh := lbh, chx := s3.chx + (s1.off - 1 - s3.chx) } := ⟨_, rfl⟩
  rw [← hs4] at hindex
  have hoff4 : s4.off = s.off + (xs ++ ys).length := by rw [← hoff3, hs4]; rfl
  refine ⟨({ s4 with chx := s4.off } : KdbIpcDecompressor).nextBit, (b.adj 1).adj 1,
    ok_bind_iff.mpr ⟨_, hread, ok_bind_iff.mpr ⟨old, hlookup,
      ok_bind_iff.mpr ⟨s1, hcopy, ok_bind_iff.mpr ⟨_, hread',
        ok_bind_iff.mpr ⟨s3, hcopy', ok_bind_iff.mpr ⟨s4, hindex, rfl⟩⟩⟩⟩⟩⟩, ?_⟩
  refine hist.item (xs ++ ys) lbh (n := s1.off - 1 - s3.chx) (by omega)
    ?_ (Or.inr ⟨by omega, by omega, ?_⟩) ?_ ?_ ?_
  · exact henters.congr (by rw [hs3, hs2, hs1, hs0]) hchx3.symm hdst3.symm
  · simp only [nextBit]
    omega
  · rw [nextBit, ← hmsg3, hs4]
  · rw [nextBit, ← hdst3, hs4]
  · rw [nextBit, hs4]

theorem backRef_meets (hist : History starts s) (h : s.backRef b = .ok (s', b')) :
    (exists i, i ∈ starts ∧ pairHash s.dst i = some b.peekI8) ∧
      s.off + 2 + (b.adj 1).peekI8.toNat <= s.msgLen := by
  rcases ok_bind_iff.mp h with ⟨⟨x, s0, b1⟩, hhash, hrest⟩
  rcases ok_bind_iff.mp hrest with ⟨old, hlookup, hrest⟩
  rcases ok_bind_iff.mp hrest with ⟨s1, hcopy, hrest⟩
  rcases ok_bind_iff.mp hrest with ⟨⟨rdn, s2, b2⟩, hrdn, hrest⟩
  rcases ok_bind_iff.mp hrest with ⟨s3, hrun, _⟩
  rcases readByte_eq_ok.mp hhash with ⟨_, rfl, rfl, rfl⟩
  have hsize : s.off + 2 <= s.msgLen :=
    copy_room (s := { s with rdx := s.rdx + 1 }) hist.size hcopy
  rcases copy_frame hcopy with ⟨xs, hxs, rfl⟩
  rcases readByte_eq_ok.mp hrdn with ⟨_, rfl, rfl, rfl⟩
  have hoff : (s.dst ++ xs).length = s.off + 2 := by rw [List.length_append, hxs, off]
  have hfull : (s.dst ++ xs).length <= s.msgLen := by omega
  have hfit : (s.dst ++ xs).length + (b.adj 1).peekI8.toNat <= s.msgLen :=
    copy_room (s := { s with rdx := s.rdx + 1 + 1, dst := s.dst ++ xs }) hfull hrun
  refine ⟨⟨old, hist.known (lookup_eq_ok.mp hlookup)⟩, ?_⟩
  omega

theorem item_ok_iff (hist : History starts s) (hheld : Held s b) (hidx : s.idx ≠ 0)
    (hroom : s.off < s.msgLen) :
    (exists out, s.item b = .ok out) <-> ItemMeets starts s b := by
  constructor
  · rintro ⟨⟨s', b'⟩, h⟩
    refine ⟨fun _ => (item_step h).room, fun hbit => ?_, fun hbit => ?_⟩
    · rw [item, if_pos hbit] at h
      exact (backRef_meets hist h).left
    · rw [item, if_pos hbit] at h
      exact (backRef_meets hist h).right
  · rintro ⟨hinput, hhash, hrun⟩
    have hcost := hheld.cost_le hidx hinput
    by_cases hbit : s.bit &&& s.idx ≠ 0
    · rw [cost, if_pos hbit] at hcost
      rcases backRef_history hist hcost (hhash hbit) (hrun hbit) with ⟨s', b', h, _⟩
      exact ⟨(s', b'), by rw [item, if_pos hbit, h]⟩
    · rw [cost, if_neg hbit] at hcost
      rcases plain_history hist hroom hcost with ⟨s', b', h, _⟩
      exact ⟨(s', b'), by rw [item, if_neg hbit, h]⟩

theorem item_history (hist : History starts s) (hroom : s.off < s.msgLen)
    (h : s.item b = .ok (s', b')) : History (starts ++ [s.off]) s' := by
  have hcost := (item_step h).room
  by_cases hbit : s.bit &&& s.idx ≠ 0
  · rw [item, if_pos hbit] at h
    rw [cost, if_pos hbit] at hcost
    rcases backRef_meets hist h with ⟨hhash, hrun⟩
    rcases backRef_history hist hcost hhash hrun with ⟨s1, b1, h1, hist1⟩
    rw [h, Except.ok.injEq, Prod.mk.injEq] at h1
    exact h1.left ▸ hist1
  · rw [item, if_neg hbit] at h
    rw [cost, if_neg hbit] at hcost
    rcases plain_history hist hroom hcost with ⟨s1, b1, h1, hist1⟩
    rw [h, Except.ok.injEq, Prod.mk.injEq] at h1
    exact h1.left ▸ hist1

end Item

end KdbIpcDecompressor
end MgKdb
