import MgKdb.Inflate.Chunks

/-!
# The compressed stream

What a call has inflated stays inflated, and a buffer that shows more is inflated from there
on.  So wherever the calls are cut, they come to what one call makes of all that is
delivered.
-/

namespace MgKdb
namespace KdbIpcDecompressor

/-!
## Going on
-/

theorem blockReadSz_pos {s : KdbIpcDecompressor} {b : ReadBuf}
    (h : s.blockReadSz b <= b.remaining) : 0 < b.remaining := by
  unfold blockReadSz at h
  split at h <;> omega

theorem nextBlock_of_shorter {s s' : KdbIpcDecompressor} {short full b : ReadBuf}
    (hpre : short.rest <+: full.rest) (h : s.nextBlock short = some (s', b)) :
    exists j, b = short.adj j ∧ j <= short.remaining ∧ s'.rdx = s.rdx + j ∧
      s.nextBlock full = some (s', full.adj j) := by
  have hle : short.remaining <= full.remaining := hpre.length_le
  rcases nextBlock_eq_some.mp h with ⟨hidx, hsz, rfl, rfl⟩ | ⟨hidx, rfl, rfl⟩
  · have hpos := blockReadSz_pos hsz
    have hpeek := ReadBuf.peekI8_of_shorter hpre hpos
    refine ⟨1, rfl, hpos, rfl, nextBlock_eq_some.mpr (Or.inl ⟨hidx, ?_, by rw [hpeek], rfl⟩)⟩
    unfold blockReadSz at hsz ⊢
    rw [if_neg (by omega)] at hsz ⊢
    rw [hpeek] at hsz
    omega
  · exact ⟨0, (ReadBuf.adj_zero _).symm, Nat.zero_le _, rfl,
      nextBlock_eq_some.mpr (Or.inr ⟨hidx, rfl, ReadBuf.adj_zero _⟩)⟩

theorem loop_onward (n : Nat) :
    forall {s s' : KdbIpcDecompressor} {short full b : ReadBuf},
      s.msgLen - s.off <= n -> short.rest <+: full.rest -> loop n s short = .ok (s', b) ->
        s'.uncompress (full.adj (s'.rdx - s.rdx)) = s.uncompress full := by
  have hstay : forall (s : KdbIpcDecompressor) (full : ReadBuf),
      s.uncompress (full.adj (s.rdx - s.rdx)) = s.uncompress full := by
    intro s full
    rw [Nat.sub_self, ReadBuf.adj_zero]
  induction n with
  | zero =>
      intro s s' short full b _hn _hpre h
      cases h
      exact hstay s full
  | succ n ih =>
      intro s s' short full b hn hpre h
      rw [loop] at h
      by_cases hoff : s.off < s.msgLen
      · rw [if_pos hoff] at h
        cases hblk : s.nextBlock short with
        | none =>
            rw [hblk] at h
            cases h
            exact hstay s full
        | some blk =>
            rw [hblk] at h
            rcases ok_bind_iff.mp h with ⟨next, hitem, hloop⟩
            rcases nextBlock_of_shorter hpre hblk with ⟨j, hb1, _, hrdx1, hblk'⟩
            rcases nextBlock_frame hblk with ⟨_, hmsg, hdst, _, _⟩
            have hstep := item_step hitem
            have hgrow := hstep.off_lt
            have hmsg' := hstep.msgLen
            have hoff' : blk.1.off = s.off := by rw [off, off, hdst]
            have hpre1 : blk.2.rest <+: (full.adj j).rest := by
              rw [hb1]
              exact hpre.drop j
            have hpre2 : next.2.rest <+: ((full.adj j).adj blk.1.cost).rest := by
              rw [hstep.buf]
              exact hpre1.drop _
            have hnext := ih (by omega) hpre2 hloop
            have hitem' := item_of_shorter hpre1 hitem
            rcases loop_congr n rfl hloop with ⟨k, _, _, hk⟩
            have hrdx : s'.rdx - s.rdx = j + (blk.1.cost + (s'.rdx - next.1.rdx)) := by
              rw [hk, hstep.rdx, hrdx1]
              omega
            rw [hrdx, ← ReadBuf.adj_adj, ← ReadBuf.adj_adj, hnext, uncompress,
              loop_fuel _ (Nat.le_refl _) (show next.1.msgLen - next.1.off <= n by omega),
              uncompress, loop_fuel _ (Nat.le_refl _) hn, loop, if_pos hoff, hblk']
            simp only
            rw [hitem']
            rfl
      · rw [if_neg hoff] at h
        cases h
        exact hstay s full

theorem uncompress_onward {s s' : KdbIpcDecompressor} {short b : ReadBuf} (full : ReadBuf)
    (hpre : short.rest <+: full.rest) (h : s.uncompress short = .ok (s', b)) :
    s'.uncompress (full.adj (s'.rdx - s.rdx)) = s.uncompress full :=
  loop_onward _ (Nat.le_refl _) hpre h

/-!
## From the first byte
-/

/-- One call of a fresh decompressor with `body` ends in `s`. -/
def Inflates (ipc_len msg_len : Nat) (body : List UInt8) (s : KdbIpcDecompressor) : Prop :=
  exists b, (new ipc_len msg_len).uncompress (ReadBuf.new body 0) = .ok (s, b)

/-- Calls that have shown parts of `body` have come to `s`. -/
def Reached (ipc_len msg_len : Nat) (body : List UInt8) (s : KdbIpcDecompressor) : Prop :=
  exists u, u <+: body ∧ Inflates ipc_len msg_len u s

section Reached

variable {ipc_len msg_len : Nat} {body : List UInt8} {s s' : KdbIpcDecompressor} {b b' : ReadBuf}

theorem Inflates.room (h : Inflates ipc_len msg_len body s) : s.rdx <= body.length := by
  rcases h with ⟨b, h⟩
  exact (uncompress_congr rfl h).right.right

theorem Reached.more (h : Reached ipc_len msg_len body s) (xs : List UInt8) :
    Reached ipc_len msg_len (body ++ xs) s := by
  rcases h with ⟨u, hpre, h⟩
  exact ⟨u, hpre.trans (List.prefix_append _ _), h⟩

theorem reached_new (ipc_len msg_len : Nat) (body : List UInt8) :
    Reached ipc_len msg_len body (new ipc_len msg_len) := by
  have hblk : (new ipc_len msg_len).nextBlock (ReadBuf.new [] 0) = none := by
    rw [nextBlock_eq_none]
    exact ⟨rfl, by simp [blockReadSz, ReadBuf.new, ReadBuf.remaining]⟩
  refine ⟨[], List.nil_prefix, ReadBuf.new [] 0, ?_⟩
  rw [uncompress]
  cases (new ipc_len msg_len).msgLen - (new ipc_len msg_len).off with
  | zero => rfl
  | succ n => rw [loop, hblk, ite_self]

theorem Reached.uncompress (h : Reached ipc_len msg_len body s)
    (hrest : b.rest = body.drop s.rdx) (hinf : s.uncompress b = .ok (s', b')) :
    Inflates ipc_len msg_len body s' ∧ s'.rdx = s.rdx + (b'.off - b.off) := by
  rcases h with ⟨u, hpre, b0, h⟩
  have honward := uncompress_onward (ReadBuf.new body 0) hpre h
  have hsame : ((ReadBuf.new body 0).adj s.rdx).rest = b.rest := by
    rw [ReadBuf.adj_rest, hrest]
    rfl
  rcases uncompress_congr hsame hinf with ⟨hagain, _, _⟩
  rcases uncompress_congr rfl hinf with ⟨hself, hle, _⟩
  rw [hinf] at hself
  cases hself
  refine ⟨⟨_, honward.symm.trans hagain⟩, ?_⟩
  rw [ReadBuf.adj_off]
  omega

end Reached

end KdbIpcDecompressor
end MgKdb
