import MgKdb.Foundation.Delivery
import MgKdb.Inflate.Chunks

/-!
# Every way of delivering a compressed body

What a call does with a part of the body is a part of what the single call does.  So the
single call goes on from wherever a series of calls has stopped, and the call that sees
the last byte is that single call.
-/

namespace MgKdb

open Foundation

namespace KdbIpcDecompressor

/--
The decompressor as a consumer of bytes.  It replies with its state, or with the access
that went wrong.
-/
def inflating : Consumer Unit UInt8 KdbIpcDecompressor (Except Fault KdbIpcDecompressor) where
  call s _ src :=
    match s.uncompress (ReadBuf.new src 0) with
    | .error f => (.error f, s)
    | .ok out => (.ok out.1, out.1)
  used := getUsedInputCount

/-- In bounds, and stopped at a block boundary unless the message is complete. -/
def StopsAtBlock (reply : Except Fault KdbIpcDecompressor) : Prop :=
  exists s, reply = .ok s ∧ (s.isComplete = false -> s.idx = 0)

structure InflatesAs (start : KdbIpcDecompressor) (calls : List (Unit × List UInt8))
    (once : KdbIpcDecompressor) : Prop where
  stops : forall reply, reply ∈ (inflating.deliver start [] calls).1 -> StopsAtBlock reply
  dst : (inflating.deliver start [] calls).2.dst = once.dst
  off : (inflating.deliver start [] calls).2.off = once.off
  used : (inflating.deliver start [] calls).2.getUsedInputCount = once.getUsedInputCount

structure GoesOn (body : List UInt8) (once : KdbIpcDecompressor) (got : List UInt8)
    (s : KdbIpcDecompressor) : Prop where
  fits : body.length <= s.ipcLen
  small : s.ipcLen < 2 ^ 64
  used : s.rdx <= got.length
  atBlock : s.AtBlock
  goesOn : exists b, s.uncompress (ReadBuf.new (body.drop s.rdx) 0) = .ok (once, b)

variable {body got xs : List UInt8} {once s : KdbIpcDecompressor}

theorem GoesOn.dst_front (h : GoesOn body once got s) (hgot : got <+: body) :
    s.dst <+: once.dst ∧ s.msgLen = once.msgLen := by
  rcases h.goesOn with ⟨b, hb⟩
  have hle : s.rdx <= body.length := Nat.le_trans h.used hgot.length_le
  have hlen : s.rdx + (ReadBuf.new (body.drop s.rdx) 0).remaining <= s.ipcLen := by
    have hfits := h.fits
    simp only [ReadBuf.remaining, ReadBuf.new, List.length_drop]
    omega
  rcases uncompress_split hlen h.small List.prefix_rfl h.atBlock hb with
    ⟨t, k, ht, _, _, _, hmsg, hdst, _⟩
  have hsame : t = once := congrArg Prod.fst (Except.ok.inj (ht.symm.trans hb))
  rw [hsame] at hdst hmsg
  exact ⟨hdst, hmsg.symm⟩

theorem GoesOn.call (h : GoesOn body once got s) (hpre : got ++ xs <+: body) :
    exists s', inflating.call s () ((got ++ xs).drop s.rdx) = (.ok s', s') ∧
      GoesOn body once (got ++ xs) s' ∧ (got ++ xs = body -> s' = once) := by
  rcases h.goesOn with ⟨b, hb⟩
  have hgot : got.length <= (got ++ xs).length := by simp
  have hle := hpre.length_le
  have hused := h.used
  have hfits := h.fits
  have hfront : (ReadBuf.new ((got ++ xs).drop s.rdx) 0).rest <+:
      (ReadBuf.new (body.drop s.rdx) 0).rest :=
    hpre.drop s.rdx
  have hlen : s.rdx + (ReadBuf.new (body.drop s.rdx) 0).remaining <= s.ipcLen := by
    simp only [ReadBuf.remaining, ReadBuf.new, List.length_drop]
    omega
  rcases uncompress_split hlen h.small hfront h.atBlock hb with
    ⟨s', k, hs', hk, hrdx, hipc, _, _, hat, hagain⟩
  refine ⟨s', ?_, ⟨?_, ?_, ?_, hat, ?_⟩, ?_⟩
  · simp only [inflating, hs']
  · rw [hipc]
    exact hfits
  · rw [hipc]
    exact h.small
  · simp only [ReadBuf.remaining, ReadBuf.new, List.length_drop] at hk
    omega
  · have hrest : (ReadBuf.new (body.drop s'.rdx) 0).rest =
        ((ReadBuf.new (body.drop s.rdx) 0).adj k).rest := by
      rw [ReadBuf.adj_rest, ReadBuf.new, ReadBuf.new, List.drop_drop, hrdx]
    exact ⟨_, (uncompress_congr hrest hagain).left⟩
  · rintro rfl
    exact congrArg Prod.fst (Except.ok.inj (hs'.symm.trans hb))

theorem GoesOn.stopsAtBlock (h : GoesOn body once got s) (hgot : got <+: body)
    (hcomplete : once.isComplete = true) : StopsAtBlock (.ok s) := by
  refine ⟨s, rfl, fun hmore => h.atBlock.resolve_right ?_⟩
  rcases h.dst_front hgot with ⟨hdst, hmsg⟩
  have hoff : s.off <= once.off := hdst.length_le
  simp only [isComplete, beq_iff_eq, beq_eq_false_iff_ne, ne_eq] at hcomplete hmore
  omega

/--
However a compressed body is divided into calls, they end where the single call does that
completes the message, every access in bounds, and every call before that stops at a block
boundary.
-/
theorem uncompress_chunked {ipc_len msg_len : Nat}
    (hbody : body.length <= (new ipc_len msg_len).ipcLen) {b : ReadBuf}
    (honce : (new ipc_len msg_len).uncompress (ReadBuf.new body 0) = .ok (once, b))
    (hcomplete : once.isComplete = true) (calls : List (Unit × List UInt8))
    (last : Unit × List UInt8)
    (hdelivered : Consumer.delivered calls ++ last.2 = body) :
    InflatesAs (new ipc_len msg_len) (calls ++ [last]) once := by
  have hstart : GoesOn body once [] (new ipc_len msg_len) := by
    refine ⟨hbody, ?_, Nat.le_refl 0, Or.inl rfl, b, honce⟩
    simp only [new, u64]
    omega
  have hrun : (forall reply,
        reply ∈ (inflating.deliver (new ipc_len msg_len) [] calls).1 ->
          StopsAtBlock reply) ∧
      GoesOn body once ([] ++ Consumer.delivered calls)
        (inflating.deliver (new ipc_len msg_len) [] calls).2 := by
    refine Consumer.deliver_of_step (fun got => got <+: body) ?_ ?_ calls hstart
      ⟨last.2, hdelivered⟩
    · exact fun hfront => (List.prefix_append _ _).trans hfront
    · intro s got xs _ hinv hfront
      rcases hinv.call hfront with ⟨s', hcall, hinv', _⟩
      rw [show inflating.used s = s.rdx from rfl, hcall]
      exact ⟨hinv'.stopsAtBlock hfront hcomplete, hinv'⟩
  rcases hrun.right.call (show [] ++ Consumer.delivered calls ++ last.2 <+: body by
      rw [List.nil_append, hdelivered]) with
    ⟨s', hcall, hinv', hlast⟩
  rw [List.nil_append] at hcall hinv' hlast
  have hsame := hlast hdelivered
  have hout := Consumer.deliver_concat inflating calls last (new ipc_len msg_len) []
  rw [List.nil_append, show inflating.used = getUsedInputCount from rfl,
    getUsedInputCount, hcall] at hout
  refine ⟨?_, ?_, ?_, ?_⟩
  · intro reply hreply
    rw [hout] at hreply
    rcases List.mem_append.mp hreply with hearly | hend
    · exact hrun.left reply hearly
    · rw [List.mem_singleton.mp hend]
      exact hinv'.stopsAtBlock (by rw [hdelivered]) hcomplete
  · rw [hout, hsame]
  · rw [hout, hsame]
  · rw [hout, hsame]

/-- The string `"abab"`, cut behind its first plain byte. -/
theorem uncompress_chunked_abab :
    exists once, once.dst = [97, 98, 97, 98] ∧
      InflatesAs (new 17 12) ([((), [4, 97])] ++ [((), [98, 3, 0])]) once :=
  ⟨_, rfl, uncompress_chunked
    (show ([4, 97, 98, 3, 0] : List UInt8).length <= (new 17 12).ipcLen by decide) rfl rfl
    [((), [4, 97])] ((), [98, 3, 0]) rfl⟩

end KdbIpcDecompressor
end MgKdb
