import MgKdb.Inflate.Bounds
import MgKdb.Reader.Message

/-!
# Which compressed messages are inflated safely

A message is inflated by a series of calls, each shown what the ones before have
not consumed.  All their accesses are in bounds exactly when every item they come
to meets its condition.
-/

namespace MgKdb
namespace KdbIpcDecompressor

/-!
## The items of a run
-/

/-- The states in which `loop` begins an item, with the buffer at its input. -/
def items : Nat -> KdbIpcDecompressor -> ReadBuf -> List (KdbIpcDecompressor × ReadBuf)
  | 0, _, _ => []
  | n + 1, s, b =>
      if s.off < s.msgLen then
        match s.nextBlock b with
        | none => []
        | some blk =>
            blk :: match blk.1.item blk.2 with
              | .error _ => []
              | .ok next => items n next.1 next.2
      else []

/--
The buffer of the call in which `piece` arrives, `got` being everything
behind the message header that arrived before.
-/
def window (s : KdbIpcDecompressor) (got piece : List UInt8) : ReadBuf :=
  ReadBuf.new ((got ++ piece).drop s.rdx) 0

def runItems : KdbIpcDecompressor -> List UInt8 -> List (List UInt8) ->
    List (KdbIpcDecompressor × ReadBuf)
  | _, _, [] => []
  | s, got, piece :: rest =>
      items (s.msgLen - s.off) s (s.window got piece) ++
        match s.uncompress (s.window got piece) with
        | .error _ => []
        | .ok out => runItems out.1 (got ++ piece) rest

/-- Every item meets its condition, the items before it having begun at `starts`. -/
def Meet : List Nat -> List (KdbIpcDecompressor × ReadBuf) -> Prop
  | _, [] => True
  | starts, it :: rest => ItemMeets starts it.1 it.2 ∧ Meet (starts ++ [it.1.off]) rest

instance (starts : List Nat) (s : KdbIpcDecompressor) (b : ReadBuf) :
    Decidable (ItemMeets starts s b) :=
  decidable_of_iff
    ((s.ipcLen < s.rdx + s.blockLeft -> s.cost <= b.remaining) ∧
      (s.bit &&& s.idx ≠ 0 -> exists i, i ∈ starts ∧ pairHash s.dst i = some b.peekI8) ∧
      (s.bit &&& s.idx ≠ 0 -> s.off + 2 + (b.adj 1).peekI8.toNat <= s.msgLen))
    ⟨fun h => ⟨h.left, h.right.left, h.right.right⟩, fun h => ⟨h.input, h.hash, h.run⟩⟩

instance decidableMeet : (starts : List Nat) ->
    (its : List (KdbIpcDecompressor × ReadBuf)) -> Decidable (Meet starts its)
  | _, [] => .isTrue trivial
  | starts, it :: rest =>
      have := decidableMeet (starts ++ [it.1.off]) rest
      inferInstanceAs (Decidable (_ ∧ _))

/-- Every call succeeds and leaves `m_off` within the message. -/
def InBounds : KdbIpcDecompressor -> List UInt8 -> List (List UInt8) -> Prop
  | _, _, [] => True
  | s, got, piece :: rest =>
      exists out, s.uncompress (s.window got piece) = .ok out ∧
        out.1.off <= out.1.msgLen ∧ InBounds out.1 (got ++ piece) rest

theorem meet_append {xs ys : List (KdbIpcDecompressor × ReadBuf)} :
    forall {starts : List Nat}, Meet starts (xs ++ ys) <->
      Meet starts xs ∧ Meet (starts ++ xs.map (fun it => it.1.off)) ys := by
  induction xs with
  | nil =>
      intro starts
      simp [Meet]
  | cons it xs ih =>
      intro starts
      rw [List.cons_append, Meet, Meet, ih, List.map_cons, and_assoc, List.append_assoc,
        List.singleton_append]

/-!
## One call
-/

theorem History.congr {starts : List Nat} {s t : KdbIpcDecompressor}
    (hist : History starts s) (hmsg : t.msgLen = s.msgLen) (hdst : t.dst = s.dst)
    (hlbh : t.lbh = s.lbh) (hchx : t.chx = s.chx) : History starts t := by
  have hoff : t.off = s.off := by rw [off, off, hdst]
  refine ⟨by rw [hoff, hmsg]; exact hist.size, by rw [hmsg]; exact hist.small, ?_, ?_, ?_, ?_⟩
  · rw [hoff]
    exact hist.before
  · rw [hoff, hchx]
    exact hist.trailing
  · rw [hlbh, hdst]
    exact hist.known
  · rw [hchx, hlbh, hdst]
    exact hist.entered

theorem loop_ok_iff (n : Nat) :
    forall {starts : List Nat} {s : KdbIpcDecompressor} {b : ReadBuf},
      History starts s -> s.ipcLen < 2 ^ 64 -> (s.off < s.msgLen -> Held s b) ->
        ((exists out, loop n s b = .ok out) <-> Meet starts (items n s b)) ∧
        (forall {s' : KdbIpcDecompressor} {b' : ReadBuf}, loop n s b = .ok (s', b') ->
          s'.ipcLen = s.ipcLen ∧ (s.msgLen - s.off <= n -> AtBlock s') ∧
          History (starts ++ (items n s b).map (fun it => it.1.off)) s') := by
  induction n with
  | zero =>
      intro starts s b hist _hlt _hheld
      refine ⟨⟨fun _ => trivial, fun _ => ⟨(s, b), rfl⟩⟩, ?_⟩
      intro s' b' h
      cases h
      refine ⟨rfl, fun hle => Or.inr (by omega), ?_⟩
      rwa [items, List.map_nil, List.append_nil]
  | succ n ih =>
      intro starts s b hist hlt hheld
      rw [loop, items]
      by_cases hoff : s.off < s.msgLen
      · rw [if_pos hoff, if_pos hoff]
        cases hblk : s.nextBlock b with
        | none =>
            refine ⟨⟨fun _ => trivial, fun _ => ⟨(s, b), rfl⟩⟩, ?_⟩
            intro s' b' h
            cases h
            refine ⟨rfl, fun _ => Or.inl (nextBlock_eq_none.mp hblk).left, ?_⟩
            rwa [List.map_nil, List.append_nil]
        | some blk =>
            rcases nextBlock_frame hblk with ⟨hipc, hmsg, hdst, hlbh, hchx⟩
            rcases nextBlock_held hlt (hheld hoff) hblk with ⟨hheld1, hidx⟩
            have hoff1 : blk.1.off = s.off := by rw [off, off, hdst]
            have hist1 : History starts blk.1 := hist.congr hmsg hdst hlbh hchx
            have hroom1 : blk.1.off < blk.1.msgLen := by omega
            have hitem := item_ok_iff hist1 hheld1 hidx hroom1
            simp only [Meet]
            rw [← hitem]
            cases hnext : blk.1.item blk.2 with
            | error why =>
                constructor
                · constructor
                  · rintro ⟨out, hout⟩
                    cases hout
                  · rintro ⟨⟨out, hout⟩, _⟩
                    cases hout
                · intro s' b' h
                  cases h
            | ok next =>
                have hstep := item_step hnext
                have hgrow := hstep.off_lt
                have hmsg2 := hstep.msgLen
                have hist2 := item_history hist1 hroom1 hnext
                rcases ih hist2 (by rw [hstep.ipcLen, hipc]; exact hlt)
                  (fun _ => hheld1.next hidx hstep) with ⟨hiff, hend⟩
                refine ⟨?_, ?_⟩
                · rw [← hiff]
                  exact ⟨fun h => ⟨⟨next, rfl⟩, h⟩, fun h => h.right⟩
                · intro s' b' h
                  rcases hend h with ⟨hipc', hat, hist'⟩
                  refine ⟨by rw [hipc', hstep.ipcLen, hipc], fun hle => hat (by omega), ?_⟩
                  rw [List.map_cons, ← List.singleton_append, ← List.append_assoc]
                  exact hist'
      · rw [if_neg hoff, if_neg hoff]
        refine ⟨⟨fun _ => trivial, fun _ => ⟨(s, b), rfl⟩⟩, ?_⟩
        intro s' b' h
        cases h
        refine ⟨rfl, fun _ => Or.inr (Nat.not_lt.mp hoff), ?_⟩
        rwa [List.map_nil, List.append_nil]

/-!
## All calls
-/

theorem inBounds_iff (pieces : List (List UInt8)) :
    forall {starts : List Nat} {s : KdbIpcDecompressor} {got : List UInt8},
      History starts s -> s.ipcLen < 2 ^ 64 -> AtBlock s ->
        (InBounds s got pieces <-> Meet starts (runItems s got pieces)) := by
  induction pieces with
  | nil =>
      intro starts s got _hist _hlt _hat
      exact ⟨fun _ => trivial, fun _ => trivial⟩
  | cons piece rest ih =>
      intro starts s got hist hlt hat
      have hheld : s.off < s.msgLen -> Held s (s.window got piece) := by
        intro hroom
        rcases hat with hidx | hdone
        · exact Or.inl hidx
        · omega
      rcases loop_ok_iff (s.msgLen - s.off) hist hlt hheld with ⟨hiff, hend⟩
      rw [InBounds, runItems, meet_append, ← hiff]
      cases hcall : s.uncompress (s.window got piece) with
      | error why =>
          rw [uncompress] at hcall
          rw [hcall]
          constructor
          · rintro ⟨out, hout, _⟩
            cases hout
          · rintro ⟨⟨out, hout⟩, _⟩
            cases hout
      | ok out =>
          rcases hend hcall with ⟨hipc, hat', hist'⟩
          have hrest := @ih _ _ (got ++ piece) hist' (by rw [hipc]; exact hlt)
            (hat' (Nat.le_refl _))
          simp only
          rw [← hrest]
          rw [uncompress] at hcall
          constructor
          · rintro ⟨out', hout', _, hall⟩
            cases hout'
            exact ⟨⟨out, hcall⟩, hall⟩
          · rintro ⟨_, hall⟩
            exact ⟨out, rfl, hist'.size, hall⟩

/-- The reader accepts a header and sets up `s` to inflate what follows it. -/
def Accepted (canAlloc : Nat -> Bool) (hdr : List UInt8) (s : KdbIpcDecompressor) :
    Prop :=
  exists result,
    (KdbIpcMessageReader.new.readMsgHdr canAlloc (ReadBuf.new hdr 0) result).1.1 = true ∧
      (KdbIpcMessageReader.new.readMsgHdr canAlloc (ReadBuf.new hdr 0) result).2.1.inflater =
        some s

theorem i32At_size {bs : List UInt8} (h : u64 ((u64 (i32At bs) : Int) - 8) < 2 ^ 63) :
    u64 ((u64 (i32At bs) : Int) - 8) <= 2 ^ 32 := by
  have hrange := i32At_range bs
  unfold u64 at h ⊢
  omega

theorem Accepted.history {canAlloc : Nat -> Bool} {hdr : List UInt8}
    {s : KdbIpcDecompressor} (h : Accepted canAlloc hdr s) :
    History [] s ∧ s.ipcLen < 2 ^ 64 ∧ s.AtBlock := by
  rcases h with ⟨result, htrue, hinf⟩
  have hnew : KdbIpcMessageReader.new.ipcLen = 0 := rfl
  unfold KdbIpcMessageReader.readMsgHdr at htrue hinf
  rw [if_pos hnew] at htrue hinf
  by_cases h8 : (ReadBuf.new hdr 0).remaining < 8
  · rw [if_pos h8] at htrue
    cases htrue
  rw [if_neg h8] at htrue hinf
  by_cases hend : (ReadBuf.new hdr 0).peekI8 ≠ 1
  · rw [if_pos hend] at htrue
    cases htrue
  rw [if_neg hend] at htrue hinf
  simp only [ReadBuf.readI8, ReadBuf.readI32, ReadBuf.adj_adj, Nat.reduceAdd] at htrue hinf
  by_cases hcomp : ((ReadBuf.new hdr 0).adj 2).rest.headD 0 == 1
  · rw [if_pos hcomp] at htrue hinf
    by_cases hshort : ((ReadBuf.new hdr 0).adj 8).canRead 4 = false
    · rw [if_pos hshort] at htrue
      cases htrue
    rw [if_neg hshort] at htrue hinf
    split at hinf
    · rename_i halloc
      rw [if_pos halloc] at htrue
      cases htrue
    · rename_i halloc
      cases hinf
      rw [not_or, Nat.not_le] at halloc
      exact ⟨new_history (i32At_size halloc.left), by simp only [new, u64]; omega,
        Or.inl rfl⟩
  · rw [if_neg hcomp] at hinf
    cases hinf

/--
Whatever follows an accepted header and however it is cut, the decompressor stays
in bounds exactly when every item it comes to meets its condition.
-/
theorem uncompress_inBounds {canAlloc : Nat -> Bool} {hdr : List UInt8}
    {s : KdbIpcDecompressor} (haccepted : Accepted canAlloc hdr s)
    (pieces : List (List UInt8)) :
    InBounds s [] pieces <-> Meet [] (runItems s [] pieces) := by
  rcases haccepted.history with ⟨hist, hlt, hat⟩
  exact inBounds_iff pieces hist hlt hat

/-- The header of `"abab"`, inflated from five bytes. -/
def ababHdr : List UInt8 :=
  [1, 0, 1, 0, 17, 0, 0, 0, 12, 0, 0, 0]

theorem ababHdr_accepted : Accepted (fun _ => true) ababHdr (new 17 12) :=
  ⟨⟨.unset, 0, none⟩, by decide +kernel, rfl⟩

/-- Two plain bytes and a back-reference to them, in two pieces. -/
theorem uncompress_inBounds_abab : InBounds (new 17 12) [] [[4, 97], [98, 3, 0]] :=
  (uncompress_inBounds ababHdr_accepted _).mpr (by decide +kernel)

/-- A block that starts with a back-reference, when nothing was stored yet. -/
theorem uncompress_inBounds_unset :
    ¬ forall (canAlloc : Nat -> Bool) (hdr : List UInt8) (s : KdbIpcDecompressor),
      Accepted canAlloc hdr s ->
        forall pieces : List (List UInt8), InBounds s [] pieces := by
  intro hclaim
  have hrun : (new 17 12).uncompress ((new 17 12).window [] [1, 0, 0, 0, 0]) =
      .error .readLbh := by rfl
  rcases hclaim _ _ _ ababHdr_accepted [[1, 0, 0, 0, 0]] with ⟨out, hout, _⟩
  rw [hrun] at hout
  cases hout

/-- A run that is longer than the message, and a block that is shorter than it says. -/
example : (new 17 12).uncompress ((new 17 12).window [] [4, 97, 98, 3, 1]) =
    .error .writeDst := by rfl

example : (new 15 12).uncompress ((new 15 12).window [] [0, 97, 98]) =
    .error .readInput := by rfl

end KdbIpcDecompressor
end MgKdb
