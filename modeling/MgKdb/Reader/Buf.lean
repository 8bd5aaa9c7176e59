import MgKdb.Wire.Object

/-!
# The read buffer

A buffer keeps the bytes that are still unread, the offset reached in the source
and the cursor.  The cursor is what makes reading resumable: it starts at minus
the number of bytes consumed by earlier calls, objects move it forward over what
they already hold, and only an active (non-negative) cursor touches the bytes.
-/

namespace MgKdb

open Foundation

/-- `ReadBuf`, with the bytes from `m_src + m_off` up to `m_len`. -/
structure ReadBuf where
  rest : List UInt8
  off : Nat
  csr : Int
  deriving DecidableEq, Repr

namespace ReadBuf

def new (src : List UInt8) (csr : Int) : ReadBuf :=
  { rest := src, off := 0, csr := csr }

def remaining (b : ReadBuf) : Nat :=
  b.rest.length

def canRead (b : ReadBuf) (n : Nat) : Bool :=
  decide (n <= b.remaining)

def cursorActive (b : ReadBuf) : Bool :=
  decide (0 <= b.csr)

def ffwd (b : ReadBuf) (n : Nat) : ReadBuf :=
  { b with csr := b.csr + n }

def adj (b : ReadBuf) (n : Nat) : ReadBuf :=
  { rest := b.rest.drop n, off := b.off + n, csr := b.csr + n }

/-- The test at the head of every `read`: step over a header read before. -/
def skipHdr (b : ReadBuf) (n : Nat) : ReadBuf :=
  if b.cursorActive then b else b.ffwd n

/-! The callers of the next four check for room first. -/

def peekI8 (b : ReadBuf) : UInt8 :=
  b.rest.headD 0

def readI8 (b : ReadBuf) : UInt8 × ReadBuf :=
  (b.rest.headD 0, b.adj 1)

def readI32 (b : ReadBuf) : Int × ReadBuf :=
  (i32At b.rest, b.adj 4)

def readWord (w : Nat) (b : ReadBuf) : BitVec (8 * w) × ReadBuf :=
  (wordAt w b.rest, b.adj w)

/-- `read(std::vector<T>&, count)`: the count it answers, and the elements. -/
def readVec (w count : Nat) (b : ReadBuf) :
    (Nat × List (BitVec (8 * w))) × ReadBuf :=
  if b.remaining < w * count then ((0, []), b)
  else ((count, wordsAt w count b.rest), b.adj (w * count))

def readSym (str : List UInt8) (b : ReadBuf) :
    ReadResult × List UInt8 × ReadBuf :=
  if 0 < b.remaining then
    if b.remaining = strnlen b.rest b.remaining then (.incomplete, str, b)
    else
      (.ok, b.rest.take (strnlen b.rest b.remaining),
        b.adj (strnlen b.rest b.remaining + 1))
  else (.incomplete, str, b)

def readSymsLoop : Nat -> List LocInfo -> List UInt8 -> ReadBuf ->
    ReadResult × (List LocInfo × List UInt8) × ReadBuf
  | 0, locs, data, b => (.ok, (locs, data), b)
  | n + 1, locs, data, b =>
      if b.remaining = strnlen b.rest b.remaining then (.incomplete, (locs, data), b)
      else
        readSymsLoop n
          (locs ++ [⟨UInt32.ofNat data.length,
            UInt32.ofNat (strnlen b.rest b.remaining + 1)⟩])
          (data ++ b.rest.take (strnlen b.rest b.remaining + 1))
          (b.adj (strnlen b.rest b.remaining + 1))

def readSyms (rqd : Nat) (locs : List LocInfo) (data : List UInt8) (b : ReadBuf) :
    ReadResult × (List LocInfo × List UInt8) × ReadBuf :=
  if 0 < b.remaining then readSymsLoop rqd locs data b
  else (.incomplete, (locs, data), b)

/-!
## Cursor arithmetic
-/

@[simp] theorem ffwd_rest (b : ReadBuf) (n : Nat) : (b.ffwd n).rest = b.rest := rfl

@[simp] theorem ffwd_off (b : ReadBuf) (n : Nat) : (b.ffwd n).off = b.off := rfl

@[simp] theorem ffwd_csr (b : ReadBuf) (n : Nat) : (b.ffwd n).csr = b.csr + n := rfl

@[simp] theorem adj_rest (b : ReadBuf) (n : Nat) :
    (b.adj n).rest = b.rest.drop n := rfl

@[simp] theorem adj_off (b : ReadBuf) (n : Nat) : (b.adj n).off = b.off + n := rfl

@[simp] theorem adj_csr (b : ReadBuf) (n : Nat) : (b.adj n).csr = b.csr + n := rfl

theorem adj_adj (b : ReadBuf) (m n : Nat) : (b.adj m).adj n = b.adj (m + n) := by
  simp [adj, List.drop_drop]
  omega

theorem adj_zero (b : ReadBuf) : b.adj 0 = b := by
  simp [adj]

theorem ffwd_zero (b : ReadBuf) : b.ffwd 0 = b := by
  simp [ffwd]

theorem cursorActive_iff (b : ReadBuf) : b.cursorActive = true <-> 0 <= b.csr := by
  simp [cursorActive]

theorem cursorActive_of_nonneg {b : ReadBuf} (h : 0 <= b.csr) :
    b.cursorActive = true :=
  (cursorActive_iff b).mpr h

theorem cursorActive_of_neg {b : ReadBuf} (h : b.csr < 0) :
    b.cursorActive = false := by
  simp only [cursorActive, decide_eq_false_iff_not]
  omega

@[simp] theorem skipHdr_rest (b : ReadBuf) (n : Nat) :
    (b.skipHdr n).rest = b.rest := by
  unfold skipHdr
  split <;> rfl

@[simp] theorem ffwd_remaining (b : ReadBuf) (n : Nat) :
    (b.ffwd n).remaining = b.remaining := rfl

@[simp] theorem skipHdr_remaining (b : ReadBuf) (n : Nat) :
    (b.skipHdr n).remaining = b.remaining := by
  simp [remaining]

@[simp] theorem adj_remaining (b : ReadBuf) (n : Nat) :
    (b.adj n).remaining = b.remaining - n := by
  simp [remaining, adj]

theorem skipHdr_of_nonneg {b : ReadBuf} (h : 0 <= b.csr) (n : Nat) :
    b.skipHdr n = b := by
  rw [skipHdr, cursorActive_of_nonneg h, if_pos rfl]

theorem skipHdr_of_neg {b : ReadBuf} (h : b.csr < 0) (n : Nat) :
    b.skipHdr n = b.ffwd n := by
  rw [skipHdr, cursorActive_of_neg h]
  rfl

/-! Two buffers of which one shows less than the other agree on what both show. -/

theorem peekI8_of_shorter {b c : ReadBuf} (hpre : c.rest <+: b.rest)
    (hpos : 0 < c.remaining) : c.peekI8 = b.peekI8 := by
  unfold remaining at hpos
  unfold peekI8
  rcases hpre with ⟨suffix, hsuffix⟩
  rw [← hsuffix]
  cases hrest : c.rest with
  | nil =>
      rw [hrest] at hpos
      simp at hpos
  | cons x xs => rfl

theorem peekI8_adj_of_shorter {b c : ReadBuf} (hpre : c.rest <+: b.rest) {n : Nat}
    (hlen : n < c.remaining) : (c.adj n).peekI8 = (b.adj n).peekI8 :=
  peekI8_of_shorter (hpre.drop n) (by rw [adj_remaining]; omega)

theorem readI32_adj_of_shorter {b c : ReadBuf} (hpre : c.rest <+: b.rest) {n : Nat}
    (hlen : n + 4 <= c.remaining) :
    (c.adj n).readI32.1 = (b.adj n).readI32.1 := by
  refine i32At_of_shorter (hpre.drop n) ?_
  rw [adj_rest, List.length_drop]
  unfold remaining at hlen
  omega

/-- `b'.Ahead b`: the buffer `b'` has been read as far as `b` or farther. -/
def Ahead (b' b : ReadBuf) : Prop :=
  b'.remaining <= b.remaining ∧ b.off <= b'.off

@[simp] theorem Ahead.refl (b : ReadBuf) : b.Ahead b :=
  ⟨Nat.le_refl _, Nat.le_refl _⟩

theorem Ahead.trans {a b c : ReadBuf} (hab : a.Ahead b) (hbc : b.Ahead c) :
    a.Ahead c :=
  ⟨Nat.le_trans hab.left hbc.left, Nat.le_trans hbc.right hab.right⟩

@[simp] theorem ahead_ffwd (a b : ReadBuf) (n : Nat) :
    (a.ffwd n).Ahead b <-> a.Ahead b := Iff.rfl

@[simp] theorem ahead_of_ffwd (a b : ReadBuf) (n : Nat) :
    a.Ahead (b.ffwd n) <-> a.Ahead b := Iff.rfl

theorem skipHdr_off (b : ReadBuf) (n : Nat) : (b.skipHdr n).off = b.off := by
  unfold skipHdr
  split <;> rfl

@[simp] theorem ahead_skipHdr (a b : ReadBuf) (n : Nat) :
    (a.skipHdr n).Ahead b <-> a.Ahead b := by
  rw [Ahead, skipHdr_remaining, skipHdr_off, Ahead]

@[simp] theorem ahead_of_skipHdr (a b : ReadBuf) (n : Nat) :
    a.Ahead (b.skipHdr n) <-> a.Ahead b := by
  rw [Ahead, skipHdr_remaining, skipHdr_off, Ahead]

@[simp] theorem ahead_adj {a b : ReadBuf} (h : a.Ahead b) (n : Nat) :
    (a.adj n).Ahead b := by
  refine ⟨?_, Nat.le_trans h.right (Nat.le_add_right _ _)⟩
  rw [adj_remaining]
  exact Nat.le_trans (Nat.sub_le _ _) h.left

/--
The buffer after an object that held `k` bytes has taken `j` more: the
cursor first passes over what was held, unless it was active already.
-/
def advance (b : ReadBuf) (k j : Nat) : ReadBuf :=
  { rest := b.rest.drop j
    off := b.off + j
    csr := (if b.csr < 0 then b.csr + k else b.csr) + j }

@[simp] theorem advance_rest (b : ReadBuf) (k j : Nat) :
    (b.advance k j).rest = b.rest.drop j := rfl

@[simp] theorem advance_off (b : ReadBuf) (k j : Nat) :
    (b.advance k j).off = b.off + j := rfl

theorem advance_of_nonneg {b : ReadBuf} (h : 0 <= b.csr) (k j : Nat) :
    b.advance k j = b.adj j := by
  simp [advance, adj, Int.not_lt.mpr h]

theorem advance_of_neg {b : ReadBuf} (h : b.csr < 0) (k j : Nat) :
    b.advance k j = (b.ffwd k).adj j := by
  simp [advance, adj, ffwd, h]

/--
`b.At k m new`: the object under the cursor holds `k` bytes, objects
behind it hold `m` more.  Either the cursor stands before all of them, or
the object has just been allocated with its `new` header bytes and the
cursor is active.
-/
def At (b : ReadBuf) (k m new : Nat) : Prop :=
  b.csr = -((k : Int) + m) ∨ (0 <= b.csr ∧ k = new ∧ m = 0)

theorem at_skipHdr {b : ReadBuf} {k m new : Nat} (h : b.At (new + k) m new)
    (hnew : 0 < new) :
    (b.skipHdr new).At k m 0 := by
  rcases h with hneg | ⟨hpos, hk, hm⟩
  · left
    rw [skipHdr_of_neg (by omega), ffwd_csr]
    push_cast at hneg
    omega
  · right
    rw [skipHdr_of_nonneg hpos]
    exact ⟨hpos, by omega, hm⟩

theorem skipHdr_advance {b : ReadBuf} {k m new : Nat} (h : b.At (new + k) m new)
    (hnew : 0 < new) (j : Nat) :
    (b.skipHdr new).advance k j = b.advance (new + k) j := by
  rcases h with hneg | ⟨hpos, hk, hm⟩
  · have hlt : b.csr < 0 := by omega
    rw [skipHdr_of_neg hlt, advance_of_neg hlt]
    push_cast at hneg
    by_cases hcsr : (b.ffwd new).csr < 0
    · rw [advance_of_neg hcsr]
      simp only [adj, ffwd, ReadBuf.mk.injEq, true_and]
      push_cast
      omega
    · have hk : k = 0 := by
        rw [ffwd_csr] at hcsr
        omega
      rw [advance_of_nonneg (by omega), hk, Nat.add_zero]
  · rw [skipHdr_of_nonneg hpos, advance_of_nonneg hpos, advance_of_nonneg hpos]

/-!
## Symbols
-/

theorem leadingTexts_prefix (n : Nat) : forall bs : List UInt8,
    KVal.symsBytes (leadingTexts n bs) <+: bs := by
  induction n with
  | zero =>
      intro bs
      exact List.nil_prefix
  | succ n ih =>
      intro bs
      by_cases hterm : bs.length = strnlen bs bs.length
      · have hfree : NulFree bs := by
          intro hmem
          have hlt := strnlen_lt_iff.mpr hmem
          omega
        rw [leadingTexts_of_nulFree hfree]
        exact List.nil_prefix
      · rcases exists_nulText hterm with ⟨t, _, hbytes⟩
        have hsplit := List.take_append_drop (strnlen bs bs.length + 1) bs
        rw [hbytes] at hsplit
        rw [leadingTexts_succ n hbytes, KVal.symsBytes_cons]
        conv => rhs; rw [← hsplit]
        exact (List.prefix_append_right_inj t.bytes).mpr (ih _)

theorem readSymsLoop_eq (k : Nat) :
    forall (locs : List LocInfo) (data : List UInt8) (b : ReadBuf),
      b.readSymsLoop k locs data =
        (if (leadingTexts k b.rest).length = k then .ok else .incomplete,
          (locs ++ locsFrom data.length (leadingTexts k b.rest),
            data ++ KVal.symsBytes (leadingTexts k b.rest)),
          b.adj (KVal.symsBytes (leadingTexts k b.rest)).length) := by
  induction k with
  | zero =>
      intro locs data b
      simp [readSymsLoop, leadingTexts, locsFrom, adj_zero]
  | succ k ih =>
      intro locs data b
      rw [readSymsLoop]
      by_cases hterm : b.remaining = strnlen b.rest b.remaining
      · have hnone : leadingTexts (k + 1) b.rest = [] := by
          apply leadingTexts_of_nulFree
          unfold remaining at hterm
          intro hmem
          have hlt := strnlen_lt_iff.mpr hmem
          omega
        rw [if_pos hterm, hnone]
        simp [locsFrom, adj_zero]
      · rcases exists_nulText hterm with ⟨t, htext, hbytes⟩
        have htexts : leadingTexts (k + 1) b.rest =
            t :: leadingTexts k (b.rest.drop (strnlen b.rest b.remaining + 1)) :=
          leadingTexts_succ k hbytes
        have hone : t.text.length + 1 = strnlen b.rest b.remaining + 1 := by
          have hle := strnlen_le_length b.rest b.remaining
          rw [← htext, List.length_take]
          exact congrArg (· + 1) (Nat.min_eq_left hle)
        have htake : b.rest.take (strnlen b.rest b.remaining + 1) = t.bytes := hbytes
        rw [if_neg hterm, ih, htake, adj_rest, adj_adj, htexts]
        generalize leadingTexts k (b.rest.drop (strnlen b.rest b.remaining + 1)) = more
        rw [locsFrom, KVal.symsBytes_cons, List.length_append, List.length_append, t.bytes_length,
          hone, List.append_assoc, List.append_assoc, List.singleton_append, List.length_cons]
        by_cases hall : more.length = k
        · rw [if_pos hall, if_pos (congrArg Nat.succ hall)]
        · rw [if_neg hall, if_neg fun h => hall (Nat.succ.inj h)]

end ReadBuf

end MgKdb
