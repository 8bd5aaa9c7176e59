import MgKdb.Inflate.Safety
import MgKdb.Inflate.Stream

/-!
# The decompressor without checks

The code checks none of its accesses.  Here an entry of `m_lbh` that was never set, a
byte of `m_dst` that was never stored and a byte behind the input are what memory holds
there.  Only an access outside of `m_dst` has no result.
-/

namespace MgKdb
namespace KdbIpcDecompressor

open Foundation

/-- What memory holds where nothing was stored. -/
structure Memory where
  lbh : UInt8 -> UInt32
  dst : Nat -> UInt8

structure RawBuf where
  src : Nat -> UInt8
  len : Nat
  off : Nat

namespace RawBuf

def remaining (b : RawBuf) : Nat :=
  u64 ((b.len : Int) - b.off)

def peekI8 (b : RawBuf) : UInt8 :=
  b.src b.off

def adj (b : RawBuf) (n : Nat) : RawBuf :=
  { b with off := b.off + n }

end RawBuf

namespace Raw

def blockReadSz (s : KdbIpcDecompressor) (b : RawBuf) : Nat :=
  if b.remaining = 0 then 2 ^ 64 - 1
  else
    let count := popcount b.peekI8.toNat
    1 + count * 2 +
      min (8 - count) (u64 ((s.ipcLen : Int) - s.rdx - count * 2 - 1))

def readByte (s : KdbIpcDecompressor) (b : RawBuf) : UInt8 × KdbIpcDecompressor × RawBuf :=
  (b.peekI8, { s with rdx := s.rdx + 1 }, b.adj 1)

def load (mem : Memory) (s : KdbIpcDecompressor) (i : Nat) : Option UInt8 :=
  if i < s.msgLen then some (s.dst.getD i (mem.dst i)) else none

def store (s : KdbIpcDecompressor) (x : UInt8) : Option KdbIpcDecompressor :=
  if s.off < s.msgLen then some { s with dst := s.dst ++ [x] } else none

def lookup (mem : Memory) (s : KdbIpcDecompressor) (h : UInt8) : Nat :=
  (s.lbh h).getD (mem.lbh h).toNat

def copy (mem : Memory) : Nat -> Nat -> KdbIpcDecompressor -> Option KdbIpcDecompressor
  | 0, _, s => some s
  | n + 1, old, s => do
      let x <- load mem s old
      let s1 <- store s x
      copy mem n ((old + 1) % 2 ^ 32) s1

def index (mem : Memory) : Nat -> KdbIpcDecompressor -> Option KdbIpcDecompressor
  | 0, s => some s
  | n + 1, s => do
      let lhs <- load mem s s.chx
      let rhs <- load mem s (s.chx + 1)
      index mem n { s with
        lbh := fun h => if h = lhs ^^^ rhs then some (s.chx % 2 ^ 32) else s.lbh h
        chx := s.chx + 1 }

def plain (mem : Memory) (s : KdbIpcDecompressor) (b : RawBuf) :
    Option (KdbIpcDecompressor × RawBuf) := do
  let byte := readByte s b
  let s1 <- store byte.2.1 byte.1
  let s2 <- index mem (s1.off - 1 - s1.chx) s1
  some (s2.nextBit, byte.2.2)

def backRef (mem : Memory) (s : KdbIpcDecompressor) (b : RawBuf) :
    Option (KdbIpcDecompressor × RawBuf) := do
  let hash := readByte s b
  let old := lookup mem hash.2.1 hash.1
  let s1 <- copy mem 2 old hash.2.1
  let rdn := readByte s1 hash.2.2
  let s2 <- copy mem rdn.1.toNat ((old + 2) % 2 ^ 32) rdn.2.1
  let s3 <- index mem (s1.off - 1 - s2.chx) s2
  some ({ s3 with chx := s3.off }.nextBit, rdn.2.2)

def item (mem : Memory) (s : KdbIpcDecompressor) (b : RawBuf) :
    Option (KdbIpcDecompressor × RawBuf) :=
  if s.bit &&& s.idx ≠ 0 then backRef mem s b else plain mem s b

def nextBlock (s : KdbIpcDecompressor) (b : RawBuf) : Option (KdbIpcDecompressor × RawBuf) :=
  if s.idx = 0 then
    if b.remaining < blockReadSz s b then none
    else some ({ s with bit := b.peekI8.toNat, rdx := s.rdx + 1, idx := 1 }, b.adj 1)
  else some (s, b)

def loop (mem : Memory) : Nat -> KdbIpcDecompressor -> RawBuf ->
    Option (KdbIpcDecompressor × RawBuf)
  | 0, s, b => some (s, b)
  | n + 1, s, b =>
      if s.off < s.msgLen then
        match nextBlock s b with
        | none => some (s, b)
        | some blk => do
            let next <- item mem blk.1 blk.2
            loop mem n next.1 next.2
      else some (s, b)

def uncompress (mem : Memory) (s : KdbIpcDecompressor) (b : RawBuf) :
    Option (KdbIpcDecompressor × RawBuf) :=
  loop mem (s.msgLen - s.off) s b

end Raw

/-!
## Steps
-/

structure Step where
  before : KdbIpcDecompressor
  input : RawBuf
  after : KdbIpcDecompressor

namespace Raw

def steps (mem : Memory) : Nat -> KdbIpcDecompressor -> RawBuf -> List Step
  | 0, _, _ => []
  | n + 1, s, b =>
      if s.off < s.msgLen then
        match nextBlock s b with
        | none => []
        | some blk =>
            match item mem blk.1 blk.2 with
            | none => []
            | some next => ⟨blk.1, blk.2, next.1⟩ :: steps mem n next.1 next.2
      else []

def runSteps (mem : Memory) : KdbIpcDecompressor -> List RawBuf -> List Step
  | _, [] => []
  | s, b :: rest =>
      steps mem (s.msgLen - s.off) s b ++
        match uncompress mem s b with
        | none => []
        | some out => runSteps mem out.1 rest

end Raw

/-- Each entry that is set is the position of two stored bytes with its hash. -/
structure TableSound (s : KdbIpcDecompressor) : Prop where
  known : forall {h : UInt8} {p : Nat}, s.lbh h = some p ->
    p + 1 < s.off ∧ pairHash s.dst p = some h
  chx_le : s.chx <= s.off

/--
The item copies the byte at `p` and the `n` bytes behind it, one by one, each of
which was stored by then; loads that are checked for that have the same result.
-/
structure CopiesStored (st : Step) (p n : Nat) : Prop where
  checked : exists s1 s2, copy 2 p { st.before with rdx := st.before.rdx + 1 } = .ok s1 ∧
    copy n (p + 2) { s1 with rdx := s1.rdx + 1 } = .ok s2 ∧ st.after.dst = s2.dst
  bytes : forall m, m < 2 + n -> p + m < st.before.off + m ∧
    st.after.dst[st.before.off + m]? = st.after.dst[p + m]?

/-!
## Accesses
-/

section Accesses

variable {mem : Memory} {s s' : KdbIpcDecompressor}

theorem raw_load_of_load {i : Nat} {x : UInt8} (hsize : s.off <= s.msgLen)
    (h : s.load i = .ok x) : Raw.load mem s i = some x := by
  have hget := load_eq_ok.mp h
  have hlt : i < s.off := (List.getElem?_eq_some_iff.mp hget).choose
  rw [Raw.load, if_pos (Nat.lt_of_lt_of_le hlt hsize), List.getD_eq_getElem?_getD, hget]
  rfl

theorem raw_store_eq_some {x : UInt8} :
    Raw.store s x = some s' <-> s.off < s.msgLen ∧ s' = { s with dst := s.dst ++ [x] } := by
  unfold Raw.store
  by_cases h : s.off < s.msgLen
  · rw [if_pos h, Option.some.injEq]
    exact ⟨fun heq => ⟨h, heq.symm⟩, fun heq => heq.right.symm⟩
  · rw [if_neg h]
    exact ⟨fun heq => (by cases heq), fun heq => absurd heq.left h⟩

theorem raw_copy_frame {n : Nat} :
    forall {old : Nat} {s s' : KdbIpcDecompressor}, s.off <= s.msgLen ->
      Raw.copy mem n old s = some s' ->
        exists xs, xs.length = n ∧ s' = { s with dst := s.dst ++ xs } ∧
          s.off + n <= s.msgLen := by
  induction n with
  | zero =>
      intro old s s' hsize h
      cases h
      exact ⟨[], rfl, by rw [List.append_nil], hsize⟩
  | succ n ih =>
      intro old s s' hsize h
      rcases Option.bind_eq_some_iff.mp h with ⟨x, _hload, hrest⟩
      rcases Option.bind_eq_some_iff.mp hrest with ⟨s1, hstore, hcopy⟩
      rcases raw_store_eq_some.mp hstore with ⟨hroom, rfl⟩
      have hlen : (s.dst ++ [x]).length = s.off + 1 := List.length_append
      have hsize1 : (s.dst ++ [x]).length <= s.msgLen := by omega
      rcases ih (s := { s with dst := s.dst ++ [x] }) hsize1 hcopy with ⟨xs, hxs, rfl, hroom1⟩
      refine ⟨x :: xs, by rw [List.length_cons, hxs], ?_, ?_⟩
      · rw [List.append_assoc, List.singleton_append]
      · change (s.dst ++ [x]).length + n <= s.msgLen at hroom1
        omega

theorem raw_copy_of_copy (mem : Memory) {n : Nat} :
    forall {old : Nat} {s s' : KdbIpcDecompressor}, s.off <= s.msgLen ->
      s.msgLen <= 2 ^ 32 -> copy n old s = .ok s' ->
        Raw.copy mem n (old % 2 ^ 32) s = some s' := by
  induction n with
  | zero =>
      intro old s s' _hsize _hsmall h
      cases h
      rfl
  | succ n ih =>
      intro old s s' hsize hsmall h
      rcases ok_bind_iff.mp h with ⟨x, hload, hrest⟩
      rcases ok_bind_iff.mp hrest with ⟨s1, hstore, hcopy⟩
      rcases store_eq_ok.mp hstore with ⟨hroom, rfl⟩
      have hlt : old < s.off := (List.getElem?_eq_some_iff.mp (load_eq_ok.mp hload)).choose
      have hmod : old % 2 ^ 32 = old := Nat.mod_eq_of_lt (by omega)
      have hlen : (s.dst ++ [x]).length = s.off + 1 := List.length_append
      have hsize1 : (s.dst ++ [x]).length <= s.msgLen := by omega
      rw [hmod]
      exact Option.bind_eq_some_iff.mpr ⟨x, raw_load_of_load hsize hload,
        Option.bind_eq_some_iff.mpr ⟨_, raw_store_eq_some.mpr ⟨hroom, rfl⟩,
          ih (s := { s with dst := s.dst ++ [x] }) hsize1 hsmall hcopy⟩⟩

theorem raw_index_of_index (mem : Memory) {n : Nat} :
    forall {s s' : KdbIpcDecompressor}, s.off <= s.msgLen -> index n s = .ok s' ->
      Raw.index mem n s = some s' := by
  induction n with
  | zero =>
      intro s s' _hsize h
      cases h
      rfl
  | succ n ih =>
      intro s s' hsize h
      rcases ok_bind_iff.mp h with ⟨lhs, hlhs, hrest⟩
      rcases ok_bind_iff.mp hrest with ⟨rhs, hrhs, hindex⟩
      exact Option.bind_eq_some_iff.mpr ⟨lhs, raw_load_of_load hsize hlhs,
        Option.bind_eq_some_iff.mpr ⟨rhs, raw_load_of_load hsize hrhs, ih hsize hindex⟩⟩

theorem raw_index_dst {n : Nat} :
    forall {s s' : KdbIpcDecompressor}, Raw.index mem n s = some s' -> s'.dst = s.dst := by
  induction n with
  | zero =>
      intro s s' h
      cases h
      rfl
  | succ n ih =>
      intro s s' h
      rcases Option.bind_eq_some_iff.mp h with ⟨lhs, _hlhs, hrest⟩
      rcases Option.bind_eq_some_iff.mp hrest with ⟨rhs, _hrhs, hindex⟩
      have hdst := ih hindex
      exact hdst

theorem raw_index_enters {n : Nat} (hsize : s.off <= s.msgLen) (hsmall : s.msgLen <= 2 ^ 32)
    (hroom : 0 < n -> s.chx + n < s.off) (h : Raw.index mem n s = some s') :
    exists lbh, s' = { s with lbh := lbh, chx := s.chx + n } ∧ Enters s n lbh := by
  rcases index_enters (Nat.le_trans hsize hsmall) hroom with ⟨lbh, hindex, henters⟩
  rw [raw_index_of_index mem hsize hindex] at h
  exact ⟨lbh, (Option.some.inj h).symm, henters⟩

theorem copy_bytes {n : Nat} :
    forall {old : Nat} {s s' : KdbIpcDecompressor}, old < s.off -> copy n old s = .ok s' ->
      forall m, m < n -> s'.dst[s.off + m]? = s'.dst[old + m]? := by
  induction n with
  | zero =>
      intro old s s' _hold _h m hm
      cases hm
  | succ n ih =>
      intro old s s' hold h m hm
      rcases ok_bind_iff.mp h with ⟨x, hload, hrest⟩
      rcases ok_bind_iff.mp hrest with ⟨s1, hstore, hcopy⟩
      rcases store_eq_ok.mp hstore with ⟨_, rfl⟩
      have hlen : (s.dst ++ [x]).length = s.off + 1 := List.length_append
      cases m with
      | zero =>
          rcases copy_frame hcopy with ⟨ys, _, rfl⟩
          show (s.dst ++ [x] ++ ys)[s.off]? = (s.dst ++ [x] ++ ys)[old]?
          rw [List.append_assoc, List.getElem?_append_left hold, load_eq_ok.mp hload, off,
            List.getElem?_append_right (Nat.le_refl _), Nat.sub_self]
          rfl
      | succ m =>
          have hold1 : old + 1 < (s.dst ++ [x]).length := by omega
          have hmore := ih (s := { s with dst := s.dst ++ [x] }) hold1 hcopy m
            (Nat.lt_of_succ_lt_succ hm)
          change s'.dst[(s.dst ++ [x]).length + m]? = s'.dst[old + 1 + m]? at hmore
          rw [hlen] at hmore
          rwa [Nat.add_right_comm, Nat.add_right_comm old] at hmore

end Accesses

/-!
## The invariant
-/

/-- What a call keeps, with the bounds on the message that its header guarantees. -/
structure Lasting (s : KdbIpcDecompressor) : Prop where
  table : TableSound s
  size : s.off <= s.msgLen
  small : s.msgLen <= 2 ^ 32

structure StepSound (st : Step) : Prop where
  table : TableSound st.after
  copies : forall {p : Nat}, st.before.bit &&& st.before.idx ≠ 0 ->
    st.before.lbh st.input.peekI8 = some p ->
      CopiesStored st p (st.input.adj 1).peekI8.toNat

theorem Lasting.of_history {starts : List Nat} {s : KdbIpcDecompressor}
    (hist : History starts s) : Lasting s where
  table :=
    { known := fun hold =>
        ⟨pairHash_lt (hist.known hold).right, (hist.known hold).right⟩
      chx_le := by
        rcases hist.trailing with hend | ⟨hend, _⟩ <;> omega }
  size := hist.size
  small := hist.small

theorem TableSound.extend {mem : Memory} {s t u : KdbIpcDecompressor} {n : Nat}
    {xs : List UInt8} (hsound : TableSound s) (hlbh : t.lbh = s.lbh) (hchx : t.chx = s.chx)
    (hdst : t.dst = s.dst ++ xs) (hsize : t.off <= t.msgLen) (hsmall : t.msgLen <= 2 ^ 32)
    (hroom : 0 < n -> t.chx + n < t.off) (h : Raw.index mem n t = some u) :
    TableSound u ∧ u.dst = t.dst ∧ u.msgLen = t.msgLen := by
  rcases raw_index_enters hsize hsmall hroom h with ⟨lbh, rfl, henters⟩
  refine ⟨⟨?_, ?_⟩, rfl, rfl⟩
  · intro h p hold
    have hpair : pairHash t.dst p = some h := by
      rcases henters.known hold with hbefore | ⟨_, _, hnew⟩
      · rw [hlbh] at hbefore
        exact hdst ▸ pairHash_append (hsound.known hbefore).right
      · exact hnew
    exact ⟨pairHash_lt hpair, hpair⟩
  · change t.chx + n <= t.off
    have hle := hsound.chx_le
    have hlen : t.off = s.off + xs.length := by rw [off, hdst, List.length_append, off]
    omega

section Items

variable {mem : Memory} {s s' : KdbIpcDecompressor} {b b' : RawBuf}

theorem plain_lasting (hs : Lasting s) (h : Raw.plain mem s b = some (s', b')) :
    Lasting s' := by
  rcases Option.bind_eq_some_iff.mp h with ⟨s1, hstore, hrest⟩
  rcases Option.bind_eq_some_iff.mp hrest with ⟨s2, hindex, hout⟩
  cases hout
  rcases raw_store_eq_some.mp hstore with ⟨hroom, hs1⟩
  change s.off < s.msgLen at hroom
  have hdst : s1.dst = s.dst ++ [b.peekI8] := by rw [hs1]; rfl
  have hoff : s1.off = s.off + 1 := by rw [off, hdst, List.length_append]; rfl
  have hmsg : s1.msgLen = s.msgLen := by rw [hs1]; rfl
  have hchx : s1.chx = s.chx := by rw [hs1]; rfl
  have hle := hs.table.chx_le
  have hsize : s1.off <= s1.msgLen := by omega
  have hsmall : s1.msgLen <= 2 ^ 32 := hmsg.trans_le hs.small
  rcases hs.table.extend (by rw [hs1]; rfl) hchx hdst hsize hsmall (by omega) hindex with
    ⟨htable, hdst2, hmsg2⟩
  have hsize2 : s2.off <= s2.msgLen := by
    rw [off, hdst2, hmsg2]
    exact hsize
  exact ⟨⟨htable.known, htable.chx_le⟩, hsize2, hmsg2.trans_le hsmall⟩

/-- The two runs that a back-reference copies, and what is entered behind them. -/
structure Runs (mem : Memory) (s : KdbIpcDecompressor) (b : RawBuf)
    (s1 s2 s3 : KdbIpcDecompressor) : Prop where
  pair : Raw.copy mem 2 (Raw.lookup mem s b.peekI8) { s with rdx := s.rdx + 1 } = some s1
  run : Raw.copy mem (b.adj 1).peekI8.toNat ((Raw.lookup mem s b.peekI8 + 2) % 2 ^ 32)
    { s1 with rdx := s1.rdx + 1 } = some s2
  entries : Raw.index mem (s1.off - 1 - s2.chx) s2 = some s3

theorem raw_backRef_eq_some (h : Raw.backRef mem s b = some (s', b')) :
    exists s1 s2 s3, Runs mem s b s1 s2 s3 ∧
      s' = ({ s3 with chx := s3.off } : KdbIpcDecompressor).nextBit := by
  rcases Option.bind_eq_some_iff.mp h with ⟨s1, hpair, hrest⟩
  rcases Option.bind_eq_some_iff.mp hrest with ⟨s2, hrun, hrest⟩
  rcases Option.bind_eq_some_iff.mp hrest with ⟨s3, hindex, hout⟩
  cases hout
  exact ⟨s1, s2, s3, ⟨hpair, hrun, hindex⟩, rfl⟩

namespace Runs

variable {s1 s2 s3 : KdbIpcDecompressor}

theorem frame (h : Runs mem s b s1 s2 s3) (hsize : s.off <= s.msgLen) :
    exists xs ys, xs.length = 2 ∧ ys.length = (b.adj 1).peekI8.toNat ∧
      s1 = { s with rdx := s.rdx + 1, dst := s.dst ++ xs } ∧
      s2 = { s with rdx := s.rdx + 1 + 1, dst := s.dst ++ xs ++ ys } ∧
      s.off + 2 + (b.adj 1).peekI8.toNat <= s.msgLen := by
  have hsize0 : ({ s with rdx := s.rdx + 1 } : KdbIpcDecompressor).off <= s.msgLen := hsize
  rcases raw_copy_frame hsize0 h.pair with ⟨xs, hxs, hs1, hroom1⟩
  change s.off + 2 <= s.msgLen at hroom1
  have hrun := h.run
  rw [hs1] at hrun
  have hlen : (s.dst ++ xs).length = s.off + 2 := by rw [List.length_append, hxs, off]
  have hsize1 : ({ s with rdx := s.rdx + 1 + 1, dst := s.dst ++ xs } :
      KdbIpcDecompressor).off <= s.msgLen := hlen.trans_le hroom1
  rcases raw_copy_frame hsize1 hrun with ⟨ys, hys, hs2, hroom2⟩
  change (s.dst ++ xs).length + (b.adj 1).peekI8.toNat <= s.msgLen at hroom2
  exact ⟨xs, ys, hxs, hys, hs1, hs2, hlen ▸ hroom2⟩

theorem lasting (h : Runs mem s b s1 s2 s3) (hs : Lasting s) :
    Lasting ({ s3 with chx := s3.off } : KdbIpcDecompressor).nextBit := by
  rcases h.frame hs.size with ⟨xs, ys, hxs, hys, hs1, hs2, hroom⟩
  have hdst1 : s1.dst = s.dst ++ xs := by rw [hs1]
  have hoff1 : s1.off = s.off + 2 := by rw [off, hdst1, List.length_append, hxs, off]
  have hdst2 : s2.dst = s.dst ++ (xs ++ ys) := by rw [hs2, List.append_assoc]
  have hoff2 : s2.off = s.off + 2 + (b.adj 1).peekI8.toNat := by
    rw [off, hdst2, ← List.append_assoc, List.length_append, List.length_append, hxs, hys, off]
  have hmsg2 : s2.msgLen = s.msgLen := by rw [hs2]
  have hchx2 : s2.chx = s.chx := by rw [hs2]
  have hle := hs.table.chx_le
  have hsize2 : s2.off <= s2.msgLen := by omega
  have hsmall2 : s2.msgLen <= 2 ^ 32 := hmsg2.trans_le hs.small
  rcases hs.table.extend (by rw [hs2]) hchx2 hdst2 hsize2 hsmall2 (by omega) h.entries with
    ⟨htable, hdst3, hmsg3⟩
  have hsize3 : s3.off <= s3.msgLen := by
    rw [off, hdst3, hmsg3]
    exact hsize2
  exact ⟨⟨htable.known, Nat.le_refl _⟩, hsize3, hmsg3.trans_le hsmall2⟩

theorem checked (h : Runs mem s b s1 s2 s3) (hs : Lasting s) {p : Nat}
    (hold : s.lbh b.peekI8 = some p) :
    KdbIpcDecompressor.copy 2 p { s with rdx := s.rdx + 1 } = .ok s1 ∧
      KdbIpcDecompressor.copy (b.adj 1).peekI8.toNat (p + 2)
        { s1 with rdx := s1.rdx + 1 } = .ok s2 := by
  have hlookup : Raw.lookup mem s b.peekI8 = p := by
    rw [Raw.lookup, hold]
    rfl
  have hcopy1 := h.pair
  have hcopy2 := h.run
  rw [hlookup] at hcopy1 hcopy2
  rcases h.frame hs.size with ⟨xs, ys, hxs, _, hs1, _, hroom⟩
  have hlt := (hs.table.known hold).left
  have hsize := hs.size
  have hsmall := hs.small
  have hmod : p % 2 ^ 32 = p := Nat.mod_eq_of_lt (by omega)
  have hlen : (s.dst ++ xs).length = s.off + 2 := by rw [List.length_append, hxs, off]
  rw [hs1] at hcopy1 hcopy2 ⊢
  have hlt0 : p < ({ s with rdx := s.rdx + 1 } : KdbIpcDecompressor).off :=
    Nat.lt_of_succ_lt hlt
  have hroom0 : ({ s with rdx := s.rdx + 1 } : KdbIpcDecompressor).off + 2 <= s.msgLen :=
    Nat.le_of_add_right_le hroom
  rcases copy_eq_ok (n := 2) p hlt0 hroom0 with ⟨t1, hpair⟩
  have hsame1 := raw_copy_of_copy mem (s := { s with rdx := s.rdx + 1 }) hsize hsmall
    hpair
  rw [hmod, hcopy1, Option.some.injEq] at hsame1
  have hlt1 : p + 2 < ({ s with rdx := s.rdx + 1 + 1, dst := s.dst ++ xs } :
      KdbIpcDecompressor).off := by
    change p + 2 < (s.dst ++ xs).length
    omega
  have hroom1 : ({ s with rdx := s.rdx + 1 + 1, dst := s.dst ++ xs } :
      KdbIpcDecompressor).off + (b.adj 1).peekI8.toNat <= s.msgLen := by
    change (s.dst ++ xs).length + (b.adj 1).peekI8.toNat <= s.msgLen
    omega
  rcases copy_eq_ok (p + 2) hlt1 hroom1 with ⟨t2, hrun⟩
  have hsame2 := raw_copy_of_copy mem
    (s := { s with rdx := s.rdx + 1 + 1, dst := s.dst ++ xs })
    (Nat.le_of_add_right_le hroom1) hsmall hrun
  rw [hcopy2, Option.some.injEq] at hsame2
  exact ⟨hsame1 ▸ hpair, hsame2 ▸ hrun⟩

theorem bytes (h : Runs mem s b s1 s2 s3) (hs : Lasting s) {p : Nat}
    (hold : s.lbh b.peekI8 = some p) {m : Nat} (hm : m < 2 + (b.adj 1).peekI8.toNat) :
    s2.dst[s.off + m]? = s2.dst[p + m]? := by
  rcases h.checked hs hold with ⟨hpair, hrun⟩
  rcases h.frame hs.size with ⟨xs, ys, hxs, _, hs1, hs2, _⟩
  have hlt := (hs.table.known hold).left
  have hdst1 : s1.dst = s.dst ++ xs := by rw [hs1]
  have hoff1 : s1.off = s.off + 2 := by rw [off, hdst1, List.length_append, hxs, off]
  have hdst2 : s2.dst = s1.dst ++ ys := by rw [hs2, hdst1]
  by_cases hfirst : m < 2
  · have hlt0 : p < ({ s with rdx := s.rdx + 1 } : KdbIpcDecompressor).off :=
      Nat.lt_of_succ_lt hlt
    have hbytes := copy_bytes hlt0 hpair m hfirst
    change s1.dst[s.off + m]? = s1.dst[p + m]? at hbytes
    have hin : s.off + m < s1.dst.length := by
      change s.off + m < s1.off
      omega
    have hin' : p + m < s1.dst.length := by omega
    rw [hdst2, List.getElem?_append_left hin, List.getElem?_append_left hin', hbytes]
  · have hlt1 : p + 2 < ({ s1 with rdx := s1.rdx + 1 } : KdbIpcDecompressor).off := by
      change p + 2 < s1.off
      omega
    have hbytes := copy_bytes hlt1 hrun (m - 2) (by omega)
    change s2.dst[s1.off + (m - 2)]? = s2.dst[p + 2 + (m - 2)]? at hbytes
    have htarget : s1.off + (m - 2) = s.off + m := by omega
    have hsource : p + 2 + (m - 2) = p + m := by omega
    rwa [htarget, hsource] at hbytes

end Runs

theorem backRef_lasting (hs : Lasting s) (h : Raw.backRef mem s b = some (s', b')) :
    Lasting s' := by
  rcases raw_backRef_eq_some h with ⟨s1, s2, s3, hruns, rfl⟩
  exact hruns.lasting hs

theorem backRef_copies (hs : Lasting s) (h : Raw.backRef mem s b = some (s', b')) {p : Nat}
    (hold : s.lbh b.peekI8 = some p) :
    CopiesStored ⟨s, b, s'⟩ p (b.adj 1).peekI8.toNat := by
  rcases raw_backRef_eq_some h with ⟨s1, s2, s3, hruns, rfl⟩
  rcases hruns.checked hs hold with ⟨hpair, hrun⟩
  have hafter : s3.dst = s2.dst := raw_index_dst hruns.entries
  have hlt := (hs.table.known hold).left
  refine ⟨⟨s1, s2, hpair, hrun, hafter⟩,
    fun m hm => ⟨Nat.add_lt_add_right (Nat.lt_of_succ_lt hlt) m, ?_⟩⟩
  change s3.dst[s.off + m]? = s3.dst[p + m]?
  rw [hafter]
  exact hruns.bytes hs hold hm

theorem item_lasting (hs : Lasting s) (h : Raw.item mem s b = some (s', b')) :
    Lasting s' := by
  unfold Raw.item at h
  split at h
  · exact backRef_lasting hs h
  · exact plain_lasting hs h

theorem item_sound (hs : Lasting s) (h : Raw.item mem s b = some (s', b')) :
    StepSound ⟨s, b, s'⟩ where
  table := (item_lasting hs h).table
  copies := by
    intro p hbit hold
    rw [Raw.item, if_pos hbit] at h
    exact backRef_copies hs h hold

theorem nextBlock_lasting (hs : Lasting s) (h : Raw.nextBlock s b = some (s', b')) :
    Lasting s' := by
  unfold Raw.nextBlock at h
  split at h
  · split at h
    · cases h
    · cases h
      exact ⟨⟨hs.table.known, hs.table.chx_le⟩, hs.size, hs.small⟩
  · cases h
    exact hs

end Items

/-!
## All calls
-/

section Calls

variable {mem : Memory}

theorem loop_lasting (n : Nat) :
    forall {s s' : KdbIpcDecompressor} {b b' : RawBuf}, Lasting s ->
      Raw.loop mem n s b = some (s', b') -> Lasting s' := by
  induction n with
  | zero =>
      intro s s' b b' hs h
      cases h
      exact hs
  | succ n ih =>
      intro s s' b b' hs h
      unfold Raw.loop at h
      split at h
      · cases hblk : Raw.nextBlock s b with
        | none =>
            rw [hblk] at h
            cases h
            exact hs
        | some blk =>
            rw [hblk] at h
            rcases Option.bind_eq_some_iff.mp h with ⟨next, hitem, hrest⟩
            exact ih (item_lasting (nextBlock_lasting hs hblk) hitem) hrest
      · cases h
        exact hs

theorem steps_loop_sound (n : Nat) :
    forall {s : KdbIpcDecompressor} {b : RawBuf}, Lasting s ->
      forall st, st ∈ Raw.steps mem n s b -> StepSound st := by
  induction n with
  | zero =>
      intro s b _hs st hst
      cases hst
  | succ n ih =>
      intro s b hs st hst
      unfold Raw.steps at hst
      split at hst
      · cases hblk : Raw.nextBlock s b with
        | none =>
            rw [hblk] at hst
            cases hst
        | some blk =>
            have hs1 : Lasting blk.1 := nextBlock_lasting hs hblk
            rw [hblk] at hst
            cases hitem : Raw.item mem blk.1 blk.2 with
            | none =>
                simp only [hitem] at hst
                cases hst
            | some next =>
                simp only [hitem] at hst
                rcases List.mem_cons.mp hst with rfl | hmore
                · exact item_sound hs1 hitem
                · exact ih (item_lasting hs1 hitem) st hmore
      · cases hst

theorem runSteps_sound (calls : List RawBuf) :
    forall {s : KdbIpcDecompressor}, Lasting s ->
      forall st, st ∈ Raw.runSteps mem s calls -> StepSound st := by
  induction calls with
  | nil =>
      intro s _hs st hst
      cases hst
  | cons b rest ih =>
      intro s hs st hst
      unfold Raw.runSteps at hst
      rcases List.mem_append.mp hst with hcall | hmore
      · exact steps_loop_sound _ hs st hcall
      · cases hout : Raw.uncompress mem s b with
        | none =>
            rw [hout] at hmore
            cases hmore
        | some out =>
            rw [hout] at hmore
            exact ih (loop_lasting _ hs hout) st hmore

end Calls

/--
Whatever memory holds and whatever a message and its calls show, an iteration that leaves
`m_dst` alone keeps the table sound, and copies stored bytes through an entry that is
set.
-/
theorem uncompress_tableSound {canAlloc : Nat -> Bool} {hdr : List UInt8}
    {s : KdbIpcDecompressor} (haccepted : Accepted canAlloc hdr s) (mem : Memory)
    (calls : List RawBuf) :
    forall st, st ∈ Raw.runSteps mem s calls -> StepSound st :=
  runSteps_sound calls (Lasting.of_history haccepted.history.left)

/-- Two plain bytes and a back-reference to them. -/
theorem uncompress_tableSound_abab :
    exists st, st ∈ Raw.runSteps ⟨fun _ => 7, fun _ => 9⟩ (new 17 12)
        [⟨fun i => [4, 97, 98, 3, 0].getD i 0, 5, 0⟩] ∧
      st.before.lbh st.input.peekI8 = some 0 ∧ st.after.dst = [97, 98, 97, 98] ∧
        StepSound st := by
  have hthird : exists st,
      (Raw.runSteps ⟨fun _ => 7, fun _ => 9⟩ (new 17 12)
        [⟨fun i => [4, 97, 98, 3, 0].getD i 0, 5, 0⟩])[2]? = some st ∧
      st.before.lbh st.input.peekI8 = some 0 ∧ st.after.dst = [97, 98, 97, 98] :=
    ⟨_, rfl, rfl, rfl⟩
  rcases hthird with ⟨st, hget, hset, hdst⟩
  have hmem := List.mem_of_getElem? hget
  exact ⟨st, hmem, hset, hdst, uncompress_tableSound ababHdr_accepted _ _ st hmem⟩

end KdbIpcDecompressor
end MgKdb
