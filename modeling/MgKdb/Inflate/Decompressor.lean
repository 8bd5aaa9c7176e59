import Mathlib.Data.Nat.Bitwise
import MgKdb.Reader.Buf

/-!
# The decompressor

The inflated message is produced in blocks of eight items, each a plain byte or a
back-reference: a hash that names two bytes seen before, and the length of the
run that followed them.  Every memory access is checked here; a failed check is
a fault, where the code goes on with whatever it finds.
-/

namespace MgKdb

inductive Fault where
  /-- An input byte beyond the presented buffer. -/
  | readInput
  /-- A store to `m_dst` at `m_msg_len` or beyond. -/
  | writeDst
  /-- A load from `m_dst` where nothing was stored. -/
  | readDst
  /-- A load of an `m_lbh` entry that was never set. -/
  | readLbh
  deriving DecidableEq, Repr

/--
`dst` holds the bytes stored in `m_dst`, which has room for
`msgLen`; outside the copy of a run `m_off` is their number.
-/
structure KdbIpcDecompressor where
  ipcLen : Nat
  msgLen : Nat
  idx : Nat
  rdx : Nat
  chx : Nat
  bit : Nat
  lbh : UInt8 -> Option Nat
  dst : List UInt8

namespace KdbIpcDecompressor

def new (ipc_len msg_len : Nat) : KdbIpcDecompressor where
  ipcLen := u64 (ipc_len - 8 - 4)
  msgLen := u64 (msg_len - 8)
  idx := 0
  rdx := 0
  chx := 0
  bit := 0
  lbh := fun _ => none
  dst := []

def off (s : KdbIpcDecompressor) : Nat :=
  s.dst.length

def popcount (set : Nat) : Nat :=
  (List.range 8).countP (fun i => set.testBit i)

def blockReadSz (s : KdbIpcDecompressor) (b : ReadBuf) : Nat :=
  if b.remaining = 0 then 2 ^ 64 - 1
  else
    let count := popcount b.peekI8.toNat
    1 + count * 2 +
      min (8 - count) (u64 ((s.ipcLen : Int) - s.rdx - count * 2 - 1))

/-! The checked accesses. -/

def readByte (s : KdbIpcDecompressor) (b : ReadBuf) :
    Except Fault (UInt8 × KdbIpcDecompressor × ReadBuf) :=
  if 0 < b.remaining then
    .ok (b.peekI8, { s with rdx := s.rdx + 1 }, b.adj 1)
  else .error .readInput

def load (s : KdbIpcDecompressor) (i : Nat) : Except Fault UInt8 :=
  match s.dst[i]? with
  | some x => .ok x
  | none => .error .readDst

def store (s : KdbIpcDecompressor) (x : UInt8) : Except Fault KdbIpcDecompressor :=
  if s.off < s.msgLen then .ok { s with dst := s.dst ++ [x] }
  else .error .writeDst

def lookup (s : KdbIpcDecompressor) (h : UInt8) : Except Fault Nat :=
  match s.lbh h with
  | some old => .ok old
  | none => .error .readLbh

/-- Copy `n` bytes from position `old` to the end. -/
def copy : Nat -> Nat -> KdbIpcDecompressor -> Except Fault KdbIpcDecompressor
  | 0, _, s => .ok s
  | n + 1, old, s => do
      let x <- s.load old
      let s1 <- s.store x
      copy n (old + 1) s1

/-- `m_lbh[lhs ^ rhs] = m_chx++`, the given number of times. -/
def index : Nat -> KdbIpcDecompressor -> Except Fault KdbIpcDecompressor
  | 0, s => .ok s
  | n + 1, s => do
      let lhs <- s.load s.chx
      let rhs <- s.load (s.chx + 1)
      index n { s with
        lbh := fun h => if h = lhs ^^^ rhs then some (s.chx % 2 ^ 32) else s.lbh h
        chx := s.chx + 1 }

def nextBit (s : KdbIpcDecompressor) : KdbIpcDecompressor :=
  { s with idx := if s.idx * 2 = 256 then 0 else s.idx * 2 }

def plain (s : KdbIpcDecompressor) (b : ReadBuf) :
    Except Fault (KdbIpcDecompressor × ReadBuf) := do
  let byte <- s.readByte b
  let s1 <- byte.2.1.store byte.1
  let s2 <- index (s1.off - 1 - s1.chx) s1
  .ok (s2.nextBit, byte.2.2)

/--
The branch for a set bit.  The loop that extends `m_lbh` still uses the
`m_off` from before the run was copied.
-/
def backRef (s : KdbIpcDecompressor) (b : ReadBuf) :
    Except Fault (KdbIpcDecompressor × ReadBuf) := do
  let hash <- s.readByte b
  let old <- hash.2.1.lookup hash.1
  let s1 <- copy 2 old hash.2.1
  let rdn <- s1.readByte hash.2.2
  let s2 <- copy rdn.1.toNat (old + 2) rdn.2.1
  let s3 <- index (s1.off - 1 - s2.chx) s2
  .ok ({ s3 with chx := s3.off }.nextBit, rdn.2.2)

def item (s : KdbIpcDecompressor) (b : ReadBuf) :
    Except Fault (KdbIpcDecompressor × ReadBuf) :=
  if s.bit &&& s.idx ≠ 0 then s.backRef b else s.plain b

/-- The head of the loop body; `none` is the `break`. -/
def nextBlock (s : KdbIpcDecompressor) (b : ReadBuf) :
    Option (KdbIpcDecompressor × ReadBuf) :=
  if s.idx = 0 then
    if b.remaining < s.blockReadSz b then none
    else some ({ s with bit := b.peekI8.toNat, rdx := s.rdx + 1, idx := 1 }, b.adj 1)
  else some (s, b)

def loop : Nat -> KdbIpcDecompressor -> ReadBuf ->
    Except Fault (KdbIpcDecompressor × ReadBuf)
  | 0, s, b => .ok (s, b)
  | n + 1, s, b =>
      if s.off < s.msgLen then
        match s.nextBlock b with
        | none => .ok (s, b)
        | some blk => do
            let next <- blk.1.item blk.2
            loop n next.1 next.2
      else .ok (s, b)

/-- Every iteration stores a byte or more, so the loop has run out by then. -/
def uncompress (s : KdbIpcDecompressor) (b : ReadBuf) :
    Except Fault (KdbIpcDecompressor × ReadBuf) :=
  loop (s.msgLen - s.off) s b

def isComplete (s : KdbIpcDecompressor) : Bool :=
  s.off == s.msgLen

def getUsedInputCount (s : KdbIpcDecompressor) : Nat :=
  s.rdx

def getReadBuf (s : KdbIpcDecompressor) (csr : Int) : ReadBuf :=
  ReadBuf.new s.dst csr

/-!
## What the checked accesses do
-/

theorem ok_bind_iff {ε α β : Type} {x : Except ε α} {f : α -> Except ε β} {r : β} :
    x >>= f = .ok r <-> exists a, x = .ok a ∧ f a = .ok r := by
  cases x with
  | error e => simp [bind, Except.bind]
  | ok a => simp [bind, Except.bind]

theorem readByte_eq_ok {s s' : KdbIpcDecompressor} {b b' : ReadBuf} {x : UInt8} :
    s.readByte b = .ok (x, s', b') <->
      0 < b.remaining ∧ x = b.peekI8 ∧ s' = { s with rdx := s.rdx + 1 } ∧
        b' = b.adj 1 := by
  unfold readByte
  by_cases h : 0 < b.remaining
  · simp [h, eq_comm]
  · simp [h]

theorem load_eq_ok {s : KdbIpcDecompressor} {i : Nat} {x : UInt8} :
    s.load i = .ok x <-> s.dst[i]? = some x := by
  unfold load
  cases s.dst[i]? <;> simp

theorem store_eq_ok {s s' : KdbIpcDecompressor} {x : UInt8} :
    s.store x = .ok s' <->
      s.off < s.msgLen ∧ s' = { s with dst := s.dst ++ [x] } := by
  unfold store
  by_cases h : s.off < s.msgLen
  · simp [h, eq_comm]
  · simp [h]

theorem lookup_eq_ok {s : KdbIpcDecompressor} {h : UInt8} {old : Nat} :
    s.lookup h = .ok old <-> s.lbh h = some old := by
  unfold lookup
  cases s.lbh h <;> simp

theorem copy_frame {n : Nat} :
    forall {old : Nat} {s s' : KdbIpcDecompressor}, copy n old s = .ok s' ->
      exists xs, xs.length = n ∧ s' = { s with dst := s.dst ++ xs } := by
  induction n with
  | zero =>
      intro old s s' h
      cases h
      exact ⟨[], rfl, by rw [List.append_nil]⟩
  | succ n ih =>
      intro old s s' h
      rcases ok_bind_iff.mp h with ⟨x, _hload, hrest⟩
      rcases ok_bind_iff.mp hrest with ⟨s1, hstore, hcopy⟩
      rcases store_eq_ok.mp hstore with ⟨_hroom, rfl⟩
      rcases ih hcopy with ⟨xs, hlen, rfl⟩
      exact ⟨x :: xs, by rw [List.length_cons, hlen], by simp⟩

theorem index_frame {n : Nat} :
    forall {s s' : KdbIpcDecompressor}, index n s = .ok s' ->
      exists lbh, s' = { s with lbh := lbh, chx := s.chx + n } := by
  induction n with
  | zero =>
      intro s s' h
      cases h
      exact ⟨s.lbh, rfl⟩
  | succ n ih =>
      intro s s' h
      rcases ok_bind_iff.mp h with ⟨lhs, _hlhs, hrest⟩
      rcases ok_bind_iff.mp hrest with ⟨rhs, _hrhs, hindex⟩
      rcases ih hindex with ⟨lbh, rfl⟩
      refine ⟨lbh, ?_⟩
      simp only [KdbIpcDecompressor.mk.injEq, true_and, and_true]
      omega

end KdbIpcDecompressor

end MgKdb
