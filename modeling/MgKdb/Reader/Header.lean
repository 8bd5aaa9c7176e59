import MgKdb.Reader.Allocation
import MgKdb.Reader.Message

/-!
# What reading a header can do

The header's fields are looked up in the buffer, whether it holds them or not.
-/

namespace MgKdb

open Foundation

namespace ReadBuf

def hdrTyp (b : ReadBuf) : UInt8 :=
  (b.adj 1).peekI8

def hdrComp (b : ReadBuf) : UInt8 :=
  (b.adj 2).peekI8

def hdrIpcLen (b : ReadBuf) : Nat :=
  u64 (b.adj 4).readI32.1

def hdrMsgLen (b : ReadBuf) : Nat :=
  u64 (b.adj 8).readI32.1

/-- The inflated message is larger than any object, or than what the heap has left. -/
def Refused (canAlloc : Nat -> Bool) (b : ReadBuf) : Prop :=
  2 ^ 63 <= u64 ((b.hdrMsgLen : Int) - 8) ∨
    canAlloc (u64 ((b.hdrMsgLen : Int) - 8)) = false

end ReadBuf

namespace KdbIpcMessageReader

def behindPlain (r : KdbIpcMessageReader) (b : ReadBuf) : KdbIpcMessageReader :=
  { r with
    msgTyp := b.hdrTyp
    compressed := false
    ipcLen := b.hdrIpcLen
    msgLen := b.hdrIpcLen
    bytUsd := 8
    bytDez := 0 }

def behindCompressed (r : KdbIpcMessageReader) (b : ReadBuf) : KdbIpcMessageReader :=
  { r with
    msgTyp := b.hdrTyp
    compressed := true
    ipcLen := b.hdrIpcLen
    msgLen := b.hdrMsgLen
    inflater := some (.new b.hdrIpcLen b.hdrMsgLen)
    bytUsd := 12
    bytDez := 0 }

inductive HdrStep (canAlloc : Nat -> Bool) (r : KdbIpcMessageReader) (b : ReadBuf)
    (result : ReadMsgResult) : Out -> Prop where
  | again (h : r.ipcLen ≠ 0) :
      HdrStep canAlloc r b result ((true, result), r,
        if r.compressed then (b.ffwd 8).ffwd 4 else b.ffwd 8)
  | short (h : r.ipcLen = 0) (hlen : b.remaining < 8) :
      HdrStep canAlloc r b result ((false, { result with result := .incomplete }), r, b)
  | endian (h : r.ipcLen = 0) (hlen : 8 <= b.remaining) (hend : b.peekI8 ≠ 1) :
      HdrStep canAlloc r b result
        ((false, { result with result := .errIpc }), r, b.adj 1)
  | plain (h : r.ipcLen = 0) (hlen : 8 <= b.remaining) (hend : b.peekI8 = 1)
      (hcomp : b.hdrComp ≠ 1) :
      HdrStep canAlloc r b result
        ((true, { result with msgTyp := b.hdrTyp }), r.behindPlain b, b.adj 8)
  | cut (h : r.ipcLen = 0) (hlen : 8 <= b.remaining) (hend : b.peekI8 = 1)
      (hcomp : b.hdrComp = 1) (hcut : b.remaining < 12) :
      HdrStep canAlloc r b result
        ((false, { result with result := .incomplete, msgTyp := b.hdrTyp }),
          { r with msgTyp := b.hdrTyp, compressed := true, ipcLen := 0 }, b.adj 8)
  | refused (h : r.ipcLen = 0) (hlen : 12 <= b.remaining) (hend : b.peekI8 = 1)
      (hcomp : b.hdrComp = 1) (hfits : b.Refused canAlloc) :
      HdrStep canAlloc r b result
        ((false, { result with result := .errAlloc, msgTyp := b.hdrTyp }),
          { r with
            msgTyp := b.hdrTyp
            compressed := true
            ipcLen := b.hdrIpcLen
            msgLen := b.hdrMsgLen }, b.adj 12)
  | compressed (h : r.ipcLen = 0) (hlen : 12 <= b.remaining) (hend : b.peekI8 = 1)
      (hcomp : b.hdrComp = 1) (hfits : ¬ b.Refused canAlloc) :
      HdrStep canAlloc r b result
        ((true, { result with msgTyp := b.hdrTyp }), r.behindCompressed b, b.adj 12)

theorem readMsgHdr_step (canAlloc : Nat -> Bool) (r : KdbIpcMessageReader) (b : ReadBuf)
    (result : ReadMsgResult) :
    HdrStep canAlloc r b result (readMsgHdr canAlloc r b result) := by
  unfold readMsgHdr
  simp only [ReadBuf.readI8_fst, ReadBuf.readI8_snd, ReadBuf.readI32_snd,
    ReadBuf.adj_adj, Nat.reduceAdd, ReadBuf.adj_off, Nat.add_sub_cancel_left]
  by_cases hidle : r.ipcLen = 0
  · rw [if_pos hidle]
    by_cases hlen : b.remaining < 8
    · rw [if_pos hlen]
      exact .short hidle hlen
    · rw [if_neg hlen]
      have hlen8 : 8 <= b.remaining := Nat.not_lt.mp hlen
      by_cases hend : b.peekI8 = 1
      · rw [if_neg (not_not.mpr hend)]
        by_cases hcomp : (b.adj 2).peekI8 = 1
        · have htrue : ((b.adj 2).peekI8 == 1) = true := beq_iff_eq.mpr hcomp
          rw [htrue, if_pos rfl]
          by_cases hcut : b.remaining < 12
          · rw [if_pos (by rw [ReadBuf.canRead_eq, ReadBuf.adj_remaining]; omega)]
            exact .cut hidle hlen8 hend hcomp hcut
          · rw [if_neg (by rw [ReadBuf.canRead_eq, ReadBuf.adj_remaining]; omega)]
            have hlen12 : 12 <= b.remaining := Nat.not_lt.mp hcut
            split
            · rename_i hfits
              exact .refused hidle hlen12 hend hcomp hfits
            · rename_i hfits
              exact .compressed hidle hlen12 hend hcomp hfits
        · have hfalse : ((b.adj 2).peekI8 == 1) = false := beq_eq_false_iff_ne.mpr hcomp
          rw [hfalse, if_neg (by decide)]
          exact .plain hidle hlen8 hend hcomp
      · rw [if_pos hend]
        exact .endian hidle hlen8 hend
  · rw [if_neg hidle]
    exact .again hidle

theorem readMsgHdr_again_eq {canAlloc : Nat -> Bool} {r : KdbIpcMessageReader}
    {b : ReadBuf} {result : ReadMsgResult} (h : r.ipcLen ≠ 0) :
    readMsgHdr canAlloc r b result =
      ((true, result), r, if r.compressed then (b.ffwd 8).ffwd 4 else b.ffwd 8) := by
  rw [readMsgHdr, if_neg h]

theorem readMsgHdr_plain_eq {canAlloc : Nat -> Bool} {r : KdbIpcMessageReader}
    {b : ReadBuf} {result : ReadMsgResult} (h : r.ipcLen = 0) (hlen : 8 <= b.remaining)
    (hend : b.peekI8 = 1) (hcomp : b.hdrComp ≠ 1) :
    readMsgHdr canAlloc r b result =
      ((true, { result with msgTyp := b.hdrTyp }), r.behindPlain b, b.adj 8) := by
  have hstep := readMsgHdr_step canAlloc r b result
  generalize readMsgHdr canAlloc r b result = out at hstep ⊢
  cases hstep with
  | plain => rfl
  | again hne => exact absurd h hne
  | short _ hshort => omega
  | endian _ _ hne => exact absurd hend hne
  | cut _ _ _ heq => exact absurd heq hcomp
  | refused _ _ _ heq => exact absurd heq hcomp
  | compressed _ _ _ heq => exact absurd heq hcomp

end KdbIpcMessageReader

/-!
## Messages of any content
-/

/-- A message: the fields of its header and whatever follows the first eight bytes. -/
structure IpcMsg where
  typ : UInt8
  comp : UInt8
  spare : UInt8
  rest : List UInt8

namespace IpcMsg

def bytes (msg : IpcMsg) : List UInt8 :=
  [1, msg.typ, msg.comp, msg.spare] ++ (leBytes 4 (8 + msg.rest.length) ++ msg.rest)

variable {msg : IpcMsg}

theorem bytes_length (msg : IpcMsg) : msg.bytes.length = 8 + msg.rest.length := by
  simp only [bytes, List.length_append, List.length_cons, List.length_nil, leBytes_length]
  omega

structure Headed (msg : IpcMsg) (b : ReadBuf) : Prop where
  endian : b.peekI8 = 1
  typ : b.hdrTyp = msg.typ
  comp : b.hdrComp = msg.comp
  ipcLen : b.hdrIpcLen = 8 + msg.rest.length

theorem headed_of_front {b : ReadBuf} (hsize : msg.bytes.length < 2 ^ 31)
    (hlen : 8 <= b.remaining) (hpre : b.rest <+: msg.bytes) : msg.Headed b := by
  rw [bytes_length] at hsize
  rw [bytes] at hpre
  refine ⟨ReadBuf.peekI8_of_front (by omega) hpre,
    ReadBuf.peekI8_adj_of_front [1] (by simp; omega) hpre,
    ReadBuf.peekI8_adj_of_front [1, msg.typ] (by simp; omega) hpre, ?_⟩
  have hfield := ReadBuf.readI32_adj_of_front [1, msg.typ, msg.comp, msg.spare]
    (by simp; omega) hpre
  rw [ReadBuf.hdrIpcLen]
  refine (congrArg u64 hfield).trans ?_
  rw [i32_of_lt hsize, u64]
  omega

end IpcMsg

end MgKdb
