import MgKdb.Inflate.Decompressor
import MgKdb.Reader.Object

/-!
# The message reader

A message is an eight-byte header, for a compressed message followed by the
inflated length, and the payload.  The reader keeps what it needs to go on with a
message in the next call.
-/

namespace MgKdb

/-- `ReadMsgResult`, which the caller owns and passes to every call. -/
structure ReadMsgResult where
  result : ReadResult
  msgTyp : UInt8
  message : Option KdbBase

structure KdbIpcMessageReader where
  msgTyp : UInt8
  ipcLen : Nat
  msgLen : Nat
  bytUsd : Nat
  bytDez : Nat
  compressed : Bool
  msg : Option KdbBase
  inflater : Option KdbIpcDecompressor

namespace KdbIpcMessageReader

def new : KdbIpcMessageReader where
  msgTyp := 0
  ipcLen := 0
  msgLen := 0
  bytUsd := 0
  bytDez := 0
  compressed := false
  msg := none
  inflater := none

def reset (r : KdbIpcMessageReader) : KdbIpcMessageReader :=
  { new with msgTyp := r.msgTyp }

def getIpcLength (r : KdbIpcMessageReader) : Nat :=
  r.ipcLen

def getInputBytesConsumed (r : KdbIpcMessageReader) : Nat :=
  r.bytUsd

def getInputBytesRemaining (r : KdbIpcMessageReader) : Nat :=
  u64 (r.ipcLen - r.bytUsd)

def getMsgBytesDeserialized (r : KdbIpcMessageReader) : Nat :=
  r.bytDez

/-- What the private members return: completeness, the result, reader and buffer. -/
abbrev Out := (Bool × ReadMsgResult) × KdbIpcMessageReader × ReadBuf

/--
`canAlloc` is the heap: whether `new int8_t[n]` succeeds.  A size
beyond the largest object fails without asking it.
-/
def readMsgHdr (canAlloc : Nat -> Bool) (r : KdbIpcMessageReader) (b : ReadBuf)
    (result : ReadMsgResult) : Out :=
  if r.ipcLen = 0 then
    if b.remaining < 8 then ((false, { result with result := .incomplete }), r, b)
    else if b.peekI8 ≠ 1 then
      ((false, { result with result := .errIpc }), r, b.adj 1)
    else
      let typ := (b.adj 1).readI8
      let comp := typ.2.readI8
      let ipc_len := (comp.2.adj 1).readI32
      let r1 := { r with
        msgTyp := typ.1
        compressed := comp.1 == 1
        ipcLen := u64 ipc_len.1 }
      let result1 := { result with msgTyp := typ.1 }
      if r1.compressed then
        if ipc_len.2.canRead 4 = false then
          ((false, { result1 with result := .incomplete }), { r1 with ipcLen := 0 },
            ipc_len.2)
        else
          let msg_len := ipc_len.2.readI32
          let r2 := { r1 with msgLen := u64 msg_len.1 }
          if 2 ^ 63 <= u64 (r2.msgLen - 8) ∨ canAlloc (u64 (r2.msgLen - 8)) = false then
            ((false, { result1 with result := .errAlloc }), r2, msg_len.2)
          else
            ((true, result1),
              { r2 with
                inflater := some (KdbIpcDecompressor.new r2.ipcLen r2.msgLen)
                bytUsd := msg_len.2.off - b.off
                bytDez := 0 },
              msg_len.2)
      else
        ((true, result1),
          { r1 with
            msgLen := r1.ipcLen
            bytUsd := ipc_len.2.off - b.off
            bytDez := 0 },
          ipc_len.2)
  else
    ((true, result), r,
      if r.compressed then (b.ffwd 8).ffwd 4 else b.ffwd 8)

def allocMsg (msg : Option KdbBase) (b : ReadBuf) : NewOut :=
  match msg with
  | some o => (.ok o, b)
  | none => newInstance b

/-- An allocation that does not succeed counts as incomplete, whatever the cause. -/
def readMsgData1 (r : KdbIpcMessageReader) (b : ReadBuf) (result : ReadMsgResult) :
    Out :=
  match allocMsg r.msg b with
  | (.error (.trap why), b1) => ((false, { result with result := .trap why }), r, b1)
  | (.error _, b1) => ((false, { result with result := .incomplete }), r, b1)
  | (.ok o, b1) =>
      match o.read b1 with
      | (.ok, o', b2) =>
          ((true, { result with result := .ok, message := some o' }),
            { r with msg := none }, b2)
      | (rr, o', b2) =>
          ((false, { result with result := rr }), { r with msg := some o' }, b2)

def readMsgData (r : KdbIpcMessageReader) (b : ReadBuf) (result : ReadMsgResult) :
    Out :=
  let out := readMsgData1 r b result
  (out.1, { out.2.1 with bytDez := out.2.1.bytDez + (out.2.2.off - b.off) }, out.2.2)

/--
Inflate what is there.  The parser's buffer shows all inflated bytes, and its
cursor is the number of bytes parsed so far.
-/
def inflateMsg (r : KdbIpcMessageReader) (b : ReadBuf) :
    Except Trap (KdbIpcDecompressor × ReadBuf × ReadBuf) :=
  match r.inflater with
  | none => .error .badPointer
  | some inflater =>
      match inflater.uncompress b with
      | .error _ => .error .badAccess
      | .ok (inflater', b1) => .ok (inflater', b1, inflater'.getReadBuf r.bytDez)

/-- The part of `readMsg` behind the header. -/
def readMsgBody (r : KdbIpcMessageReader) (b : ReadBuf) (result : ReadMsgResult) :
    (Bool × ReadMsgResult) × KdbIpcMessageReader :=
  if r.compressed = false then
    let out := readMsgData r b result
    (out.1, { out.2.1 with bytUsd := out.2.1.bytUsd + (out.2.2.off - b.off) })
  else
    match r.inflateMsg b with
    | .error why => ((false, { result with result := .trap why }), r)
    | .ok (inflater, b1, zBuf) =>
        let out := readMsgData { r with inflater := some inflater } zBuf result
        (out.1, { out.2.1 with bytUsd := out.2.1.bytUsd + (b1.off - b.off) })

def readMsg (canAlloc : Nat -> Bool) (r : KdbIpcMessageReader) (src : List UInt8)
    (result : ReadMsgResult) : (Bool × ReadMsgResult) × KdbIpcMessageReader :=
  let hdr := readMsgHdr canAlloc r (ReadBuf.new src (-r.bytUsd)) result
  if hdr.1.1 = false then (hdr.1, hdr.2.1)
  else readMsgBody hdr.2.1 hdr.2.2 hdr.1.2

end KdbIpcMessageReader

end MgKdb
