import MgKdb.Reader.Compressed
import MgKdb.Reader.Header

/-!
# The message type of a result

Only the call that reads the header writes the type into the result object.  The reader
keeps the type as well, but never looks at its copy again.
-/

namespace MgKdb

open Foundation

def IpcMsg.hdrSize (msg : IpcMsg) : Nat :=
  if msg.comp = 1 then 12 else 8

namespace KdbIpcMessageReader

variable {canAlloc : Nat -> Bool} {msg : IpcMsg} {r : KdbIpcMessageReader}
  {got xs : List UInt8}

theorem readMsgData_msgTyp (r : KdbIpcMessageReader) (b : ReadBuf)
    (result : ReadMsgResult) : (readMsgData r b result).1.2.msgTyp = result.msgTyp := by
  unfold readMsgData readMsgData1
  rcases allocMsg r.msg b with ⟨rr | o, b1⟩
  · cases rr <;> rfl
  · rcases hread : o.read b1 with ⟨rr, o', b2⟩
    simp only [hread]
    cases rr <;> rfl

theorem readMsgBody_frame (r : KdbIpcMessageReader) (b : ReadBuf) (result : ReadMsgResult) :
    (readMsgBody r b result).1.2.msgTyp = result.msgTyp ∧
      (readMsgBody r b result).2.ipcLen = r.ipcLen := by
  unfold readMsgBody
  split
  · rcases readMsgData_frame r b result with ⟨x, hframe⟩
    simp only [hframe, readMsgData_msgTyp, and_self]
  · cases hinf : r.inflateMsg b with
    | error why => exact ⟨rfl, rfl⟩
    | ok out =>
        rcases readMsgData_frame { r with inflater := some out.1 } out.2.2 result with
          ⟨x, hframe⟩
        simp only [hframe, readMsgData_msgTyp, and_self]

/-- What is known of a reader that was given `got` of a message. -/
def HeaderPhase (msg : IpcMsg) (got : List UInt8) (r : KdbIpcMessageReader) : Prop :=
  (got.length < msg.hdrSize ∧ r.ipcLen = 0 ∧ r.bytUsd = 0) ∨
    (msg.hdrSize <= got.length ∧ r.ipcLen ≠ 0)

def TypeOfCall (msg : IpcMsg) (got : List UInt8) (result : ReadMsgResult)
    (reply : Bool × ReadMsgResult) : Prop :=
  reply.1 = true ->
    reply.2.msgTyp = if got.length < msg.hdrSize then msg.typ else result.msgTyp

theorem readMsg_headerPhase (canAlloc : Nat -> Bool) (hsize : msg.bytes.length < 2 ^ 31)
    (hr : HeaderPhase msg got r) (hpre : got ++ xs <+: msg.bytes) (result : ReadMsgResult) :
    TypeOfCall msg got result
        (readMsg canAlloc r ((got ++ xs).drop r.bytUsd) result).1 ∧
      HeaderPhase msg (got ++ xs)
        (readMsg canAlloc r ((got ++ xs).drop r.bytUsd) result).2 := by
  have hle : got.length <= (got ++ xs).length := by simp
  rcases hr with ⟨hshort, hipc, hused⟩ | ⟨hwhole, hipc⟩
  · have hzero : (-(r.bytUsd : Int)) = 0 := by
      rw [hused]
      rfl
    have hdeclared : 8 + msg.rest.length ≠ 0 := by omega
    have hstep := readMsgHdr_step canAlloc r (ReadBuf.new (got ++ xs) 0) result
    have hhead := fun hlen => IpcMsg.headed_of_front (b := ReadBuf.new (got ++ xs) 0)
      hsize hlen hpre
    rw [hused, List.drop_zero, readMsg, hzero, TypeOfCall, if_pos hshort]
    generalize readMsgHdr canAlloc r (ReadBuf.new (got ++ xs) 0) result = out at hstep ⊢
    cases hstep with
    | again hne => exact absurd hipc hne
    | short _ hlen =>
        have hcut : (got ++ xs).length < msg.hdrSize := by
          have hlen' : (got ++ xs).length < 8 := hlen
          unfold IpcMsg.hdrSize
          split <;> omega
        exact ⟨fun hdone => absurd hdone Bool.false_ne_true, Or.inl ⟨hcut, hipc, hused⟩⟩
    | endian _ hlen hend => exact absurd (hhead hlen).endian hend
    | plain _ hlen _ hcomp =>
        have hlen' : 8 <= (got ++ xs).length := hlen
        rw [(hhead hlen).comp] at hcomp
        have hframe := readMsgBody_frame (r.behindPlain (ReadBuf.new (got ++ xs) 0))
          ((ReadBuf.new (got ++ xs) 0).adj 8)
          { result with msgTyp := (ReadBuf.new (got ++ xs) 0).hdrTyp }
        refine ⟨fun _ => hframe.left.trans (hhead hlen).typ, Or.inr ⟨?_, ?_⟩⟩
        · rw [IpcMsg.hdrSize, if_neg hcomp]
          exact hlen'
        · exact (hframe.right.trans (hhead hlen).ipcLen).trans_ne hdeclared
    | cut _ hlen _ hcomp hcut =>
        have hcut' : (got ++ xs).length < 12 := hcut
        rw [(hhead hlen).comp] at hcomp
        refine ⟨fun hdone => absurd hdone Bool.false_ne_true, Or.inl ⟨?_, rfl, hused⟩⟩
        rw [IpcMsg.hdrSize, if_pos hcomp]
        exact hcut'
    | refused _ hlen _ hcomp =>
        have hlen' : 12 <= (got ++ xs).length := hlen
        have hhead' := hhead (by omega)
        rw [hhead'.comp] at hcomp
        refine ⟨fun hdone => absurd hdone Bool.false_ne_true, Or.inr ⟨?_, ?_⟩⟩
        · rw [IpcMsg.hdrSize, if_pos hcomp]
          exact hlen'
        · exact hhead'.ipcLen.trans_ne hdeclared
    | compressed _ hlen _ hcomp =>
        have hlen' : 12 <= (got ++ xs).length := hlen
        have hhead' := hhead (by omega)
        rw [hhead'.comp] at hcomp
        have hframe := readMsgBody_frame (r.behindCompressed (ReadBuf.new (got ++ xs) 0))
          ((ReadBuf.new (got ++ xs) 0).adj 12)
          { result with msgTyp := (ReadBuf.new (got ++ xs) 0).hdrTyp }
        refine ⟨fun _ => hframe.left.trans hhead'.typ, Or.inr ⟨?_, ?_⟩⟩
        · rw [IpcMsg.hdrSize, if_pos hcomp]
          exact hlen'
        · exact (hframe.right.trans hhead'.ipcLen).trans_ne hdeclared
  · have hframe := readMsgBody_frame r
      (if r.compressed then
        ((ReadBuf.new ((got ++ xs).drop r.bytUsd) (-r.bytUsd)).ffwd 8).ffwd 4
      else (ReadBuf.new ((got ++ xs).drop r.bytUsd) (-r.bytUsd)).ffwd 8) result
    rw [readMsg, readMsgHdr_again_eq hipc, TypeOfCall]
    simp only [Bool.true_eq_false, if_false, Nat.not_lt.mpr hwhole]
    refine ⟨fun _ => hframe.left, Or.inr ⟨Nat.le_trans hwhole hle, ?_⟩⟩
    exact hframe.right.trans_ne hipc

theorem deliver_headerPhase (canAlloc : Nat -> Bool) (hsize : msg.bytes.length < 2 ^ 31)
    (r : KdbIpcMessageReader) (pieces : List (ReadMsgResult × List UInt8))
    (hpre : Consumer.delivered pieces <+: msg.bytes) :
    HeaderPhase msg (Consumer.delivered pieces)
      ((consumer canAlloc).deliver r.reset [] pieces).2 := by
  have hstart : HeaderPhase msg [] r.reset := by
    refine Or.inl ⟨?_, rfl, rfl⟩
    unfold IpcMsg.hdrSize
    split <;> simp
  have hrun : (forall reply, reply ∈ ((consumer canAlloc).deliver r.reset [] pieces).1 ->
        True) ∧
      HeaderPhase msg ([] ++ Consumer.delivered pieces)
        ((consumer canAlloc).deliver r.reset [] pieces).2 := by
    refine Consumer.deliver_of_step (fun got => got <+: msg.bytes) ?_ ?_ pieces hstart hpre
    · exact fun hfront => (List.prefix_append _ _).trans hfront
    · exact fun result hinv hfront =>
        ⟨trivial, (readMsg_headerPhase canAlloc hsize hinv hfront result).right⟩
  exact hrun.right

/--
The result of a call that returns true carries the type of the message if and only if the
header was completed in this call, or the result object carried the type before.
-/
theorem readMsg_msgTyp_iff (canAlloc : Nat -> Bool) (r : KdbIpcMessageReader)
    (msg : IpcMsg) (hsize : msg.bytes.length < 2 ^ 31)
    (pieces : List (ReadMsgResult × List UInt8)) (last : ReadMsgResult × List UInt8)
    (hpre : Consumer.delivered pieces ++ last.2 <+: msg.bytes)
    (reply : Bool × ReadMsgResult)
    (hreply : ((consumer canAlloc).deliver r.reset [] (pieces ++ [last])).1.getLast? =
      some reply) (hdone : reply.1 = true) :
    reply.2.msgTyp = msg.typ <->
      (Consumer.delivered pieces).length < msg.hdrSize ∨ last.1.msgTyp = msg.typ := by
  have hphase := deliver_headerPhase canAlloc hsize r pieces
    ((List.prefix_append _ _).trans hpre)
  have hcall := (readMsg_headerPhase canAlloc hsize hphase hpre last.1).left
  rw [Consumer.deliver_concat, List.getLast?_concat, Option.some.injEq] at hreply
  have htyp := hcall (by rw [← hdone, ← hreply]; rfl)
  rw [← hreply]
  refine (Eq.congr_left htyp).trans ?_
  by_cases hshort : (Consumer.delivered pieces).length < msg.hdrSize
  · simp [hshort]
  · simp [hshort]

def intResponse : IpcMsg where
  typ := KdbMsgType.response.i8
  comp := 0
  spare := 0
  rest := [250, 1, 0, 0, 0]

/-- Cut behind its header and read with one result object. -/
theorem readMsg_msgTyp_same :
    KdbMsgType.response.i8 = intResponse.typ <->
      (Consumer.delivered [(unset, intResponse.bytes.take 8)]).length <
          intResponse.hdrSize ∨
        KdbMsgType.response.i8 = intResponse.typ :=
  readMsg_msgTyp_iff (fun _ => true) new intResponse (by decide)
    [(unset, intResponse.bytes.take 8)]
    ({ unset with msgTyp := KdbMsgType.response.i8 }, intResponse.bytes.drop 8) (by decide)
    (true, ⟨.ok, KdbMsgType.response.i8, some (.atom .int 1)⟩) rfl rfl

/-- With a result object for each call, the type of the last one is not set. -/
theorem readMsg_msgTyp_fresh :
    ((consumer (fun _ => true)).deliver new.reset []
        [(unset, intResponse.bytes.take 8), (unset, intResponse.bytes.drop 8)]).1.map
      (fun reply => (reply.1, reply.2.msgTyp == intResponse.typ)) =
      [(false, true), (true, false)] := by
  decide

end KdbIpcMessageReader

end MgKdb
