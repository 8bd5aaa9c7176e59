import MgKdb.Reader.Chunks
import MgKdb.Writer.Message

/-!
# Reading what was written

One call of a fresh reader on the complete output of a writer delivers the value
that was written.
-/

namespace MgKdb

open Foundation

namespace KdbIpcMessageReader

variable {typ : KdbMsgType} {s : Spelling} {r : KdbIpcMessageReader}

theorem readMsg_message (canAlloc : Nat -> Bool) (typ : KdbMsgType) (hfit : s.value.CountsFit)
    (hidle : Idle r) (result : ReadMsgResult) :
    readMsg canAlloc r (s.message typ) result =
      ((true, { result with
          msgTyp := typ.i8, result := .ok, message := some s.value.obj }),
        (r.headed typ s.bytes.length).at' none s.bytes.length) := by
  have hlen : 8 <= (ReadBuf.new (s.message typ) 0).remaining := by
    rw [ReadBuf.remaining, ReadBuf.new, Spelling.message_length]
    omega
  have hpre : (ReadBuf.new (s.message typ) 0).rest <+:
      KVal.msgHdr typ s.bytes.length ++ s.bytes := List.prefix_rfl
  have hhdr := readMsgHdr_of_front canAlloc result hidle.ipcLen hlen hpre
  have hrest : ((ReadBuf.new (s.message typ) 0).adj 8).rest = s.bytes := by
    rw [ReadBuf.adj_rest, ReadBuf.new, Spelling.message,
      ← KVal.msgHdr_length typ s.bytes.length, List.drop_left]
  have hpre' : ((ReadBuf.new (s.message typ) 0).adj 8).rest <+:
      s.bytes.drop (r.headed typ s.bytes.length).bytDez ++ [] := by
    rw [hrest, List.append_nil]
    exact List.prefix_rfl
  have hat : ((ReadBuf.new (s.message typ) 0).adj 8).At
      (r.headed typ s.bytes.length).bytDez 0 0 :=
    Or.inr ⟨by simp [ReadBuf.new], rfl, rfl⟩
  have hcall : readMsg canAlloc r (s.message typ) result =
      readMsgBody (r.headed typ s.bytes.length)
        ((ReadBuf.new (s.message typ) 0).adj 8)
        { result with msgTyp := typ.i8 } := by
    rw [readMsg, hidle.used, Nat.cast_zero, neg_zero, hhdr]
    rfl
  rcases readMsgBody_of_front hfit (reading_headed hidle _) hat hpre'
      { result with msgTyp := typ.i8 } with ⟨_, hbody⟩ | ⟨hshort, _⟩
  · rw [hcall, hbody]
  · rw [ReadBuf.remaining, hrest] at hshort
    exact absurd (Nat.le_add_left _ _) (Nat.not_le.mpr hshort)

theorem readMsg_value (canAlloc : Nat -> Bool) (typ : KdbMsgType) {v : KVal}
    (hfit : v.CountsFit) (hidle : Idle r) (result : ReadMsgResult) :
    readMsg canAlloc r (KVal.message typ v) result =
      ((true, { result with
          msgTyp := typ.i8, result := .ok, message := some v.obj }),
        (r.headed typ v.encode.length).at' none v.encode.length) := by
  have hread := @readMsg_message (Spelling.plain v) r canAlloc typ
  rw [Spelling.message_plain, (Spelling.plain_renders v).left,
    (Spelling.plain_renders v).right] at hread
  exact hread hfit hidle result

theorem remaining_message (r : KdbIpcMessageReader) (typ : KdbMsgType) (n : Nat)
    (msg : Option KdbBase) :
    ((r.headed typ n).at' msg n).getInputBytesRemaining =
      u64 ((u64 (i32 (8 + n)) : Int) - (8 + n : Nat)) := rfl

theorem remaining_of_small {n : Nat} (hn : 8 + n < 2 ^ 31) :
    u64 ((u64 (i32 (8 + n)) : Int) - (8 + n : Nat)) = 0 := by
  rw [declared_of_lt hn, Int.sub_self]
  rfl

/--
Reading undoes writing: on the complete output of a writer, however many buffers it
took, one call of a fresh reader delivers the message type and the value.  No input
remains if the length of the message fits its field.
-/
theorem readMsg_of_write (canAlloc : Nat -> Bool) (typ : KdbMsgType) (v : KVal)
    (hfit : v.CountsFit) (o : KdbBase) (ho : v.Holds o) (w : KdbIpcMessageWriter)
    (hw : KdbIpcMessageWriter.new typ o = some w) (caps : List Nat)
    (hdone : (KdbIpcMessageWriter.producer.run w caps).2.bytesRemaining = 0)
    (result : ReadMsgResult) :
    exists reply r o',
      readMsg canAlloc new
          (Producer.output (KdbIpcMessageWriter.producer.run w caps).1) result =
        (reply, r) ∧
      reply.1 = true ∧ reply.2.result = .ok ∧ reply.2.msgTyp = typ.i8 ∧
      reply.2.message = some o' ∧ v.Holds o' ∧
      (8 + v.encode.length < 2 ^ 31 -> r.getInputBytesRemaining = 0) := by
  have hbytes := KVal.bytes_of_holds v ho
  have hout := KdbIpcMessageWriter.write_all typ hbytes hw caps hdone
  have hidle : Idle new := ⟨rfl, rfl, rfl⟩
  rw [hout]
  exact ⟨_, _, v.obj, readMsg_value canAlloc typ hfit hidle result, rfl, rfl, rfl, rfl,
    KVal.holds_obj v, remaining_of_small⟩

def symbolAndException : KVal :=
  .list 0 [.symbolAtom ⟨[97], by decide⟩, .exception ⟨[], by decide⟩]

/-- A message that is written into two buffers. -/
theorem readMsg_of_write_list :
    exists w, KdbIpcMessageWriter.new .response symbolAndException.obj = some w ∧
      exists reply r o',
        readMsg (fun _ => true) new (Producer.output
            (KdbIpcMessageWriter.producer.run w [16, 5]).1) unset = (reply, r) ∧
        reply.1 = true ∧ reply.2.result = .ok ∧
        reply.2.msgTyp = KdbMsgType.response.i8 ∧
        reply.2.message = some o' ∧ symbolAndException.Holds o' ∧
        (8 + symbolAndException.encode.length < 2 ^ 31 ->
          r.getInputBytesRemaining = 0) :=
  ⟨_, rfl, readMsg_of_write (fun _ => true) .response symbolAndException
    (KVal.countsFit_of_length_lt _ (by decide +kernel)) _ (KVal.holds_obj _) _ rfl
    [16, 5] (by decide +kernel) unset⟩

/-- A vector whose message is longer than the length field can say. -/
def hugeVector : KVal :=
  .vector .long 0 (List.replicate (2 ^ 28) 0)

theorem hugeVector_length : hugeVector.encode.length = 2 ^ 31 + 6 := by
  rw [hugeVector, KVal.encode, List.length_append, KVal.vecHdr_length, wordsBytes_length,
    List.length_replicate]
  decide

/--
All counts of this message fit their fields and its value is delivered, but the
length that the reader takes from the header is negative.
-/
theorem readMsg_of_write_huge :
    hugeVector.CountsFit ∧ hugeVector.Holds hugeVector.obj ∧
      exists w, KdbIpcMessageWriter.new .async hugeVector.obj = some w ∧
        (KdbIpcMessageWriter.producer.run w [2 ^ 31 + 14]).2.bytesRemaining = 0 ∧
        (readMsg (fun _ => true) new (Producer.output
          (KdbIpcMessageWriter.producer.run w [2 ^ 31 + 14]).1) unset).1.1 = true ∧
        (readMsg (fun _ => true) new (Producer.output
          (KdbIpcMessageWriter.producer.run w [2 ^ 31 + 14]).1)
          unset).2.getInputBytesRemaining ≠ 0 := by
  have hfit : hugeVector.CountsFit := by
    rw [hugeVector, KVal.CountsFit, List.length_replicate]
    decide
  have hbytes := KVal.bytes_of_holds _ (KVal.holds_obj hugeVector)
  have hcap : 8 + hugeVector.encode.length <= 2 ^ 31 + 14 := by
    rw [hugeVector_length]
    decide
  rcases KdbIpcMessageWriter.write_once .async hbytes hcap with ⟨w, hw, hdone⟩
  have hout := KdbIpcMessageWriter.write_all .async hbytes hw [2 ^ 31 + 14] hdone
  rw [← KVal.message] at hout
  have hidle : Idle new := ⟨rfl, rfl, rfl⟩
  have hcall := readMsg_value (fun _ => true) .async hfit hidle unset
  refine ⟨hfit, KVal.holds_obj _, w, hw, hdone, ?_, ?_⟩
  · rw [hout, hcall]
  · rw [hout, hcall, remaining_message, hugeVector_length]
    decide

end KdbIpcMessageReader

end MgKdb
