import MgKdb.Foundation.Delivery
import MgKdb.Reader.Message
import MgKdb.Reader.Progress

/-!
# Reading an uncompressed message in pieces

However a message is cut into calls, every call but the last reports an
incomplete message, and the last one delivers the value, however it is spelled.
-/

namespace MgKdb

open Foundation

namespace KdbIpcMessageReader

/-!
## The payload
-/

theorem readMsgData1_of_resumed {s : Spelling} {k : Nat} {r : KdbIpcMessageReader}
    {b : ReadBuf} (result : ReadMsgResult)
    (hout : Resumed s.bytes.length (some s.value.obj) (Slot s.value.Progress) k b
      (readElem r.msg b)) :
    (s.bytes.length <= k + b.remaining ∧
      readMsgData1 r b result =
        ((true, { result with result := .ok, message := some s.value.obj }),
          { r with msg := none }, b.advance k (s.bytes.length - k))) ∨
    (k + b.remaining < s.bytes.length ∧ exists x k',
      Slot s.value.Progress x k' ∧ k <= k' ∧ k' <= k + b.remaining ∧
        readMsgData1 r b result =
          ((false, { result with result := .incomplete }),
            { r with msg := x }, b.advance k (k' - k))) := by
  unfold readMsgData1
  cases hmsg : r.msg with
  | some o =>
      rw [hmsg] at hout
      simp only [allocMsg]
      rcases hread : o.read b with ⟨rr, o', b2⟩
      simp only [readElem, hread] at hout
      cases hout with
      | done hle => exact Or.inl ⟨hle, rfl⟩
      | short _ k' hx hk hk' hlt =>
          exact Or.inr ⟨hlt, some o', k', hx, hk, hk', rfl⟩
  | none =>
      rw [hmsg] at hout
      simp only [allocMsg]
      rcases hnew : newInstance b with ⟨rr | o, b1⟩
      · simp only [readElem, hnew] at hout
        cases hout with
        | short _ k' hx hk hk' hlt =>
            refine Or.inr ⟨hlt, none, k', hx, hk, hk', ?_⟩
            rw [← hmsg]
      · rcases hread : o.read b1 with ⟨rr, o', b2⟩
        simp only [readElem, hnew, hread] at hout
        simp only [hread]
        cases hout with
        | done hle => exact Or.inl ⟨hle, rfl⟩
        | short _ k' hx hk hk' hlt =>
            exact Or.inr ⟨hlt, some o', k', hx, hk, hk', rfl⟩

structure Reading (s : Spelling) (r : KdbIpcMessageReader) : Prop where
  plain : r.compressed = false
  used : r.bytUsd = 8 + r.bytDez
  held : Slot s.value.Progress r.msg r.bytDez

def at' (r : KdbIpcMessageReader) (msg : Option KdbBase) (k : Nat) :
    KdbIpcMessageReader :=
  { r with msg := msg, bytDez := k, bytUsd := 8 + k }

theorem readMsgBody_of_front {s : Spelling} (hfit : s.value.CountsFit)
    {r : KdbIpcMessageReader} (hr : Reading s r) {b : ReadBuf} {tail : List UInt8}
    (hat : b.At r.bytDez 0 0) (hpre : b.rest <+: s.bytes.drop r.bytDez ++ tail)
    (result : ReadMsgResult) :
    (s.bytes.length <= r.bytDez + b.remaining ∧
      readMsgBody r b result =
        ((true, { result with result := .ok, message := some s.value.obj }),
          r.at' none s.bytes.length)) ∨
    (r.bytDez + b.remaining < s.bytes.length ∧ exists x k',
      Slot s.value.Progress x k' ∧ k' <= r.bytDez + b.remaining ∧
        readMsgBody r b result =
          ((false, { result with result := .incomplete }), r.at' x k')) := by
  have hresumes := s.slot_resumes hfit
  have hle := hresumes.le hr.held
  have hused := hr.used
  have hout := hresumes.resume hr.held hat (Or.inl rfl) hpre
  unfold readMsgBody readMsgData
  rw [if_pos hr.plain]
  rcases readMsgData1_of_resumed result hout with
    ⟨hroom, hdata⟩ | ⟨hlt, x, k', hx, hk, hk', hdata⟩
  · refine Or.inl ⟨hroom, ?_⟩
    simp only [hdata, ReadBuf.advance_off, at', Prod.mk.injEq,
      KdbIpcMessageReader.mk.injEq, true_and, and_true]
    omega
  · refine Or.inr ⟨hlt, x, k', hx, hk', ?_⟩
    simp only [hdata, ReadBuf.advance_off, at', Prod.mk.injEq,
      KdbIpcMessageReader.mk.injEq, true_and, and_true]
    omega

/-!
## The header
-/

theorem readMsgHdr_short {canAlloc : Nat -> Bool} {r : KdbIpcMessageReader}
    {b : ReadBuf} (result : ReadMsgResult) (hidle : r.ipcLen = 0)
    (hlen : b.remaining < 8) :
    readMsgHdr canAlloc r b result =
      ((false, { result with result := .incomplete }), r, b) := by
  rw [readMsgHdr, if_pos hidle, if_pos hlen]

def headed (r : KdbIpcMessageReader) (typ : KdbMsgType) (n : Nat) :
    KdbIpcMessageReader :=
  { r with
    msgTyp := typ.i8
    compressed := false
    ipcLen := u64 (i32 (8 + n))
    msgLen := u64 (i32 (8 + n))
    bytUsd := 8
    bytDez := 0 }

theorem readMsgHdr_of_front (canAlloc : Nat -> Bool) {r : KdbIpcMessageReader}
    {b : ReadBuf} {typ : KdbMsgType} {n : Nat} {tail : List UInt8}
    (result : ReadMsgResult) (hidle : r.ipcLen = 0) (hlen : 8 <= b.remaining)
    (hpre : b.rest <+: KVal.msgHdr typ n ++ tail) :
    readMsgHdr canAlloc r b result =
      ((true, { result with msgTyp := typ.i8 }), r.headed typ n, b.adj 8) := by
  rw [KVal.msgHdr, List.append_assoc] at hpre
  have hend : b.peekI8 = 1 := ReadBuf.peekI8_of_front (by omega) hpre
  have htyp : (b.adj 1).peekI8 = typ.i8 :=
    ReadBuf.peekI8_adj_of_front [1] (by simp; omega) hpre
  have hcomp : (b.adj 2).peekI8 = 0 :=
    ReadBuf.peekI8_adj_of_front [1, typ.i8] (by simp; omega) hpre
  have hipc : (b.adj 4).readI32.1 = i32 (8 + n) :=
    ReadBuf.readI32_adj_of_front [1, typ.i8, 0, 0] (by simp; omega) hpre
  unfold readMsgHdr
  rw [if_pos hidle, if_neg (by omega), if_neg (by simp [hend])]
  simp only [ReadBuf.readI8_fst, ReadBuf.readI8_snd, ReadBuf.readI32_snd,
    ReadBuf.adj_adj, Nat.reduceAdd, htyp, hcomp, hipc, ReadBuf.adj_off]
  rw [if_neg (by decide), Nat.add_sub_cancel_left]
  rfl

/-!
## One call
-/

structure Idle (r : KdbIpcMessageReader) : Prop where
  ipcLen : r.ipcLen = 0
  used : r.bytUsd = 0
  held : r.msg = none

theorem idle_reset (r : KdbIpcMessageReader) : Idle r.reset :=
  ⟨rfl, rfl, rfl⟩

def Between (s : Spelling) (r : KdbIpcMessageReader) : Prop :=
  Idle r ∨ (Reading s r ∧ r.ipcLen = 8 + s.bytes.length)

theorem Between.reset (s : Spelling) (r : KdbIpcMessageReader) : Between s r.reset :=
  Or.inl (idle_reset r)

variable {canAlloc : Nat -> Bool} {typ : KdbMsgType} {s : Spelling}
  {r : KdbIpcMessageReader} {m : Nat}

theorem used_at' (r : KdbIpcMessageReader) (msg : Option KdbBase) (k : Nat) :
    (r.at' msg k).bytUsd = 8 + k := rfl

theorem declared_of_lt {n : Nat} (hn : 8 + n < 2 ^ 31) :
    u64 (i32 (8 + n)) = 8 + n := by
  rw [i32_of_lt hn, u64]
  omega

theorem reading_headed (hidle : Idle r) (n : Nat) : Reading s (r.headed typ n) where
  plain := rfl
  used := rfl
  held := by
    rw [show (r.headed typ n).msg = none from hidle.held]
    rfl

theorem window_drop (tail : List UInt8) {k : Nat} (hk : k <= s.bytes.length)
    (hle : m <= (s.message typ ++ tail).length) :
    ((s.message typ ++ tail).take m).drop (8 + k) <+: s.bytes.drop k ++ tail ∧
      (((s.message typ ++ tail).take m).drop (8 + k)).length = m - (8 + k) := by
  have hpre : (s.message typ ++ tail).take m <+:
      KVal.msgHdr typ s.bytes.length ++ (s.bytes ++ tail) := by
    rw [← List.append_assoc]
    exact List.take_prefix m _
  have hdrop := hpre.drop (8 + k)
  have hlen := KVal.msgHdr_length typ s.bytes.length
  rw [← List.drop_drop (l := KVal.msgHdr typ s.bytes.length ++ (s.bytes ++ tail)), ← hlen,
    List.drop_left, hlen, List.drop_append_of_le_length hk] at hdrop
  refine ⟨hdrop, ?_⟩
  rw [List.length_drop, List.length_take]
  omega

theorem readMsg_again (canAlloc : Nat -> Bool) (tail : List UInt8) (hr : Reading s r)
    (hfit : s.value.CountsFit) (hipc : r.ipcLen ≠ 0) (hused : r.bytUsd <= m)
    (hle : m <= (s.message typ ++ tail).length) (result : ReadMsgResult) :
    exists b1,
      readMsg canAlloc r (((s.message typ ++ tail).take m).drop r.bytUsd) result =
        readMsgBody r b1 result ∧
      b1.At r.bytDez 0 0 ∧ 8 + r.bytDez + b1.remaining = m ∧
      b1.rest <+: s.bytes.drop r.bytDez ++ tail := by
  rcases window_drop tail ((s.slot_resumes hfit).le hr.held) hle with ⟨hrest, hrem⟩
  rw [← hr.used] at hrest hrem
  refine ⟨(ReadBuf.new (((s.message typ ++ tail).take m).drop r.bytUsd)
    (-r.bytUsd)).ffwd 8, ?_, ?_, ?_, hrest⟩
  · rw [readMsg, readMsgHdr, if_neg hipc, hr.plain]
    rfl
  · left
    rw [ReadBuf.ffwd_csr, ReadBuf.new, hr.used]
    push_cast
    omega
  · rw [← hr.used]
    refine (congrArg (r.bytUsd + ·) hrem).trans ?_
    exact Nat.add_sub_cancel' hused

theorem readMsg_header (canAlloc : Nat -> Bool)
    (hsize : (s.message typ).length < 2 ^ 31) (hidle : Idle r) (hm : 8 <= m)
    (hle : m <= (s.message typ).length) (result : ReadMsgResult) :
    exists b1,
      readMsg canAlloc r ((s.message typ).take m) result =
        readMsgBody (r.headed typ s.bytes.length) b1
          { result with msgTyp := typ.i8 } ∧
      Reading s (r.headed typ s.bytes.length) ∧
      (r.headed typ s.bytes.length).ipcLen = 8 + s.bytes.length ∧
      b1.At 0 0 0 ∧ 8 + b1.remaining = m ∧ b1.rest <+: s.bytes ++ [] := by
  rcases window_drop [] (Nat.zero_le s.bytes.length)
    (show m <= (s.message typ ++ []).length by rwa [List.append_nil]) with ⟨hrest, hrem⟩
  rw [List.append_nil] at hrest hrem
  have hpre : (s.message typ).take m <+:
      KVal.msgHdr typ s.bytes.length ++ s.bytes :=
    List.take_prefix m _
  have hlen : 8 <= (ReadBuf.new ((s.message typ).take m) 0).remaining := by
    rw [ReadBuf.remaining, ReadBuf.new, List.length_take]
    omega
  refine ⟨(ReadBuf.new ((s.message typ).take m) 0).adj 8, ?_,
    reading_headed hidle _, ?_, ?_, ?_, hrest⟩
  · rw [readMsg, hidle.used, Nat.cast_zero, neg_zero,
      readMsgHdr_of_front canAlloc result hidle.ipcLen hlen hpre]
    rfl
  · rw [Spelling.message_length] at hsize
    exact declared_of_lt hsize
  · right
    exact ⟨by simp [ReadBuf.new], rfl, rfl⟩
  · refine (congrArg (8 + ·) hrem).trans ?_
    exact Nat.add_sub_cancel' hm

theorem readMsg_enter (hsize : (s.message typ).length < 2 ^ 31)
    (hr : Between s r) (hused : r.bytUsd <= m) (hm : 8 <= m)
    (hle : m <= (s.message typ).length) (result : ReadMsgResult) :
    exists r1 b1 result1,
      readMsg canAlloc r (((s.message typ).take m).drop r.bytUsd) result =
        readMsgBody r1 b1 result1 ∧
      Reading s r1 ∧ r1.ipcLen = 8 + s.bytes.length ∧ b1.At r1.bytDez 0 0 ∧
      8 + r1.bytDez + b1.remaining = m ∧
      b1.rest <+: s.bytes.drop r1.bytDez ++ [] := by
  rcases hr with hidle | ⟨hr, hipc⟩
  · rw [hidle.used, List.drop_zero]
    rcases readMsg_header canAlloc hsize hidle hm hle result with
      ⟨b1, hcall, hr1, hipc, hat, hrem, hpre⟩
    exact ⟨_, b1, _, hcall, hr1, hipc, hat, hrem, hpre⟩
  · have hfit := s.countsFit_of_length_lt (by rw [Spelling.message_length] at hsize; omega)
    rcases readMsg_again canAlloc [] hr hfit (by omega) hused
      (show m <= (s.message typ ++ []).length by rwa [List.append_nil]) result with
      ⟨b1, hcall, hat, hrem, hpre⟩
    rw [List.append_nil] at hcall
    exact ⟨r, b1, result, hcall, hr, hipc, hat, hrem, hpre⟩

def Pending (reply : Bool × ReadMsgResult) : Prop :=
  reply.1 = false ∧ reply.2.result = .incomplete

theorem readMsg_more (hsize : (s.message typ).length < 2 ^ 31)
    (hr : Between s r) (hused : r.bytUsd <= m)
    (hm : m < (s.message typ).length) (result : ReadMsgResult) :
    exists reply r',
      readMsg canAlloc r (((s.message typ).take m).drop r.bytUsd) result =
        (reply, r') ∧
      Pending reply ∧ Between s r' ∧ r'.bytUsd <= m := by
  by_cases hhdr : 8 <= m
  · have hfit : s.value.CountsFit := by
      apply Spelling.countsFit_of_length_lt
      rw [Spelling.message_length] at hsize
      omega
    rcases readMsg_enter hsize hr hused hhdr (by omega) result with
      ⟨r1, b1, result1, hcall, hr1, hipc, hat, hrem, hpre⟩
    rw [Spelling.message_length] at hm
    rcases readMsgBody_of_front hfit hr1 hat hpre result1 with
      ⟨hdone, _⟩ | ⟨_, x, k', hx, hk', hbody⟩
    · omega
    · refine ⟨_, _, hcall.trans hbody, ⟨rfl, rfl⟩, Or.inr ⟨⟨?_, ?_, hx⟩, hipc⟩, ?_⟩
      · exact hr1.plain
      · rfl
      · rw [used_at']
        omega
  · rcases hr with hidle | ⟨hr, _⟩
    · have hlen : (ReadBuf.new ((s.message typ).take m) 0).remaining < 8 := by
        rw [ReadBuf.remaining, ReadBuf.new, List.length_take]
        omega
      refine ⟨(false, { result with result := .incomplete }), r, ?_, ⟨rfl, rfl⟩,
        Or.inl hidle, hused⟩
      rw [hidle.used, List.drop_zero, readMsg, hidle.used, Nat.cast_zero, neg_zero,
        readMsgHdr_short result hidle.ipcLen hlen]
      rfl
    · have h := hr.used
      omega

theorem readMsg_last (canAlloc : Nat -> Bool)
    (hsize : (s.message typ).length < 2 ^ 31)
    (hr : Between s r) (hused : r.bytUsd <= (s.message typ).length)
    (result : ReadMsgResult) :
    exists reply r',
      readMsg canAlloc r ((s.message typ).drop r.bytUsd) result = (reply, r') ∧
      reply.1 = true ∧ reply.2.result = .ok ∧ reply.2.message = some s.value.obj ∧
      r'.getIpcLength = (s.message typ).length ∧
      r'.getInputBytesConsumed = (s.message typ).length ∧
      r'.getMsgBytesDeserialized = (s.message typ).length - 8 := by
  have hlen := s.message_length typ
  have hfit : s.value.CountsFit := s.countsFit_of_length_lt (by omega)
  rcases readMsg_enter hsize hr hused (by omega) (Nat.le_refl _) result with
    ⟨r1, b1, result1, hcall, hr1, hipc, hat, hrem, hpre⟩
  rw [List.take_length] at hcall
  rcases readMsgBody_of_front hfit hr1 hat hpre result1 with
    ⟨_, hbody⟩ | ⟨hlt, _⟩
  · refine ⟨_, _, hcall.trans hbody, rfl, rfl, rfl, ?_, ?_, ?_⟩
    · rw [hlen]
      exact hipc
    · rw [hlen]
      rfl
    · rw [hlen, Nat.add_sub_cancel_left]
      rfl
  · omega

/-!
## Every way of delivering the message
-/

def consumer (canAlloc : Nat -> Bool) :
    Consumer ReadMsgResult UInt8 KdbIpcMessageReader (Bool × ReadMsgResult) where
  call r result src := readMsg canAlloc r src result
  used := getInputBytesConsumed

theorem consumer_keeps (canAlloc : Nat -> Bool) {typ : KdbMsgType} {s : Spelling}
    (hsize : (s.message typ).length < 2 ^ 31) :
    (consumer canAlloc).Keeps (s.message typ) (Between s) Pending where
  pending := by
    intro r result m hr hused hm
    rcases readMsg_more hsize hr hused hm result with ⟨reply, r', hcall, hpend, _⟩
    exact (congrArg (fun out => Pending out.1) hcall).mpr hpend
  step := by
    intro r result m hr hused hm
    rcases readMsg_more hsize hr hused hm result with
      ⟨reply, r', hcall, _, hr', hused'⟩
    have hout : ((consumer canAlloc).call r result
        (((s.message typ).take m).drop ((consumer canAlloc).used r))).2 = r' :=
      congrArg Prod.snd hcall
    rw [hout]
    exact ⟨hr', hused'⟩

structure AgreesWith (canAlloc : Nat -> Bool) (r : KdbIpcMessageReader)
    (pieces : List (ReadMsgResult × List UInt8)) (last : ReadMsgResult × List UInt8)
    (once : (Bool × ReadMsgResult) × KdbIpcMessageReader) : Prop where
  /-- Every call before the last reports an incomplete message. -/
  early : forall reply,
    reply ∈ ((consumer canAlloc).deliver r [] pieces).1 -> Pending reply
  /-- The last call delivers the message that the single call delivers. -/
  completes : exists reply,
    ((consumer canAlloc).deliver r [] (pieces ++ [last])).1 =
        ((consumer canAlloc).deliver r [] pieces).1 ++ [reply] ∧
      reply.1 = true ∧ reply.2.result = .ok ∧ reply.2.message = once.1.2.message
  consumed :
    ((consumer canAlloc).deliver r [] (pieces ++ [last])).2.getInputBytesConsumed =
      once.2.getInputBytesConsumed
  deserialized :
    ((consumer canAlloc).deliver r [] (pieces ++ [last])).2.getMsgBytesDeserialized =
      once.2.getMsgBytesDeserialized

theorem deliver_last {pieces : List (ReadMsgResult × List UInt8)}
    {last : ReadMsgResult × List UInt8} {msg : List UInt8}
    (hdelivered : Consumer.delivered pieces ++ last.2 = msg)
    {reply : Bool × ReadMsgResult} {r' : KdbIpcMessageReader}
    (hcall : readMsg canAlloc ((consumer canAlloc).deliver r [] pieces).2
      (msg.drop ((consumer canAlloc).deliver r [] pieces).2.bytUsd) last.1 =
        (reply, r')) :
    (consumer canAlloc).deliver r [] (pieces ++ [last]) =
      (((consumer canAlloc).deliver r [] pieces).1 ++ [reply], r') := by
  rw [Consumer.deliver_concat, List.nil_append, hdelivered]
  exact congrArg₂ Prod.mk (congrArg (fun out => _ ++ [out.1]) hcall)
    (congrArg Prod.snd hcall)

/--
Chunk invariance: every call before the last reports an incomplete message, and
the last one delivers the value that a single call delivers.
-/
theorem readMsg_chunked (canAlloc : Nat -> Bool) (r : KdbIpcMessageReader)
    (typ : KdbMsgType) (s : Spelling)
    (hsize : (s.message typ).length < 2 ^ 31)
    (pieces : List (ReadMsgResult × List UInt8)) (last : ReadMsgResult × List UInt8)
    (hdelivered : Consumer.delivered pieces ++ last.2 = s.message typ)
    (hlast : last.2 ≠ []) (single : ReadMsgResult) :
    AgreesWith canAlloc r.reset pieces last
        (readMsg canAlloc r.reset (s.message typ) single) ∧
      (readMsg canAlloc r.reset (s.message typ) single).1.2.message =
        some s.value.obj ∧
      ((consumer canAlloc).deliver r.reset []
          (pieces ++ [last])).2.getInputBytesConsumed =
        ((consumer canAlloc).deliver r.reset [] (pieces ++ [last])).2.getIpcLength ∧
      ((consumer canAlloc).deliver r.reset []
          (pieces ++ [last])).2.getMsgBytesDeserialized =
        ((consumer canAlloc).deliver r.reset []
          (pieces ++ [last])).2.getIpcLength - 8 := by
  have hlen : (Consumer.delivered pieces).length < (s.message typ).length := by
    rw [← hdelivered, List.length_append]
    have hpos := List.length_pos_of_ne_nil hlast
    omega
  have hprefix : Consumer.delivered pieces <+: s.message typ := by
    rw [← hdelivered]
    exact List.prefix_append _ _
  rcases Consumer.deliver_from_start (consumer_keeps canAlloc hsize) pieces
      (Between.reset s r) rfl hprefix hlen with ⟨hpending, hbetween, hused⟩
  rcases readMsg_last canAlloc hsize hbetween (Nat.le_trans hused (Nat.le_of_lt hlen))
      last.1 with ⟨reply, r', hcall, htrue, hok, hmsg, hipc, hconsumed, hdez⟩
  rcases readMsg_last canAlloc hsize (Between.reset s r) (Nat.zero_le _) single with
    ⟨once, r'', honce, _, _, hmsg', _, hconsumed', hdez'⟩
  have hsingle : readMsg canAlloc r.reset (s.message typ) single = (once, r'') :=
    honce
  rw [hsingle]
  have hout := deliver_last hdelivered hcall
  rw [hout]
  refine ⟨⟨hpending, ⟨reply, ?_, htrue, hok, ?_⟩, ?_, ?_⟩, hmsg', ?_, ?_⟩
  · rw [hout]
  · rw [hmsg, hmsg']
  · rw [hout, hconsumed, hconsumed']
  · rw [hout, hdez, hdez']
  · rw [hconsumed, hipc]
  · rw [hdez, hipc]

/-- The result that the caller of `readMsg` starts with. -/
def unset : ReadMsgResult where
  result := .unset
  msgTyp := 0
  message := none

/-- A step dict that is cut inside the message header; the second call shows nothing new. -/
theorem readMsg_chunked_dict :
    AgreesWith (fun _ => true) new.reset
      [(unset, ((Spelling.dict true (.vector .short 3 [1, 2]) (.atom .int 3)).message
          .sync).take 5),
        (unset, [])]
      (unset, ((Spelling.dict true (.vector .short 3 [1, 2]) (.atom .int 3)).message
        .sync).drop 5)
      (readMsg (fun _ => true) new.reset
        ((Spelling.dict true (.vector .short 3 [1, 2]) (.atom .int 3)).message .sync) unset) :=
  (readMsg_chunked (fun _ => true) new .sync (.dict true (.vector .short 3 [1, 2])
    (.atom .int 3)) (by decide) _ _ (by decide) (by decide) unset).left

end KdbIpcMessageReader

end MgKdb
