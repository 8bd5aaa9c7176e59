import MgKdb.Foundation.Run
import MgKdb.Reader.Chunks
import MgKdb.Reader.Header

/-!
# Failed header reads

Before a header was read, three of the reader's fields are overwritten before they are
read, so that their values are not seen from outside.  A failed header read changes only
these, unless it is the allocation that failed: then the length stays behind that says
that the header was read.
-/

namespace MgKdb

open Foundation

namespace KdbIpcMessageReader

/-!
## What is seen of a reader
-/

/-- What a caller can do with a reader; the heap may be another one in every call. -/
inductive Use where
  | readMsg (canAlloc : Nat -> Bool) (src : List UInt8) (result : ReadMsgResult)
  | reset

structure Seen where
  reply : Option (Bool × ReadMsgResult)
  ipcLength : Nat
  consumed : Nat
  remaining : Nat
  deserialized : Nat

def seen (r : KdbIpcMessageReader) (reply : Option (Bool × ReadMsgResult)) : Seen where
  reply := reply
  ipcLength := r.getIpcLength
  consumed := r.getInputBytesConsumed
  remaining := r.getInputBytesRemaining
  deserialized := r.getMsgBytesDeserialized

def use (r : KdbIpcMessageReader) : Use -> Seen × KdbIpcMessageReader
  | .readMsg canAlloc src result =>
      ((readMsg canAlloc r src result).2.seen (some (readMsg canAlloc r src result).1),
        (readMsg canAlloc r src result).2)
  | .reset => (r.reset.seen none, r.reset)

def SameBehaviour (r s : KdbIpcMessageReader) : Prop :=
  r.seen none = s.seen none ∧ forall uses, observe use r uses = observe use s uses

/-!
## Fields that are not seen
-/

structure Alike (r s : KdbIpcMessageReader) : Prop where
  ipcLen : r.ipcLen = s.ipcLen
  bytUsd : r.bytUsd = s.bytUsd
  bytDez : r.bytDez = s.bytDez
  msg : r.msg = s.msg
  inflater : r.inflater = s.inflater
  headed : r.ipcLen ≠ 0 -> r = s

theorem Alike.refl (r : KdbIpcMessageReader) : Alike r r :=
  ⟨rfl, rfl, rfl, rfl, rfl, fun _ => rfl⟩

theorem Alike.seen {r s : KdbIpcMessageReader} (h : Alike r s)
    (reply : Option (Bool × ReadMsgResult)) : r.seen reply = s.seen reply := by
  simp only [KdbIpcMessageReader.seen, getIpcLength, getInputBytesConsumed,
    getInputBytesRemaining, getMsgBytesDeserialized, h.ipcLen, h.bytUsd, h.bytDez]

theorem Alike.readMsgHdr {r s : KdbIpcMessageReader} (h : Alike r s)
    (canAlloc : Nat -> Bool) (b : ReadBuf) (result : ReadMsgResult) :
    (KdbIpcMessageReader.readMsgHdr canAlloc r b result).1 =
        (KdbIpcMessageReader.readMsgHdr canAlloc s b result).1 ∧
      (KdbIpcMessageReader.readMsgHdr canAlloc r b result).2.2 =
        (KdbIpcMessageReader.readMsgHdr canAlloc s b result).2.2 ∧
      Alike (KdbIpcMessageReader.readMsgHdr canAlloc r b result).2.1
        (KdbIpcMessageReader.readMsgHdr canAlloc s b result).2.1 ∧
      ((KdbIpcMessageReader.readMsgHdr canAlloc r b result).1.1 = true ->
        (KdbIpcMessageReader.readMsgHdr canAlloc r b result).2.1 =
          (KdbIpcMessageReader.readMsgHdr canAlloc s b result).2.1) := by
  by_cases hidle : r.ipcLen = 0
  · rcases r with ⟨typ, ipcLen, len, used, dez, comp, msg, inflater⟩
    rcases s with ⟨typ', ipcLen', len', used', dez', comp', msg', inflater'⟩
    rcases h with ⟨hipc, hused, hdez, hmsg, hinf, _⟩
    simp only at hipc hused hdez hmsg hinf hidle
    subst hipc hused hdez hmsg hinf hidle
    unfold KdbIpcMessageReader.readMsgHdr
    simp only [if_true]
    have hzero : forall x y : KdbIpcMessageReader, 0 ≠ 0 -> x = y :=
      fun _ _ hne => absurd rfl hne
    by_cases hlen : b.remaining < 8
    · simp only [hlen, if_true]
      exact ⟨trivial, trivial, ⟨rfl, rfl, rfl, rfl, rfl, hzero _ _⟩,
        fun hdone => absurd hdone Bool.false_ne_true⟩
    · by_cases hend : b.peekI8 ≠ 1
      · simp only [hlen, if_false, hend, if_true, not_false_eq_true, ne_eq]
        exact ⟨trivial, trivial, ⟨rfl, rfl, rfl, rfl, rfl, hzero _ _⟩,
        fun hdone => absurd hdone Bool.false_ne_true⟩
      · simp only [hlen, hend, if_false]
        split
        · split
          · exact ⟨rfl, rfl, ⟨rfl, rfl, rfl, rfl, rfl, hzero _ _⟩,
        fun hdone => absurd hdone Bool.false_ne_true⟩
          · exact ⟨rfl, rfl, Alike.refl _, fun _ => rfl⟩
        · exact ⟨rfl, rfl, Alike.refl _, fun _ => rfl⟩
  · have hsame := h.headed hidle
    subst hsame
    exact ⟨rfl, rfl, Alike.refl _, fun _ => rfl⟩

theorem Alike.use {r s : KdbIpcMessageReader} (h : Alike r s) (u : Use) :
    (r.use u).1 = (s.use u).1 ∧ Alike (r.use u).2 (s.use u).2 := by
  cases u with
  | readMsg canAlloc src result =>
      have hcall : (KdbIpcMessageReader.readMsg canAlloc r src result).1 =
            (KdbIpcMessageReader.readMsg canAlloc s src result).1 ∧
          Alike (KdbIpcMessageReader.readMsg canAlloc r src result).2
            (KdbIpcMessageReader.readMsg canAlloc s src result).2 := by
        rcases h.readMsgHdr canAlloc (ReadBuf.new src (-r.bytUsd)) result with
          ⟨hreply, hbuf, halike, hdone⟩
        unfold KdbIpcMessageReader.readMsg
        rw [← h.bytUsd]
        simp only [← hreply]
        by_cases hfail : (KdbIpcMessageReader.readMsgHdr canAlloc r
            (ReadBuf.new src (-r.bytUsd)) result).1.1 = false
        · simp only [hfail, if_true]
          exact ⟨trivial, halike⟩
        · have hsame := hdone (Bool.eq_true_of_not_eq_false hfail)
          simp only [hfail, ← hbuf, ← hsame]
          exact ⟨trivial, Alike.refl _⟩
      refine ⟨?_, hcall.right⟩
      simp only [KdbIpcMessageReader.use, ← hcall.left]
      exact hcall.right.seen _
  | reset => exact ⟨rfl, rfl, rfl, rfl, rfl, rfl, fun hne => absurd rfl hne⟩

theorem Alike.sameBehaviour {r s : KdbIpcMessageReader} (h : Alike r s) :
    SameBehaviour r s :=
  ⟨h.seen none, fun uses => observe_congr (fun _ _ u hrs => hrs.use u) uses r s h⟩

/-!
## The failures
-/

structure BetweenMessages (r : KdbIpcMessageReader) : Prop where
  ipcLen : r.ipcLen = 0
  used : r.bytUsd = 0
  held : r.msg = none
  inflater : r.inflater = none

theorem betweenMessages_reset (r : KdbIpcMessageReader) : BetweenMessages r.reset :=
  ⟨rfl, rfl, rfl, rfl⟩

/--
The bytes are the complete header of a compressed message with a length other than zero,
and the heap has no room for the inflated message.
-/
structure AllocFails (canAlloc : Nat -> Bool) (src : List UInt8) : Prop where
  whole : 12 <= src.length
  endian : (ReadBuf.new src 0).peekI8 = 1
  comp : (ReadBuf.new src 0).hdrComp = 1
  refused : (ReadBuf.new src 0).Refused canAlloc
  declared : (ReadBuf.new src 0).hdrIpcLen ≠ 0

variable {canAlloc : Nat -> Bool} {r : KdbIpcMessageReader} {src : List UInt8}
  {result : ReadMsgResult}

/-- A failed header read leaves a reader that is alike, or it is the allocation that failed. -/
theorem alike_or_allocFails (hr : r.BetweenMessages)
    (hfail : (KdbIpcMessageReader.readMsgHdr canAlloc r (ReadBuf.new src 0) result).1.1 =
      false) :
    Alike (KdbIpcMessageReader.readMsgHdr canAlloc r (ReadBuf.new src 0) result).2.1 r ∨
      AllocFails canAlloc src := by
  have hstep := readMsgHdr_step canAlloc r (ReadBuf.new src 0) result
  generalize KdbIpcMessageReader.readMsgHdr canAlloc r (ReadBuf.new src 0) result = out
    at hstep hfail ⊢
  cases hstep with
  | again hne => exact absurd hr.ipcLen hne
  | short => exact Or.inl (Alike.refl r)
  | endian => exact Or.inl (Alike.refl r)
  | plain => cases hfail
  | cut => exact Or.inl ⟨hr.ipcLen.symm, rfl, rfl, rfl, rfl, fun hne => absurd rfl hne⟩
  | refused _ hlen hend hcomp hfits =>
      by_cases hzero : (ReadBuf.new src 0).hdrIpcLen = 0
      · left
        refine ⟨hzero.trans hr.ipcLen.symm, rfl, rfl, rfl, rfl, fun hne => ?_⟩
        exact absurd hzero hne
      · exact Or.inr ⟨hlen, hend, hcomp, hfits, hzero⟩
  | compressed => cases hfail

theorem AllocFails.readMsg (h : AllocFails canAlloc src) (hipc : r.ipcLen = 0)
    (hused : r.bytUsd = 0) (result : ReadMsgResult) :
    (KdbIpcMessageReader.readMsg canAlloc r src result).1.2.result = .errAlloc ∧
      (KdbIpcMessageReader.readMsg canAlloc r src result).2 =
        { r with
          msgTyp := (ReadBuf.new src 0).hdrTyp
          compressed := true
          ipcLen := (ReadBuf.new src 0).hdrIpcLen
          msgLen := (ReadBuf.new src 0).hdrMsgLen } := by
  have hlen : 12 <= (ReadBuf.new src 0).remaining := h.whole
  have hstep := readMsgHdr_step canAlloc r (ReadBuf.new src 0) result
  have hzero : (-(r.bytUsd : Int)) = 0 := by
    rw [hused]
    rfl
  rw [KdbIpcMessageReader.readMsg, hzero]
  generalize KdbIpcMessageReader.readMsgHdr canAlloc r (ReadBuf.new src 0) result = out
    at hstep ⊢
  cases hstep with
  | again hne => exact absurd hipc hne
  | short _ hshort => omega
  | endian _ _ hend => exact absurd h.endian hend
  | plain _ _ _ hcomp => exact absurd h.comp hcomp
  | cut _ _ _ _ hcut => omega
  | refused => exact ⟨rfl, rfl⟩
  | compressed _ _ _ _ hfits => exact absurd h.refused hfits

theorem readMsg_without_inflater (canAlloc : Nat -> Bool) (src : List UInt8)
    (result : ReadMsgResult) (hipc : r.ipcLen ≠ 0) (hcomp : r.compressed = true)
    (hinf : r.inflater = none) :
    (KdbIpcMessageReader.readMsg canAlloc r src result).1.2.result = .trap .badPointer := by
  rw [KdbIpcMessageReader.readMsg, readMsgHdr_again_eq hipc]
  simp only [Bool.true_eq_false, if_false, readMsgBody, hcomp, inflateMsg, hinf]

/--
After a failed header read the reader behaves as if the call had not been made, if and
only if it is not the allocation that failed.  Where it is, the same bytes are refused
again by the reader before the call, and the reader after it follows a null pointer.
-/
theorem readMsg_failed_header_iff (hr : r.BetweenMessages)
    (hfail : (KdbIpcMessageReader.readMsgHdr canAlloc r (ReadBuf.new src (-r.bytUsd))
      result).1.1 = false) :
    SameBehaviour (KdbIpcMessageReader.readMsg canAlloc r src result).2 r <->
      ¬ AllocFails canAlloc src := by
  constructor
  · intro hsame halloc
    have hafter := (halloc.readMsg hr.ipcLen hr.used result).right
    have hagain := (halloc.readMsg hr.ipcLen hr.used result).left
    have hnull := readMsg_without_inflater canAlloc src result
      (r := (KdbIpcMessageReader.readMsg canAlloc r src result).2)
      (by rw [hafter]; exact halloc.declared) (by rw [hafter])
      (by rw [hafter]; exact hr.inflater)
    have hshown := List.head_eq_of_cons_eq (hsame.right [.readMsg canAlloc src result])
    have hreply := congrArg (fun seen => seen.reply.map (fun reply => reply.2.result)) hshown
    simp only [use, seen, Option.map_some, Option.some.injEq] at hreply
    rw [hnull, hagain] at hreply
    cases hreply
  · intro hnot
    rw [hr.used, Nat.cast_zero, neg_zero] at hfail
    rcases alike_or_allocFails hr hfail with halike | halloc
    · have hstate : (KdbIpcMessageReader.readMsg canAlloc r src result).2 =
          (KdbIpcMessageReader.readMsgHdr canAlloc r (ReadBuf.new src 0) result).2.1 := by
        rw [KdbIpcMessageReader.readMsg, hr.used, Nat.cast_zero, neg_zero]
        simp only [hfail, if_true]
      rw [hstate]
      exact halike.sameBehaviour
    · exact absurd halloc hnot

def smallHeap (n : Nat) : Bool :=
  decide (n <= 15)

def hundredHdr : List UInt8 :=
  [1, 1, 1, 0, 20, 0, 0, 0, 100, 0, 0, 0]

/-- Cut before its last four bytes, the header is read from its first byte again. -/
theorem readMsg_failed_header_cut :
    SameBehaviour (KdbIpcMessageReader.readMsg smallHeap new (hundredHdr.take 11) unset).2
      new :=
  (readMsg_failed_header_iff (betweenMessages_reset new) (by decide)).mpr
    (fun h => absurd h.whole (by decide))

/-- With the whole header there, the same bytes do not give the same outcome again. -/
theorem readMsg_failed_header_refused :
    (KdbIpcMessageReader.readMsgHdr smallHeap new (ReadBuf.new hundredHdr 0) unset).1.1 =
        false ∧
      (KdbIpcMessageReader.readMsg smallHeap new hundredHdr unset).1.2.result = .errAlloc ∧
      (KdbIpcMessageReader.readMsg smallHeap
        (KdbIpcMessageReader.readMsg smallHeap new hundredHdr unset).2 hundredHdr
        unset).1.2.result = .trap .badPointer := by
  decide

end KdbIpcMessageReader

end MgKdb
