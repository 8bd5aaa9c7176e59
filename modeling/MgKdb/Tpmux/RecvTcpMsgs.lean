import MgKdb.Journal.FilterLaw

/-!
# Receiving a tickerplant's messages

`kdb_read_tcp_messages` reads what has arrived into a buffer, takes the messages
from it one by one and copies the payloads of those that match to the journal.  Writing
to the journal succeeds here.
-/

namespace MgKdb

open Foundation

structure TpMsgCounts where
  numMsgTotal : UInt32
  numMsgIncluded : UInt32
  deriving DecidableEq, Repr

theorem toNat_add_ofNat (x : UInt32) (n : Nat) :
    (x + UInt32.ofNat n).toNat = x.toNat + n <-> x.toNat + n < 2 ^ 32 := by
  rw [UInt32.toNat_add, UInt32.toNat_ofNat']
  have := x.toNat_lt
  omega

def aryCapacity : Nat :=
  256 * 1024

/-- The buffer up to `wr_off`, the offset of what was not yet looked at, the counts. -/
structure RecvState where
  ary : List UInt8
  rdOff : Nat
  counts : TpMsgCounts

namespace RecvState

def wrOff (st : RecvState) : Nat :=
  st.ary.length

def unread (st : RecvState) : List UInt8 :=
  st.ary.drop st.rdOff

end RecvState

inductive RecvEnd where
  /-- The socket was closed. -/
  | closed
  /-- The error signal from epoll. -/
  | failed
  /-- `std::bad_expected_access`, from the value of a failed read. -/
  | threw
  /-- Bytes are looked at that were not received. -/
  | undefined
  /-- The inner loop repeats itself. -/
  | hung
  deriving DecidableEq, Repr

inductive RecvTurn where
  /-- The next message, with the bytes written to the journal if this one matched. -/
  | next (st : RecvState) (written : Option (List UInt8))
  | wait
  | stop (res : RecvEnd)

/-- What is done about the answer `len` of `filter_msg`. -/
def takeMsg (st : RecvState) (len : Int) : RecvTurn :=
  if 0 < len then
    if st.unread.length < len.toNat then .stop .undefined
    else
      .next
        { st with
          rdOff := st.rdOff + len.toNat
          counts :=
            { numMsgTotal := st.counts.numMsgTotal + 1
              numMsgIncluded := st.counts.numMsgIncluded + 1 } }
        (some ((st.unread.drop 8).take (len - 8).toNat))
  else if len < -2 then
    .next
      { st with
        rdOff := st.rdOff + len.natAbs
        counts := { st.counts with numMsgTotal := st.counts.numMsgTotal + 1 } }
      none
  else if len = -2 then .wait
  else if len = -1 then .stop .closed
  else .stop .hung

def recvTurn (tbl_names : List (List UInt8)) (st : RecvState) : RecvTurn :=
  match filterMsg st.unread updName tbl_names with
  | none => .stop .undefined
  | some len => takeMsg st len

/-- What was written, the state reached, and how the function ended if it did. -/
abbrev RecvOut := List (List UInt8) × RecvState × Option RecvEnd

/-- The inner loop; with crossed offsets the number of bytes left would wrap. -/
def msgLoop (tbl_names : List (List UInt8)) : Nat -> RecvState -> RecvOut
  | 0, st => ([], st, some .undefined)
  | n + 1, st =>
      if st.wrOff = st.rdOff then ([], st, none)
      else if st.wrOff < st.rdOff then ([], st, some .undefined)
      else
        match recvTurn tbl_names st with
        | .stop res => ([], st, some res)
        | .wait => ([], st, none)
        | .next st' written =>
            let more := msgLoop tbl_names n st'
            (written.toList ++ more.1, more.2)

/-- What follows the inner loop: empty the buffer, or move what is left to its front. -/
def compact (st : RecvState) : RecvState × Option RecvEnd :=
  if st.rdOff = st.wrOff then ({ st with ary := [], rdOff := 0 }, none)
  else if st.wrOff < st.rdOff then (st, some .closed)
  else if aryCapacity - st.wrOff < aryCapacity / 4 then
    ({ st with ary := st.unread, rdOff := 0 }, none)
  else (st, none)

inductive IoEvent where
  | epollErr
  | eagain
  | eintr
  | error
  | eof
  /-- The bytes that were read, one or more. -/
  | data (bytes : List UInt8)

/-- One iteration of the outer loop; every turn of the inner loop takes a byte or more. -/
def onEvent (tbl_names : List (List UInt8)) (st : RecvState) : IoEvent -> RecvOut
  | .epollErr => ([], st, some .failed)
  | .eagain => ([], st, some .threw)
  | .eintr => ([], st, none)
  | .error => ([], st, some .closed)
  | .eof => ([], st, some .closed)
  | .data bytes =>
      let out := msgLoop tbl_names (st.unread.length + bytes.length + 1)
        { st with ary := st.ary ++ bytes }
      match out.2.2 with
      | some res => (out.1, out.2.1, some res)
      | none => (out.1, compact out.2.1)

def recvStart (counts : TpMsgCounts) : RecvState where
  ary := []
  rdOff := 0
  counts := counts

def readRoom (st : RecvState) : Nat :=
  aryCapacity - st.wrOff

/-- `kdb_read_tcp_messages`, from some state on, until it ends or events run out. -/
def kdbReadTcpMessages (tbl_names : List (List UInt8)) : RecvState -> List IoEvent -> RecvOut
  | st, [] => ([], st, none)
  | st, event :: events =>
      let out := onEvent tbl_names st event
      match out.2.2 with
      | some res => (out.1, out.2.1, some res)
      | none =>
          let more := kdbReadTcpMessages tbl_names out.2.1 events
          (out.1 ++ more.1, more.2)

/-!
## What the filter's answers do
-/

/--
What a turn of the inner loop may do: `rd_off` stays within what was received, and
only a message that begins like a call is counted as included and written.
-/
def TurnLawful (tbl_names : List (List UInt8)) (st : RecvState) : Prop :=
  recvTurn tbl_names st ≠ .stop .undefined ∧
    forall st' written, recvTurn tbl_names st = .next st' written ->
      st'.wrOff = st.wrOff ∧ st'.rdOff <= st.wrOff ∧
        (written ≠ none ∨ st'.counts.numMsgIncluded ≠ st.counts.numMsgIncluded ->
          exists payload, written = some payload ∧
            payload = (st.unread.drop 8).take (msgLen st.unread - 8).toNat ∧
            BeginsCall updName tbl_names payload)

theorem turnLawful_of_lawful {tbl_names : List (List UInt8)} {st : RecvState}
    (h : Lawful st.unread updName tbl_names) :
    TurnLawful tbl_names st := by
  rcases h with ⟨res, hres, hlaw⟩
  have hunread : st.unread.length = st.wrOff - st.rdOff := List.length_drop
  unfold TurnLawful
  rw [recvTurn, hres]
  simp only
  rcases hlaw with rfl | rfl | ⟨hdeclared, hwhole, rfl | ⟨rfl, hcall⟩⟩
  · exact ⟨by simp [takeMsg], by simp [takeMsg]⟩
  · exact ⟨by simp [takeMsg], by simp [takeMsg]⟩
  · rw [takeMsg, if_neg (by omega), if_pos (by omega)]
    refine ⟨by simp, ?_⟩
    intro st' written hnext
    cases hnext
    refine ⟨rfl, ?_, ?_⟩
    · simp only [RecvState.wrOff] at hunread ⊢
      omega
    · rintro (hw | hi)
      · exact absurd rfl hw
      · exact absurd rfl hi
  · rw [takeMsg, if_pos (by omega), if_neg (by omega)]
    refine ⟨by simp, ?_⟩
    intro st' written hnext
    cases hnext
    refine ⟨rfl, ?_, fun _ => ⟨_, rfl, rfl, hcall⟩⟩
    simp only [RecvState.wrOff] at hunread ⊢
    omega

/--
The answers of the filter are lawful, and so is what the caller does about them, exactly
when a message that is there has a payload, and the bytes of it that the filter comes to
look at.
-/
theorem filterMsg_law (src : List UInt8) (hrem : src.length < 2 ^ 64)
    (fn_name : List UInt8) (tbl_names : List (List UInt8)) :
    (Lawful src fn_name tbl_names ∧
      (fn_name = updName -> forall st : RecvState, st.unread = src ->
        TurnLawful tbl_names st)) <->
      (Complete src -> 8 < msgLen src ∧
        Framed (src.drop 8) (msgLen src - 8).toNat fn_name tbl_names) := by
  rw [← filterMsg_lawful_iff hrem]
  constructor
  · exact fun h => h.left
  · intro h
    refine ⟨h, ?_⟩
    rintro rfl st rfl
    exact turnLawful_of_lawful h

/-- A whole message with a payload of one byte. -/
theorem filterMsg_law_byte :
    Lawful [1, 0, 0, 0, 9, 0, 0, 0, 1] updName [[116]] :=
  ((filterMsg_law [1, 0, 0, 0, 9, 0, 0, 0, 1] (by decide) updName [[116]]).mpr
    (fun _ => by decide +kernel)).left

/-- A message that declares a length of zero is answered by sixteen. -/
theorem filterMsg_law_zero :
    ¬ forall (src fn_name : List UInt8) (tbl_names : List (List UInt8)),
      src.length < 2 ^ 64 -> Lawful src fn_name tbl_names := by
  intro hclaim
  rcases hclaim [1, 0, 0, 0, 0, 0, 0, 0, 1] updName [[116]] (by decide) with
    ⟨res, hres, hlaw⟩
  have hanswer : filterMsg [1, 0, 0, 0, 0, 0, 0, 0, 1] updName [[116]] = some 16 := by
    decide +kernel
  rw [hanswer] at hres
  cases hres
  have hlen : msgLen [1, 0, 0, 0, 0, 0, 0, 0, 1] = 0 := by decide +kernel
  omega

end MgKdb
