import Mathlib.Data.UInt
import MgKdb.Foundation.Retry

/-!
# Reading and writing in full

A call of `read` or `write` may be interrupted, and it may transfer less than it is
asked for.  `read_fully` and `write_fully` make such calls until everything is
transferred, and give up at the third one in a row that came to nothing.
-/

namespace MgKdb

open Foundation

def eintr : Int := 4

def eio : Int := 5

/-- What the calls of `read` or `write` come to, each when it is asked for a number
of bytes. -/
structure Descriptor where
  res : Nat -> Nat -> Except Int Nat
  /-- No call transfers more than it is asked for. -/
  bounded : forall i count n, res i count = .ok n -> n <= count

def ssize (len : Nat) : Int :=
  (BitVec.ofNat 64 len).toInt

theorem ssize_of_lt {len : Nat} (h : len < 2 ^ 63) : ssize len = len := by
  rw [ssize, BitVec.toInt_ofNat']
  exact Int.bmod_eq_of_le (by omega) (by omega)

theorem lt_ssize {tot len : Nat} (h : len < 2 ^ 63) : (tot : Int) < ssize len <-> tot < len := by
  rw [ssize_of_lt h]
  exact Int.ofNat_lt

/-- The buffer of `read_fully`, and the place in the stream of the next byte to read. -/
structure FilledBuf where
  buf : Nat -> UInt8
  pos : Nat

/-- `read` at `buf + tot`, when it reads `n` bytes. -/
def FilledBuf.read (stream : Nat -> UInt8) (tot n : Nat) (d : FilledBuf) : FilledBuf where
  buf k := if tot <= k ∧ k < tot + n then stream (d.pos + (k - tot)) else d.buf k
  pos := d.pos + n

/-- `write` from `buf + tot`, when `n` bytes are accepted after `sent`. -/
def accept (buf : Nat -> UInt8) (tot n : Nat) (sent : List UInt8) : List UInt8 :=
  sent ++ (List.range' tot n).map buf

section Turns

variable (fd : Descriptor) (len : Nat)

/-- The head of the loop of `read_fully` and its body, which makes the call with the
number `i`. -/
def readFullyTurn (stream : Nat -> UInt8) (i : Nat) :
    Transfer Int FilledBuf -> Transfer Int FilledBuf
  | .going tot tries d =>
      if (tot : Int) < ssize len then
        match fd.res i (len - tot) with
        | .error e =>
            if e = eintr ∧ tries + 1 < 3 then .going tot (tries + 1) d else .ended (.error e) d
        | .ok n =>
            if n = 0 then .ended (.ok tot) d else .going (tot + n) 0 (d.read stream tot n)
      else .ended (.ok tot) d
  | .ended out d => .ended out d

/-- `read_fully` after a number of turns of its loop. -/
def readFully (stream : Nat -> UInt8) (d : FilledBuf) : Nat -> Transfer Int FilledBuf
  | 0 => .going 0 0 d
  | n + 1 => readFullyTurn fd len stream n (readFully stream d n)

def writeFullyTurn (buf : Nat -> UInt8) (i : Nat) :
    Transfer Int (List UInt8) -> Transfer Int (List UInt8)
  | .going tot tries sent =>
      if (tot : Int) < ssize len then
        match fd.res i (len - tot) with
        | .error e =>
            if e = eintr ∧ tries + 1 < 3 then .going tot (tries + 1) sent
            else .ended (.error e) sent
        | .ok n =>
            if n = 0 then
              if tries + 1 < 3 then .going tot (tries + 1) sent else .ended (.error eio) sent
            else .going (tot + n) 0 (accept buf tot n sent)
      else .ended (.ok tot) sent
  | .ended out sent => .ended out sent

def writeFully (buf : Nat -> UInt8) : Nat -> Transfer Int (List UInt8)
  | 0 => .going 0 0 []
  | n + 1 => writeFullyTurn fd len buf n (writeFully buf n)

variable {data : Type}

/-- What the call of the turn with the number `i` comes to, if it makes one. -/
def turnCall (i : Nat) : Transfer Int data -> List (Except Int Nat)
  | .going tot _ _ => if (tot : Int) < ssize len then [fd.res i (len - tot)] else []
  | .ended _ _ => []

def callsOf (after : Nat -> Transfer Int data) : Nat -> List (Except Int Nat)
  | 0 => []
  | n + 1 => callsOf after n ++ turnCall fd len n (after n)

end Turns

/-!
## The two loops as transfers
-/

def readMeaning : Except Int Nat -> Attempt Int
  | .error e => if e = eintr then .again e else .failed e
  | .ok n => if n = 0 then .stopped else .gained n

def writeMeaning : Except Int Nat -> Attempt Int
  | .error e => if e = eintr then .again e else .failed e
  | .ok n => if n = 0 then .again eio else .gained n

theorem readMeaning_gained {res : Except Int Nat} {n : Nat}
    (h : readMeaning res = .gained n) : res = .ok n ∧ 0 < n := by
  cases res with
  | error e =>
      rw [readMeaning] at h
      split at h <;> cases h
  | ok k =>
      rw [readMeaning] at h
      split at h
      next => cases h
      next hk =>
        cases h
        exact ⟨rfl, Nat.pos_of_ne_zero hk⟩

theorem writeMeaning_gained {res : Except Int Nat} {n : Nat}
    (h : writeMeaning res = .gained n) : res = .ok n ∧ 0 < n := by
  cases res with
  | error e =>
      rw [writeMeaning] at h
      split at h <;> cases h
  | ok k =>
      rw [writeMeaning] at h
      split at h
      next => cases h
      next hk =>
        cases h
        exact ⟨rfl, Nat.pos_of_ne_zero hk⟩

theorem Descriptor.reads_gains (fd : Descriptor) (i count n : Nat)
    (h : readMeaning (fd.res i count) = .gained n) : 0 < n ∧ n <= count :=
  ⟨(readMeaning_gained h).2, fd.bounded i count n (readMeaning_gained h).1⟩

theorem Descriptor.writes_gains (fd : Descriptor) (i count n : Nat)
    (h : writeMeaning (fd.res i count) = .gained n) : 0 < n ∧ n <= count :=
  ⟨(writeMeaning_gained h).2, fd.bounded i count n (writeMeaning_gained h).1⟩

def Descriptor.reads (fd : Descriptor) : Transfer.Schedule Int (Except Int Nat) :=
  ⟨fd.res, readMeaning, fd.reads_gains⟩

def Descriptor.writes (fd : Descriptor) : Transfer.Schedule Int (Except Int Nat) :=
  ⟨fd.res, writeMeaning, fd.writes_gains⟩

section Refinement

variable {fd : Descriptor} {len : Nat}

theorem readFullyTurn_eq (hlen : len < 2 ^ 63) (stream : Nat -> UInt8) (i : Nat)
    (st : Transfer Int FilledBuf) :
    readFullyTurn fd len stream i st =
      Transfer.turn 3 len fd.reads (FilledBuf.read stream) i st := by
  cases st with
  | ended out d => rfl
  | going tot tries d =>
      simp only [readFullyTurn, Transfer.turn, lt_ssize hlen, Descriptor.reads]
      congr 1
      cases fd.res i (len - tot) with
      | error e => by_cases he : e = eintr <;> simp [readMeaning, he, Transfer.attempt]
      | ok n => by_cases hn : n = 0 <;> simp [readMeaning, hn, Transfer.attempt]

theorem writeFullyTurn_eq (hlen : len < 2 ^ 63) (buf : Nat -> UInt8) (i : Nat)
    (st : Transfer Int (List UInt8)) :
    writeFullyTurn fd len buf i st =
      Transfer.turn 3 len fd.writes (accept buf) i st := by
  cases st with
  | ended out d => rfl
  | going tot tries d =>
      simp only [writeFullyTurn, Transfer.turn, lt_ssize hlen, Descriptor.writes]
      congr 1
      cases fd.res i (len - tot) with
      | error e => by_cases he : e = eintr <;> simp [writeMeaning, he, Transfer.attempt]
      | ok n => by_cases hn : n = 0 <;> simp [writeMeaning, hn, Transfer.attempt]

theorem readFully_eq (hlen : len < 2 ^ 63) (stream : Nat -> UInt8) (d : FilledBuf) (n : Nat) :
    readFully fd len stream d n =
      Transfer.turns 3 len fd.reads (FilledBuf.read stream) d n := by
  induction n with
  | zero => rfl
  | succ n ih => rw [readFully, Transfer.turns, readFullyTurn_eq hlen, ih]

theorem writeFully_eq (hlen : len < 2 ^ 63) (buf : Nat -> UInt8) (n : Nat) :
    writeFully fd len buf n = Transfer.turns 3 len fd.writes (accept buf) [] n := by
  induction n with
  | zero => rfl
  | succ n ih => rw [writeFully, Transfer.turns, writeFullyTurn_eq hlen, ih]

theorem callsOf_eq {data : Type} (hlen : len < 2 ^ 63)
    {sched : Transfer.Schedule Int (Except Int Nat)} (hsched : sched.signal = fd.res)
    {move : Nat -> Nat -> data -> data} {d : data} {after : Nat -> Transfer Int data}
    (hafter : forall n, after n = Transfer.turns 3 len sched move d n) (n : Nat) :
    callsOf fd len after n = Transfer.signals 3 len sched move d n := by
  induction n with
  | zero => rfl
  | succ n ih =>
      rw [callsOf, Transfer.signals, ih, hafter n]
      cases Transfer.turns 3 len sched move d n with
      | ended out d' => rfl
      | going tot tries d' =>
          simp only [turnCall, Transfer.nextSignal, lt_ssize hlen, hsched]

end Refinement

/-!
## What is transferred
-/

/-- `tot` bytes have been read from the stream, and no other byte of the buffer is
changed. -/
structure FilledBuf.Received (stream : Nat -> UInt8) (start : FilledBuf) (tot : Nat)
    (d : FilledBuf) : Prop where
  next : d.pos = start.pos + tot
  filled : forall k, k < tot -> d.buf k = stream (start.pos + k)
  kept : forall k, tot <= k -> d.buf k = start.buf k

theorem FilledBuf.Received.read {stream : Nat -> UInt8} {start d : FilledBuf} {tot : Nat}
    (h : Received stream start tot d) (n : Nat) :
    Received stream start (tot + n) (d.read stream tot n) where
  next := by rw [FilledBuf.read, h.next, Nat.add_assoc]
  filled := by
    intro k hk
    simp only [FilledBuf.read]
    split
    next hin => rw [h.next, Nat.add_assoc, Nat.add_sub_cancel' hin.1]
    next hout => exact h.filled k (by omega)
  kept := by
    intro k hk
    simp only [FilledBuf.read]
    rw [if_neg (by omega)]
    exact h.kept k (by omega)

theorem accept_front (buf : Nat -> UInt8) (tot n : Nat) :
    accept buf tot n ((List.range tot).map buf) = (List.range (tot + n)).map buf := by
  rw [accept, <- List.map_append, List.range_eq_range', List.range_eq_range',
    <- List.range'_append_1, Nat.zero_add]

/-- A call fails, or comes to nothing for the third time in a row. -/
def CallsFail (Retry : Except Int Nat -> Prop) (calls : List (Except Int Nat)) : Prop :=
  (exists e, Except.error e ∈ calls ∧ e ≠ eintr) ∨
    exists run, run <:+: calls ∧ run.length = 3 ∧ forall res, res ∈ run -> Retry res

def ReadRetry (res : Except Int Nat) : Prop :=
  res = .error eintr

def WriteRetry (res : Except Int Nat) : Prop :=
  res = .error eintr ∨ res = .ok 0

theorem repeats_readMeaning (res : Except Int Nat) :
    Transfer.Repeats readMeaning res <-> ReadRetry res := by
  rw [Transfer.Repeats, ReadRetry]
  cases res with
  | error e => by_cases he : e = eintr <;> simp [readMeaning, he]
  | ok n => by_cases hn : n = 0 <;> simp [readMeaning, hn]

theorem repeats_writeMeaning (res : Except Int Nat) :
    Transfer.Repeats writeMeaning res <-> WriteRetry res := by
  rw [Transfer.Repeats, WriteRetry]
  cases res with
  | error e => by_cases he : e = eintr <;> simp [writeMeaning, he]
  | ok n => by_cases hn : n = 0 <;> simp [writeMeaning, hn]

theorem readMeaning_failed (res : Except Int Nat) :
    (exists e, readMeaning res = .failed e) <-> exists e, res = .error e ∧ e ≠ eintr := by
  cases res with
  | error e => by_cases he : e = eintr <;> simp [readMeaning, he]
  | ok n => by_cases hn : n = 0 <;> simp [readMeaning, hn]

theorem writeMeaning_failed (res : Except Int Nat) :
    (exists e, writeMeaning res = .failed e) <-> exists e, res = .error e ∧ e ≠ eintr := by
  cases res with
  | error e => by_cases he : e = eintr <;> simp [writeMeaning, he]
  | ok n => by_cases hn : n = 0 <;> simp [writeMeaning, hn]

theorem readMeaning_stopped {res : Except Int Nat} (h : readMeaning res = .stopped) :
    res = .ok 0 := by
  cases res with
  | error e => by_cases he : e = eintr <;> simp [readMeaning, he] at h
  | ok n => by_cases hn : n = 0 <;> simp [readMeaning, hn] at h ⊢

theorem writeMeaning_ne_stopped (res : Except Int Nat) : writeMeaning res ≠ .stopped := by
  cases res with
  | error e => by_cases he : e = eintr <;> simp [writeMeaning, he]
  | ok n => by_cases hn : n = 0 <;> simp [writeMeaning, hn]

theorem fails_iff {meaning : Except Int Nat -> Attempt Int} {Retry : Except Int Nat -> Prop}
    (hrepeats : forall res, Transfer.Repeats meaning res <-> Retry res)
    (hfailed : forall res,
      (exists e, meaning res = .failed e) <-> exists e, res = .error e ∧ e ≠ eintr)
    (calls : List (Except Int Nat)) :
    Transfer.Fails 3 meaning calls <-> CallsFail Retry calls := by
  simp only [Transfer.Fails, CallsFail, hrepeats, hfailed]
  constructor
  · rintro (⟨res, hres, e, rfl, he⟩ | hrun)
    · exact Or.inl ⟨e, hres, he⟩
    · exact Or.inr hrun
  · rintro (⟨e, hres, he⟩ | hrun)
    · exact Or.inl ⟨_, hres, e, rfl, he⟩
    · exact Or.inr hrun

structure ReadsFully (stream : Nat -> UInt8) (start : FilledBuf) (len : Nat)
    (calls : List (Except Int Nat)) (out : Except Int Nat) (d : FilledBuf) : Prop where
  received : exists tot, tot <= len ∧ FilledBuf.Received stream start tot d ∧
    forall k, out = .ok k -> k = tot
  whole : forall k, out = .ok k -> k = len ∨ Except.ok 0 ∈ calls
  failed : (exists e, out = .error e) <-> CallsFail ReadRetry calls

structure WritesFully (buf : Nat -> UInt8) (len : Nat) (calls : List (Except Int Nat))
    (out : Except Int Nat) (sent : List UInt8) : Prop where
  front : exists tot, tot <= len ∧ sent = (List.range tot).map buf
  whole : forall k, out = .ok k -> k = len ∧ sent = (List.range len).map buf
  failed : (exists e, out = .error e) <-> CallsFail WriteRetry calls

theorem readFully_ends (fd : Descriptor) {len : Nat} (hlen : len < 2 ^ 63)
    (stream : Nat -> UInt8) (start : FilledBuf) :
    exists n out d, readFully fd len stream start n = .ended out d ∧
      ReadsFully stream start len (callsOf fd len (readFully fd len stream start) n) out d := by
  have hmove : forall tot n d, FilledBuf.Received stream start tot d ->
      FilledBuf.Received stream start (tot + n) (d.read stream tot n) :=
    fun tot n d h => h.read n
  have hstart : FilledBuf.Received stream start 0 start :=
    ⟨rfl, fun k hk => absurd hk (Nat.not_lt_zero k), fun k _ => rfl⟩
  have hthree : 0 < 3 := by decide
  have hends := @Transfer.turns_end Int FilledBuf _ 3 len fd.reads _ _ hthree hmove start hstart
  rcases hends with ⟨out, d, hat, hover⟩
  have hloop := @readFully_eq fd len hlen stream start
  rw [<- callsOf_eq hlen rfl hloop] at hover
  refine ⟨_, out, d, (hloop _).trans hat, hover.moved, ?_, ?_⟩
  · intro k hk
    rcases hover.whole k hk with hall | ⟨res, hres, hstopped⟩
    · exact Or.inl hall
    · rw [readMeaning_stopped hstopped] at hres
      exact Or.inr hres
  · exact hover.failed.trans (fails_iff repeats_readMeaning readMeaning_failed _)

theorem writeFully_ends (fd : Descriptor) {len : Nat} (hlen : len < 2 ^ 63)
    (buf : Nat -> UInt8) :
    exists n out sent, writeFully fd len buf n = .ended out sent ∧
      WritesFully buf len (callsOf fd len (writeFully fd len buf) n) out sent := by
  have hmove : forall tot n sent, sent = (List.range tot).map buf ->
      accept buf tot n sent = (List.range (tot + n)).map buf := by
    intro tot n sent h
    rw [h, accept_front]
  have hthree : 0 < 3 := by decide
  have hends := @Transfer.turns_end Int (List UInt8) _ 3 len fd.writes _ _ hthree hmove [] rfl
  rcases hends with ⟨out, sent, hat, hover⟩
  have hloop := @writeFully_eq fd len hlen buf
  rw [<- callsOf_eq hlen rfl hloop] at hover
  refine ⟨_, out, sent, (hloop _).trans hat, ?_, ?_, ?_⟩
  · rcases hover.moved with ⟨tot, htot, hsent, _⟩
    exact ⟨tot, htot, hsent⟩
  · intro k hk
    rcases hover.moved with ⟨tot, _, hsent, hout⟩
    rcases hover.whole k hk with hall | ⟨res, _, hstopped⟩
    · refine ⟨hall, ?_⟩
      rw [hsent, <- hout k hk, hall]
    · exact absurd hstopped (writeMeaning_ne_stopped res)
  · exact hover.failed.trans (fails_iff repeats_writeMeaning writeMeaning_failed _)

/--
Whatever the calls come to, both functions end.  `read_fully` has the next bytes of the
stream in its buffer, and `write_fully` has sent the bytes of the buffer once and in
order; they report an error exactly when a call fails, or when the third one in a row comes
to nothing.
-/
theorem fully_ends (fd : Descriptor) {len : Nat} (hlen : len < 2 ^ 63) :
    (forall stream start, exists n out d, readFully fd len stream start n = .ended out d ∧
      ReadsFully stream start len (callsOf fd len (readFully fd len stream start) n) out d) ∧
    (forall buf, exists n out sent, writeFully fd len buf n = .ended out sent ∧
      WritesFully buf len (callsOf fd len (writeFully fd len buf) n) out sent) :=
  ⟨readFully_ends fd hlen, writeFully_ends fd hlen⟩

def hesitantRes (i count : Nat) : Except Int Nat :=
  if i % 2 = 0 then .error eintr else .ok (min 1 count)

theorem hesitantRes_bounded (i count n : Nat) (h : hesitantRes i count = .ok n) :
    n <= count := by
  rw [hesitantRes] at h
  split at h
  · cases h
  · cases h
    exact Nat.min_le_right 1 count

/-- A descriptor that is interrupted every other time, and else transfers one byte. -/
def hesitant : Descriptor :=
  ⟨hesitantRes, hesitantRes_bounded⟩

theorem fully_ends_hesitant :
    (forall stream start, exists n out d, readFully hesitant 3 stream start n = .ended out d ∧
      ReadsFully stream start 3 (callsOf hesitant 3 (readFully hesitant 3 stream start) n)
        out d) ∧
    (forall buf, exists n out sent, writeFully hesitant 3 buf n = .ended out sent ∧
      WritesFully buf 3 (callsOf hesitant 3 (writeFully hesitant 3 buf) n) out sent) :=
  fully_ends hesitant (by decide)

end MgKdb
