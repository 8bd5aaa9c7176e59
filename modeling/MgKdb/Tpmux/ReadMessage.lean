import MgKdb.Core.ReadFully
import MgKdb.Reader.Chunks
import MgKdb.Tpmux.Connect

/-!
# Reading one message from a socket

`kdb_read_message` reads the header in one loop and the payload in another.  A pass
of the first loop waits for the socket and reads; a pass of the second one reads what the
reader still asks for, hands the reader everything it has not taken, and moves what the
reader leaves to the front of the buffer.
-/

namespace MgKdb

inductive SocketOffer where
  | arrived (b : UInt8) (more : List UInt8)
  /-- The peer has closed its end, and everything it sent has been read. -/
  | ended
  | refused (err_num : Int)

structure SocketTurn where
  revts : UInt32
  offer : SocketOffer

/-- `read` with a limit; without one byte of room it answers before it looks. -/
def ioRead (n : Nat) (offer : SocketOffer) : Except Int (List UInt8) :=
  if n = 0 then .ok []
  else
    match offer with
    | .arrived b more => .ok ((b :: more).take n)
    | .ended => .ok []
    | .refused err_num => .error err_num

def place (mem : List UInt8) (off : Nat) (xs : List UInt8) : List UInt8 :=
  mem.take off ++ xs ++ mem.drop (off + xs.length)

structure ReadMessageEnv where
  addInterest : Except Int Unit
  clrInterest : Except Int Unit
  /-- The heap. -/
  canAlloc : Nat -> Bool
  /-- The storage of `ary`, as large as its capacity. -/
  storage : List UInt8
  /-- `ary.reserve(SZ_MSG_HDR)` -/
  reserved : 8 <= storage.length

inductive ReadCo where
  | header (mem : List UInt8) (tot : Nat)
  | body (mem : List UInt8) (off numNfrs : Nat) (rdr : KdbIpcMessageReader)
      (res : ReadMsgResult)
  | returned (out : Except ErrnoMsg ReadMsgResult)
  /-- An access outside of the storage. -/
  | trapped

namespace ReadCo

def requested : ReadCo -> Nat
  | header _ _ => 8
  | body mem off _ rdr _ => min (mem.length - off) rdr.getInputBytesRemaining
  | _ => 0

def answer (co : ReadCo) (turn : SocketTurn) : Except Int (List UInt8) :=
  ioRead co.requested turn.offer

theorem answer_of_requested {co : ReadCo} (h : co.requested = 0) (turn : SocketTurn) :
    co.answer turn = .ok [] :=
  if_pos h

end ReadCo

section Passes

variable (env : ReadMessageEnv)

def readMessageDone (res : ReadMsgResult) : ReadCo :=
  match env.clrInterest with
  | .error e => .returned (.error ⟨e, "Failed in EpollCtl::clr_interest"⟩)
  | .ok _ => .returned (.ok res)

/--
What follows a call of `readMsg` that was shown `hav` bytes, when the reader had
taken `pre` bytes before it.  What it leaves is moved to the front.
-/
def offered (mem : List UInt8) (hav pre : Nat)
    (out : (Bool × ReadMsgResult) × KdbIpcMessageReader) : ReadCo :=
  match out.1.2.result with
  | .trap _ => .trapped
  | _ =>
      if out.1.1 then readMessageDone env out.1.2
      else
        let rem := u64 (hav - ((out.2.getInputBytesConsumed : Int) - pre))
        if hav < rem then .trapped
        else .body (place mem 0 ((mem.take hav).drop (hav - rem))) rem 0 out.2 out.1.2

/-- The first call of `readMsg`, which is shown the header and nothing else. -/
def headerRead (mem : List UInt8) : ReadCo :=
  let out := KdbIpcMessageReader.readMsg env.canAlloc .new (mem.take 8)
    KdbIpcMessageReader.unset
  match out.1.2.result with
  | .trap _ => .trapped
  | _ =>
      if out.1.1 then readMessageDone env out.1.2
      else .body mem 0 0 out.2 out.1.2

/-- One pass of the header loop.  Every read goes to the front of the buffer. -/
def headerPass (mem : List UInt8) (tot : Nat) (turn : SocketTurn) : ReadCo :=
  if epollErr &&& turn.revts ≠ 0 then
    .returned (.error ⟨0, "Error reported via revents"⟩)
  else
    match (ReadCo.header mem tot).answer turn with
    | .error e => .returned (.error ⟨e, "Failed during read"⟩)
    | .ok xs =>
        if tot + xs.length < 8 then .header (place mem 0 xs) (tot + xs.length)
        else headerRead env (place mem 0 xs)

/-- What a pass of the payload loop does about a read that failed. -/
def bodyRefused (mem : List UInt8) (off numNfrs : Nat) (rdr : KdbIpcMessageReader)
    (res : ReadMsgResult) (revts : UInt32) (e : Int) : ReadCo :=
  if e = eagain then
    if numNfrs < 3 then
      if epollErr &&& revts ≠ 0 then .returned (.error ⟨e, "EPOLLERR detected"⟩)
      else .body mem off (numNfrs + 1) rdr res
    else
      -- the number comes from the result of add_interest, which is no error
      .returned (.error ⟨0, "Too many retries"⟩)
  else if e = eintr then
    if numNfrs < 3 then .body mem off (numNfrs + 1) rdr res
    else .returned (.error ⟨e, "Too many retries"⟩)
  else .returned (.error ⟨e, "Failed during read"⟩)

def bodyPass (mem : List UInt8) (off numNfrs : Nat) (rdr : KdbIpcMessageReader)
    (res : ReadMsgResult) (turn : SocketTurn) : ReadCo :=
  match (ReadCo.body mem off numNfrs rdr res).answer turn with
  | .error e => bodyRefused mem off numNfrs rdr res turn.revts e
  | .ok xs =>
      let mem' := place mem off xs
      let hav := off + xs.length
      offered env mem' hav rdr.getInputBytesConsumed
        (KdbIpcMessageReader.readMsg env.canAlloc rdr (mem'.take hav) res)

def readPass : ReadCo -> SocketTurn -> ReadCo
  | .header mem tot, turn => headerPass env mem tot turn
  | .body mem off numNfrs rdr res, turn => bodyPass env mem off numNfrs rdr res turn
  | co, _ => co

/-- `kdb_read_message` up to its first wait. -/
def kdbReadMessage : ReadCo :=
  match env.addInterest with
  | .error _ => .returned (.error ⟨0, "Failed in EpollCtl::add_interest"⟩)
  | .ok _ => .header env.storage 0

def readCoAt (turns : Nat -> SocketTurn) : Nat -> ReadCo
  | 0 => kdbReadMessage env
  | n + 1 => readPass env (readCoAt turns n) (turns n)

def Suspends (co : ReadCo) (turn : SocketTurn) : Prop :=
  match co with
  | .body _ _ numNfrs _ _ => co.answer turn = .error eagain ∧ numNfrs < 3
  | _ => False

/-- A pass reads a new byte, suspends until new input is signalled, or is the last. -/
def Progresses (co : ReadCo) (turn : SocketTurn) : Prop :=
  (exists b xs, co.answer turn = .ok (b :: xs)) ∨ Suspends co turn ∨
    (exists out, readPass env co turn = .returned out)

/-!
## What a pass comes to
-/

theorem readPass_header_error {mem : List UInt8} {tot : Nat} {turn : SocketTurn} {e : Int}
    (hans : (ReadCo.header mem tot).answer turn = .error e) :
    exists out, readPass env (.header mem tot) turn = .returned out := by
  rw [readPass, headerPass, hans]
  by_cases hsignal : epollErr &&& turn.revts ≠ 0
  · exact ⟨_, if_pos hsignal⟩
  · exact ⟨_, if_neg hsignal⟩

theorem readPass_header_ok {mem : List UInt8} {tot : Nat} {turn : SocketTurn}
    {xs : List UInt8} (hans : (ReadCo.header mem tot).answer turn = .ok xs)
    (hsignal : epollErr &&& turn.revts = 0) :
    readPass env (.header mem tot) turn =
      if tot + xs.length < 8 then .header (place mem 0 xs) (tot + xs.length)
      else headerRead env (place mem 0 xs) := by
  rw [readPass, headerPass, hans, if_neg (not_not.mpr hsignal)]

section Body

variable {mem : List UInt8} {off numNfrs : Nat} {rdr : KdbIpcMessageReader}
  {res : ReadMsgResult} {turn : SocketTurn}

theorem readPass_body_error {e : Int}
    (hans : (ReadCo.body mem off numNfrs rdr res).answer turn = .error e) :
    readPass env (.body mem off numNfrs rdr res) turn =
      bodyRefused mem off numNfrs rdr res turn.revts e := by
  rw [readPass, bodyPass, hans]

theorem readPass_body_ok {xs : List UInt8}
    (hans : (ReadCo.body mem off numNfrs rdr res).answer turn = .ok xs) :
    readPass env (.body mem off numNfrs rdr res) turn =
      offered env (place mem off xs) (off + xs.length) rdr.getInputBytesConsumed
        (KdbIpcMessageReader.readMsg env.canAlloc rdr
          ((place mem off xs).take (off + xs.length)) res) := by
  rw [readPass, bodyPass, hans]

theorem bodyRefused_cases (mem : List UInt8) (off numNfrs : Nat)
    (rdr : KdbIpcMessageReader) (res : ReadMsgResult) (revts : UInt32) (e : Int) :
    (exists out, bodyRefused mem off numNfrs rdr res revts e = .returned out) ∨
      ((e = eagain ∨ e = eintr) ∧ numNfrs < 3 ∧
        bodyRefused mem off numNfrs rdr res revts e =
          .body mem off (numNfrs + 1) rdr res) := by
  unfold bodyRefused
  by_cases hagain : e = eagain
  · rw [if_pos hagain]
    by_cases hfew : numNfrs < 3
    · rw [if_pos hfew]
      by_cases hsignal : epollErr &&& revts ≠ 0
      · exact Or.inl ⟨_, if_pos hsignal⟩
      · exact Or.inr ⟨Or.inl hagain, hfew, if_neg hsignal⟩
    · exact Or.inl ⟨_, if_neg hfew⟩
  · rw [if_neg hagain]
    by_cases hintr : e = eintr
    · rw [if_pos hintr]
      by_cases hfew : numNfrs < 3
      · exact Or.inr ⟨Or.inr hintr, hfew, if_pos hfew⟩
      · exact Or.inl ⟨_, if_neg hfew⟩
    · exact Or.inl ⟨_, if_neg hintr⟩

end Body

end Passes

end MgKdb
