import MgKdb.Core.ReadFully
import MgKdb.Tpmux.LogIn
import MgKdb.Tpmux.RecvTcpMsgs

/-!
# The coroutine that receives

`kdb_read_tcp_messages` runs until its socket fails.  When a write to the journal
fails it closes the socket and goes on, so that its next wait is for a descriptor that is
not there any more.
-/

namespace MgKdb

open Foundation

/-- The cuts of `kdb_read_tcp_messages`, which are the heads of its two loops. -/
inductive ReceiveAt where
  | outer (st : RecvState)
  | inner (st : RecvState)

inductive ReceiveResult where
  | error (err : ErrnoMsg)
  /-- The return value of `handle_close`. -/
  | closed
  /-- `std::bad_expected_access` -/
  | threw
  deriving DecidableEq, Repr

namespace Receiving

abbrev Code :=
  Segment IoCall IoCall.Answer ReceiveAt ReceiveResult

/-- `handle_close`, before other code. -/
def handleClose (fd : Nat) (k : Code) : Code :=
  .call (.clrInterest fd) fun _ => .call (.close fd) fun _ => k

def ends (res : ReceiveResult) : Code :=
  .call .leave fun _ => .ret res

def entry (fd : Nat) (counts : TpMsgCounts) : Code :=
  .call .awaiter fun awaiter =>
    .call (.addInterest fd epollIn awaiter) fun result =>
      match result with
      | .error e => ends (.error ⟨e, "Failed in EpollCtl::add_interest"⟩)
      | .ok _ => .wait (.outer (recvStart counts))

def received (fd : Nat) (st : RecvState) (rev : UInt32) : Code :=
  if rev &&& epollErr ≠ 0 then ends (.error ⟨0, "error signal from epoll-revents"⟩)
  else
    .call (.read fd (readRoom st)) fun io_res =>
      match io_res with
      | .error e =>
          if e = eagain then ends .threw
          else if e = eintr then .wait (.outer st)
          else handleClose fd (ends .closed)
      | .ok [] => handleClose fd (ends .closed)
      | .ok (b :: more) => .goto (.inner { st with ary := st.ary ++ b :: more })

def compacts (fd : Nat) (st : RecvState) : Code :=
  match compact st with
  | (st', none) => .wait (.outer st')
  | (_, some _) => handleClose fd (ends .closed)

def turn (fd : Nat) (tbl_names : List (List UInt8)) (st : RecvState) : Code :=
  if st.wrOff = st.rdOff then compacts fd st
  else if st.wrOff < st.rdOff then .undefined
  else
    match recvTurn tbl_names st with
    | .next st' none => .goto (.inner st')
    | .next st' (some payload) =>
        .call (.writeJournal payload) fun io_res =>
          match io_res with
          | .error _ => handleClose fd (.goto (.inner st'))
          | .ok _ => .goto (.inner st')
    | .wait => compacts fd st
    | .stop .closed => handleClose fd (ends .closed)
    | .stop .hung => .goto (.inner st)
    | .stop .failed => .undefined
    | .stop .threw => .undefined
    | .stop .undefined => .undefined

end Receiving

def kdbReadTcpMessagesCo (fd : Nat) (tbl_names : List (List UInt8)) (counts : TpMsgCounts) :
    Coroutine IoCall IoCall.Answer UInt32 ReceiveResult where
  State := ReceiveAt
  entry := Receiving.entry fd counts
  label
    | .inner st => Receiving.turn fd tbl_names st
    -- the outer loop begins with its wait
    | .outer _ => .undefined
  resume
    | .outer st, rev => Receiving.received fd st rev
    | .inner _, _ => .undefined

/-!
## What is left behind
-/

namespace Receiving

/-- An error or an exception leaves the socket open, and mostly with an awaiter that is gone. -/
inductive Leaves (rest : FdTable Nat) (fd : Nat) : ReceiveResult -> Holding -> Prop where
  | closed : Leaves rest fd .closed ⟨rest, none, false⟩
  | unwatched (e : Int) : Leaves rest fd (.error ⟨e, "Failed in EpollCtl::add_interest"⟩)
      (.one rest fd none none false)
  | signal (e : Int) (a : Nat) : Leaves rest fd (.error ⟨e, "error signal from epoll-revents"⟩)
      (.one rest fd (some a) none false)
  | threw (a : Nat) : Leaves rest fd .threw (.one rest fd (some a) none false)

/-- The socket is watched, or it was closed because a write to the journal had failed. -/
inductive Open (rest : FdTable Nat) (fd : Nat) : Holding -> Prop where
  | watched (a : Nat) : Open rest fd (.one rest fd (some a) (some a) false)
  | lost (a : Nat) : Open rest fd ⟨rest, some a, true⟩

def contract (rest : FdTable Nat) (fd : Nat) : Contract ReceiveAt ReceiveResult Holding where
  ret := Leaves rest fd
  wait
    | .outer _, r => Open rest fd r
    | .inner _, _ => False
  goto
    | .inner _, r => Open rest fd r
    | .outer _, _ => False
  stray := fun r => r.jnlFailed = true

variable {rest : FdTable Nat} {fd : Nat}

theorem meets_handleClose (hrest : rest fd = none) {w aw : Option Nat} {jf : Bool} {k : Code}
    (hk : k.Meets ioEffects (contract rest fd) ⟨rest, aw, jf⟩) :
    (handleClose fd k).Meets ioEffects (contract rest fd) (.one rest fd w aw jf) :=
  meets_clrInterest (fun _ => meets_close hrest fun _ => hk) (meets_close hrest fun _ => hk)

theorem meets_handleClose_lost (hrest : rest fd = none) {aw : Option Nat} (k : Code) :
    (handleClose fd k).Meets ioEffects (contract rest fd) ⟨rest, aw, true⟩ := by
  refine ⟨fun hallowed => absurd hrest (hallowed fd rfl), fun _ => ?_⟩
  rfl

theorem meets_handleClose_open (hrest : rest fd = none) {r : Holding} (hr : Open rest fd r) :
    (handleClose fd (ends .closed)).Meets ioEffects (contract rest fd) r := by
  cases hr with
  | watched a => exact meets_handleClose hrest (meets_leave Leaves.closed)
  | lost a => exact meets_handleClose_lost hrest _

theorem meets_compacts (hrest : rest fd = none) (st : RecvState) {r : Holding}
    (hr : Open rest fd r) : (compacts fd st).Meets ioEffects (contract rest fd) r := by
  unfold compacts
  split
  · exact hr
  · exact meets_handleClose_open hrest hr

theorem meets_turn (hrest : rest fd = none) (tbl_names : List (List UInt8)) (st : RecvState)
    {r : Holding} (hr : Open rest fd r) :
    (turn fd tbl_names st).Meets ioEffects (contract rest fd) r := by
  unfold turn
  split
  · exact meets_compacts hrest st hr
  · split
    · trivial
    · split
      · exact hr
      · rename_i st' payload _
        refine Segment.meets_call (allowed_of_target rfl) fun io_res _ => ?_
        cases io_res with
        | ok n => exact hr
        | error e =>
            cases hr with
            | watched a => exact meets_handleClose hrest (Open.lost a)
            | lost a => exact meets_handleClose_lost hrest _
      · exact meets_compacts hrest st hr
      · exact meets_handleClose_open hrest hr
      · exact hr
      · trivial
      · trivial
      · trivial

theorem meets_received (hrest : rest fd = none) (st : RecvState) (rev : UInt32) (a : Nat) :
    (received fd st rev).Meets ioEffects (contract rest fd)
      (.one rest fd (some a) (some a) false) := by
  unfold received
  split
  · exact meets_leave (Leaves.signal 0 a)
  · refine meets_plain (one_allowed rfl) (fun _ => rfl) fun io_res => ?_
    rcases io_res with e | _ | ⟨b, more⟩
    · dsimp only
      split
      · exact meets_leave (Leaves.threw a)
      · split
        · exact Open.watched a
        · exact meets_handleClose hrest (meets_leave Leaves.closed)
    · exact meets_handleClose hrest (meets_leave Leaves.closed)
    · exact Open.watched a

theorem not_wakes_lost (hrest : forall fd a, rest fd ≠ some (some a)) (aw : Option Nat)
    (jf : Bool) :
    ¬ ioEffects.Wakes ⟨rest, aw, jf⟩ := by
  rintro ⟨fd, a, hfd, _⟩
  exact hrest fd a hfd

theorem keeps (hrest : rest fd = none) (hunwatched : forall fd a, rest fd ≠ some (some a))
    (tbl_names : List (List UInt8)) (counts : TpMsgCounts) :
    (kdbReadTcpMessagesCo fd tbl_names counts).Keeps ioEffects
      (fun r => r = .one rest fd none none false) (contract rest fd) where
  entry := by
    rintro _ rfl
    refine meets_awaiter fun a => ?_
    exact meets_addInterest (fun e => meets_leave (Leaves.unwatched e)) (Open.watched a)
  label := by
    rintro (st | st) r hr
    · exact hr.elim
    · exact meets_turn hrest tbl_names st hr
  resume := by
    rintro (st | st) rev r hr hwakes
    · cases hr with
      | watched a => exact meets_received hrest st rev a
      | lost a => exact absurd hwakes (not_wakes_lost hunwatched _ _)
    · exact hr.elim

end Receiving

end MgKdb
