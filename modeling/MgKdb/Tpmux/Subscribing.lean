import MgKdb.Tpmux.Reading
import MgKdb.Tpmux.Response

/-!
# The coroutine that subscribes

`kdb_subscribe_and_replay` sends its request, awaits `kdb_read_message` for the
answer and replays the journal that the answer names.  Where it fails it closes the
socket.  It never closes the journal.
-/

namespace MgKdb

open Foundation

structure SubRequest where
  res : WriteResult
  bytes : List UInt8

/-- `kdb_subscribe_and_replay` before the answer; `wrt` bytes are written. -/
inductive SendRequestAt where
  | writing (wrt : Nat)

inductive ReplayResult where
  | ok (counts : TpMsgCounts)
  | error (err : ErrnoMsg)
  /-- `std::out_of_range` from the path's first character, or `std::format_error`. -/
  | threw

namespace Subscribing

def closes {state : Type} (fd : Nat) (err : ErrnoMsg) :
    Segment IoCall IoCall.Answer state ReplayResult :=
  .call (.close fd) fun _ => .ret (.error err)

def sendRequest (fd : Nat) (request : SubRequest) :
    Coroutine IoCall IoCall.Answer UInt32 (Except ErrnoMsg Unit) where
  State := SendRequestAt
  entry :=
    if request.res ≠ .ok then
      .call (.close fd) fun _ => .ret (.error ⟨0, "Failed to serialise subscribe-message"⟩)
    else .goto (.writing 0)
  label
    | .writing wrt =>
        .call (.write fd (request.bytes.drop wrt)) fun wr_res =>
          match wr_res with
          | .error _ =>
              .call (.close fd) fun _ => .ret (.error ⟨0, "Failure reported during write"⟩)
          | .ok n =>
              if wrt + n < request.bytes.length then .goto (.writing (wrt + n)) else .ret (.ok ())
  resume := fun _ _ => .undefined

/-- The replay of the journal at `src_path`. -/
def replay (fd : Nat) (counts : TpMsgCounts) (msg_count : Int) (src_path : List UInt8) :
    Segment IoCall IoCall.Answer PEmpty ReplayResult :=
  .call (.initJournal src_path) fun jnl_res =>
    match jnl_res with
    | .error _ => closes fd ⟨0, "Failed while reading remote journal"⟩
    | .ok src_fd =>
        .call (.filterMsgs src_fd msg_count.toNat) fun res_ps =>
          match res_ps with
          | .error _ => closes fd ⟨0, ReadMessage.filterFailed⟩
          | .ok (first, second) =>
              .ret (.ok
                { numMsgTotal := first.toUInt32
                  numMsgIncluded := counts.numMsgIncluded + second.toUInt32 })

def answered (fd : Nat) (counts : TpMsgCounts) (rd_msg_res : Except ErrnoMsg ReadMsgResult) :
    Segment IoCall IoCall.Answer PEmpty ReplayResult :=
  match rd_msg_res with
  | .error err => closes fd err
  | .ok rd =>
      if rd.msgTyp ≠ KdbMsgType.response.i8 then closes fd ⟨0, "Bad repsonse struture"⟩
      else
        match rd.message with
        | none => .undefined
        | some sub =>
            match checkResponse .response sub counts with
            | .rejected err => closes fd err
            | .opens msg_count src_path => replay fd counts msg_count src_path
            | .threw => .ret .threw
            | .badIndex => .undefined
            | .badCast => .undefined
            | .badPointer => .undefined

end Subscribing

def Subscribing.awaitAnswer (env : ReadMessageEnv) (fd : Nat) (counts : TpMsgCounts) :
    Except ErrnoMsg Unit -> Coroutine IoCall IoCall.Answer UInt32 ReplayResult
  | .error err => .straight (.ret (.error err))
  | .ok _ =>
      (kdbReadMessageCo env fd).bind fun rd_msg_res => .straight (answered fd counts rd_msg_res)

def kdbSubscribeAndReplayCo (env : ReadMessageEnv) (fd : Nat) (request : SubRequest)
    (counts : TpMsgCounts) : Coroutine IoCall IoCall.Answer UInt32 ReplayResult :=
  (Subscribing.sendRequest fd request).bind (Subscribing.awaitAnswer env fd counts)

namespace Subscribing

/-!
## What is left behind
-/

abbrev journalOnly (src_fd : Nat) : FdTable Nat :=
  (Holding.only src_fd none none).fds

/--
An error closes the socket.  The journal's descriptor is left once its messages have been
filtered, whatever came of that.
-/
inductive Leaves (fd : Nat) : ReplayResult -> Holding -> Prop where
  | replayed (counts : TpMsgCounts) (src_fd : Nat) (h : src_fd ≠ fd) :
      Leaves fd (.ok counts) (.one (journalOnly src_fd) fd none none false)
  | threw : Leaves fd .threw (.only fd none none)
  | closed (err : ErrnoMsg) (h : err.msg ≠ ReadMessage.filterFailed) :
      Leaves fd (.error err) .none
  | journal (e : Int) (src_fd : Nat) :
      Leaves fd (.error ⟨e, ReadMessage.filterFailed⟩) ⟨journalOnly src_fd, none, false⟩

inductive Sent (fd : Nat) : Except ErrnoMsg Unit -> Holding -> Prop where
  | sent : Sent fd (.ok ()) (.only fd none none)
  | failed (err : ErrnoMsg) (h : err.msg ≠ ReadMessage.filterFailed) : Sent fd (.error err) .none

def sendContract (fd : Nat) : Contract SendRequestAt (Except ErrnoMsg Unit) Holding where
  ret := Sent fd
  wait := fun _ _ => False
  goto := fun _ r => r = .only fd none none
  stray := fun _ => False

def straightContract (fd : Nat) : Contract PEmpty ReplayResult Holding where
  ret := Leaves fd
  wait := fun s => s.elim
  goto := fun s => s.elim
  stray := fun _ => False

variable {fd : Nat}

theorem keeps_sendRequest (fd : Nat) (request : SubRequest) :
    (sendRequest fd request).Keeps ioEffects (fun r => r = .only fd none none)
      (sendContract fd) where
  entry := by
    rintro _ rfl
    change Segment.Meets ioEffects (sendContract fd) (if request.res ≠ .ok then _ else _) _
    split
    · exact meets_close rfl fun _ => Sent.failed _ (by decide)
    · rfl
  label := by
    rintro ⟨wrt⟩ _ rfl
    refine meets_plain (one_allowed rfl) (fun _ => rfl) fun wr_res => ?_
    cases wr_res with
    | error e => exact meets_close rfl fun _ => Sent.failed _ (by decide)
    | ok n =>
        dsimp only
        split
        · rfl
        · exact Sent.sent
  resume := fun _ _ _ hwait _ => hwait.elim

theorem meets_closes {w : Option Nat} {err : ErrnoMsg} (h : err.msg ≠ ReadMessage.filterFailed) :
    (closes fd err).Meets ioEffects (straightContract fd) (.only fd w none) :=
  meets_close rfl fun _ => Leaves.closed err h

theorem checkResponse_rejected {msg_typ : KdbMsgType} {sub : KdbBase} {counts : TpMsgCounts}
    {err : ErrnoMsg} (h : checkResponse msg_typ sub counts = .rejected err) :
    err.msg ≠ ReadMessage.filterFailed := by
  have hbad : forall err, badStructure = .rejected err -> err.msg ≠ ReadMessage.filterFailed := by
    intro err hend
    cases hend
    decide
  have hopen : forall n path, openPath n path ≠ .rejected err := by
    intro n path hend
    unfold openPath at hend
    repeat' split at hend
    all_goals cases hend
  have hother : forall sub, notList sub = .rejected err -> err.msg ≠ ReadMessage.filterFailed := by
    intro sub hend
    unfold notList at hend
    split at hend
    · exact hbad err hend
    all_goals cases hend
  have hcount : forall vals, checkCount vals counts = .rejected err ->
      err.msg ≠ ReadMessage.filterFailed := by
    intro vals hend
    unfold checkCount at hend
    split at hend
    · split at hend
      · cases hend
        decide
      · split at hend
        · cases hend
          decide
        · exact absurd hend (hopen _ _)
    · cases hend
  unfold checkResponse at h
  split at h
  · exact hbad err h
  · split at h
    · unfold checkList at h
      split at h
      · cases h
      · split at h
        · exact hbad err h
        · split at h
          · exact hbad err h
          · split at h
            · split at h
              · exact hbad err h
              · split at h
                · exact hbad err h
                · exact hcount _ h
            · cases h
    · exact hother _ h

theorem meets_replay (counts : TpMsgCounts) (msg_count : Int) (src_path : List UInt8) :
    (replay fd counts msg_count src_path).Meets ioEffects (straightContract fd)
      (.only fd none none) := by
  refine meets_initJournal (fun e => meets_closes (by decide)) fun src_fd hne _ => ?_
  have hrest : journalOnly src_fd fd = none := Function.update_of_ne hne.symm _ _
  refine meets_plain ?_ (fun _ => rfl) fun res_ps => ?_
  · intro fd' hfd'
    cases hfd'
    change Function.update (journalOnly src_fd) fd (some none) src_fd ≠ none
    rw [Function.update_of_ne hne]
    change Function.update (fun _ => none : FdTable Nat) src_fd (some none) src_fd ≠ none
    rw [Function.update_self]
    exact Option.some_ne_none none
  · cases res_ps with
    | error e => exact meets_close hrest fun _ => Leaves.journal 0 src_fd
    | ok counts' => exact Leaves.replayed _ src_fd hne

theorem meets_answered (counts : TpMsgCounts) (rd_msg_res : Except ErrnoMsg ReadMsgResult)
    (r : Holding) (hr : ReadMessage.Leaves fd rd_msg_res r) :
    (answered fd counts rd_msg_res).Meets ioEffects (straightContract fd) r := by
  cases hr with
  | failed e msg w h => exact meets_closes h
  | message rd =>
      unfold answered
      dsimp only
      split
      · exact meets_closes (by decide)
      · split
        · trivial
        · split
          · rename_i hrejected
            exact meets_closes (checkResponse_rejected hrejected)
          · exact meets_replay counts _ _
          · exact Leaves.threw
          · trivial
          · trivial
          · trivial

def awaitContract (env : ReadMessageEnv) (fd : Nat) (counts : TpMsgCounts) :
    (sent : Except ErrnoMsg Unit) ->
      Contract (awaitAnswer env fd counts sent).State ReplayResult Holding
  | .error _ => straightContract fd
  | .ok _ =>
      Coroutine.bindContract (ReadMessage.contract fd) (fun _ => straightContract fd) (Leaves fd)
        (fun _ => False)

def contract (env : ReadMessageEnv) (fd : Nat) (request : SubRequest) (counts : TpMsgCounts) :
    Contract (kdbSubscribeAndReplayCo env fd request counts).State ReplayResult Holding :=
  Coroutine.bindContract (sendContract fd) (awaitContract env fd counts) (Leaves fd)
    (fun _ => False)

theorem keeps (env : ReadMessageEnv) (fd : Nat) (request : SubRequest) (counts : TpMsgCounts) :
    (kdbSubscribeAndReplayCo env fd request counts).Keeps ioEffects
      (fun r => r = .only fd none none) (contract env fd request counts) := by
  refine (keeps_sendRequest fd request).bind (fun sent => ?_) (fun sent res r h => ?_)
    (fun _ h => h) (fun sent r h => ?_)
  · cases sent with
    | error err =>
        refine Coroutine.keeps_straight fun r hr => ?_
        cases hr with
        | failed _ h => exact Leaves.closed err h
    | ok u =>
        have hpre : forall r, (sendContract fd).ret (.ok u) r -> r = .only fd none none := by
          intro r hr
          cases hr
          rfl
        refine Coroutine.Keeps.imp hpre ?_
        refine (ReadMessage.keeps env fd).bind (fun rd_msg_res => ?_) (fun _ _ _ h => h)
          (fun _ h => h) (fun _ _ h => h)
        exact Coroutine.keeps_straight fun r hr => meets_answered counts rd_msg_res r hr
  · cases sent <;> exact h
  · cases sent <;> exact h

end Subscribing

end MgKdb
