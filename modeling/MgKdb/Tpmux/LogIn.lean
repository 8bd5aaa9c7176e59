import MgKdb.Tpmux.TcpConnect

/-!
# The coroutine that logs in

`kdb_connect` has two awaiters, one for each of the two things it waits for.  It
does not own the socket, which stays open whatever happens.
-/

namespace MgKdb

open Foundation

inductive KdbConnectAt where
  | retry (off retries : Nat)
  /-- The socket was full. -/
  | blocked (off retries : Nat)
  | answer

namespace KdbConnect

abbrev Code :=
  Segment IoCall IoCall.Answer KdbConnectAt (Except ErrnoMsg UInt8)

def fails (errNum : Int) (msg : String) : Code :=
  .call .leave fun _ => .ret (.error ⟨errNum, msg⟩)

def entry (fd : Nat) : Code :=
  .call .awaiter fun awaiter =>
    .call (.addInterest fd epollOut awaiter) fun result =>
      match result with
      | .error e => fails e "Failed to EpollCtl::add_interest"
      | .ok _ => .goto (.retry 0 0)

def awaitAnswer (fd : Nat) : Code :=
  .call .leave fun _ =>
    .call .awaiter fun awaiter =>
      .call (.modInterest fd epollIn awaiter) fun result =>
        match result with
        | .error e => fails e "Failed in EpollCtl::mod_interest"
        | .ok _ => .wait .answer

def retry (fd : Nat) (user : List UInt8) (off retries : Nat) : Code :=
  let len := (login user).length
  .call (.write fd (((creds user).drop off).take len)) fun io_res =>
    match io_res with
    | .error err_num =>
        if err_num = eagain then
          if retries < 3 then .wait (.blocked off (retries + 1))
          else fails err_num "Failed attempting to write credentials"
        else fails err_num "Failed while writing credentials"
    | .ok n => if off + n < len then .goto (.retry (off + n) retries) else awaitAnswer fd

def answered (fd : Nat) (revts : UInt32) : Code :=
  if epollErr &&& revts ≠ 0 then fails 0 "EPOLLERR detected while waiting for write"
  else
    .call .leave fun _ =>
      .call (.read fd 1) fun io_res =>
        match io_res with
        | .error e => .ret (.error ⟨e, "Failed during read"⟩)
        | .ok [ipc_lvl] =>
            .call (.clrInterest fd) fun result =>
              match result with
              | .error e => .ret (.error ⟨e, "Failed in EpollCtl::clr_interest"⟩)
              | .ok _ => .ret (.ok ipc_lvl)
        | .ok _ => .ret (.error ⟨0, "Failed in kdb IPC-handshake"⟩)

end KdbConnect

def kdbConnectCo (fd : Nat) (user : List UInt8) :
    Coroutine IoCall IoCall.Answer UInt32 (Except ErrnoMsg UInt8) where
  State := KdbConnectAt
  entry := KdbConnect.entry fd
  label
    | .retry off retries => KdbConnect.retry fd user off retries
    -- there are no other loops
    | .blocked _ _ => .undefined
    | .answer => .undefined
  resume
    | .blocked off retries, revts =>
        if epollErr &&& revts ≠ 0 then
          KdbConnect.fails 0 "EPOLLERR detected while waiting for write"
        else .goto (.retry off retries)
    | .answer, revts => KdbConnect.answered fd revts
    | .retry _ _, _ => .undefined

/-!
## What is left behind
-/

namespace KdbConnect

/--
The socket is all there is, before and after.  Behind every error but the first one epoll
still has the address of an awaiter that is gone.
-/
inductive Leaves (fd : Nat) : Except ErrnoMsg UInt8 -> Holding -> Prop where
  | level (ipc_lvl : UInt8) : Leaves fd (.ok ipc_lvl) (.only fd none none)
  | unwatched (e : Int) :
      Leaves fd (.error ⟨e, "Failed to EpollCtl::add_interest"⟩) (.only fd none none)
  | dangling (e : Int) (msg : String) (a : Nat) (h : msg ≠ "Failed to EpollCtl::add_interest") :
      Leaves fd (.error ⟨e, msg⟩) (.only fd (some a) none)

def Watches (fd : Nat) (r : Holding) : Prop :=
  exists a, r = .only fd (some a) (some a)

def contract (fd : Nat) : Contract KdbConnectAt (Except ErrnoMsg UInt8) Holding where
  ret := Leaves fd
  wait
    | .retry _ _, _ => False
    | _, r => Watches fd r
  goto
    | .retry _ _, r => Watches fd r
    | _, _ => False
  stray := fun _ => False

variable {fd : Nat}

theorem meets_fails {e : Int} {msg : String} {a : Nat} {aw : Option Nat}
    (h : msg ≠ "Failed to EpollCtl::add_interest") :
    (fails e msg).Meets ioEffects (contract fd) (.only fd (some a) aw) :=
  meets_leave (Leaves.dangling e msg a h)

theorem meets_entry : (entry fd).Meets ioEffects (contract fd) (.only fd none none) := by
  refine meets_awaiter fun a => ?_
  refine meets_addInterest (fun e => ?_) ⟨a, rfl⟩
  exact meets_leave (Leaves.unwatched e)

theorem meets_retry (user : List UInt8) (off retries a : Nat) :
    (retry fd user off retries).Meets ioEffects (contract fd) (.only fd (some a) (some a)) := by
  refine meets_plain (one_allowed rfl) (fun _ => rfl) fun io_res => ?_
  cases io_res with
  | error err_num =>
      dsimp only
      split
      · split
        · exact ⟨a, rfl⟩
        · exact meets_fails (by decide)
      · exact meets_fails (by decide)
  | ok n =>
      dsimp only
      split
      · exact ⟨a, rfl⟩
      · refine meets_leave ?_
        refine meets_awaiter fun a' => ?_
        exact meets_modInterest (fun e => meets_fails (by decide)) ⟨a', rfl⟩

theorem meets_answered (a : Nat) (revts : UInt32) :
    (answered fd revts).Meets ioEffects (contract fd) (.only fd (some a) (some a)) := by
  unfold answered
  split
  · exact meets_fails (by decide)
  · refine meets_leave ?_
    refine meets_plain (one_allowed rfl) (fun _ => rfl) fun io_res => ?_
    rcases io_res with e | _ | ⟨ipc_lvl, _ | ⟨b, more⟩⟩
    · exact Leaves.dangling e _ a (by decide)
    · exact Leaves.dangling 0 _ a (by decide)
    · exact meets_clrInterest (fun e => Leaves.dangling e _ a (by decide)) (Leaves.level ipc_lvl)
    · exact Leaves.dangling 0 _ a (by decide)

theorem keeps (fd : Nat) (user : List UInt8) :
    (kdbConnectCo fd user).Keeps ioEffects (fun r => r = .only fd none none) (contract fd) where
  entry := by
    rintro _ rfl
    exact meets_entry
  label := by
    rintro (⟨off, retries⟩ | _ | _) r hr
    · rcases hr with ⟨a, rfl⟩
      exact meets_retry user off retries a
    · exact hr.elim
    · exact hr.elim
  resume := by
    rintro (_ | ⟨off, retries⟩ | _) revts r hr _
    · exact hr.elim
    · rcases hr with ⟨a, rfl⟩
      change Segment.Meets ioEffects (contract fd)
        (if epollErr &&& revts ≠ 0 then fails 0 "EPOLLERR detected while waiting for write"
          else .goto (.retry off retries)) _
      split
      · exact meets_fails (by decide)
      · exact ⟨a, rfl⟩
    · rcases hr with ⟨a, rfl⟩
      exact meets_answered a revts

end KdbConnect

end MgKdb
