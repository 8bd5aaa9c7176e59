import Mathlib.Data.List.Basic
import Mathlib.Data.UInt

/-!
# Logging in

`kdb_connect` writes the credentials to the socket and reads the answer, which is one
byte.  A write may take less than it is given, and the socket may be full.
-/

namespace MgKdb

structure ErrnoMsg where
  errNum : Int
  msg : String
  deriving DecidableEq, Repr

/-- `EAGAIN`, which is also `EWOULDBLOCK`. -/
def eagain : Int := 11

def epollErr : UInt32 := 0x008

/-- What a call of `write` comes to; a refused one comes with the event that ends the
wait for the socket, should there be one. -/
inductive WriteOutcome where
  | wrote (n : Nat)
  | refused (err_num : Int) (revts : UInt32)
  deriving DecidableEq, Repr

/-- What the bytes at the front of `creds` come to. -/
def login (user : List UInt8) : List UInt8 :=
  user ++ [58, 3, 0]

def creds (user : List UInt8) : List UInt8 :=
  login user ++ List.replicate (128 - (login user).length) 0

inductive WriteEnd where
  /-- The last call or the wait behind it is still going on. -/
  | pending
  | passed
  | failed (err : ErrnoMsg)
  deriving DecidableEq, Repr

/-- The ranges given to `write`, the bytes that it put on the socket, and the end. -/
structure WriteRun where
  ranges : List (Nat × Nat)
  sent : List UInt8
  result : WriteEnd
  deriving DecidableEq, Repr

/--
The loop at the label `retry`, for the outcomes of its calls.  Bytes behind the array
count as none.
-/
def writeLoop (ary : List UInt8) (len : Nat) :
    List WriteOutcome -> (off retries : Nat) -> WriteRun
  | [], off, _ => ⟨[(off, len)], [], .pending⟩
  | .wrote n :: outs, off, retries =>
      let more := if off + n < len then writeLoop ary len outs (off + n) retries
        else ⟨[], [], .passed⟩
      ⟨(off, len) :: more.ranges, (ary.drop off).take n ++ more.sent, more.result⟩
  | .refused err_num revts :: outs, off, retries =>
      if err_num = eagain then
        if retries < 3 then
          if epollErr &&& revts ≠ 0 then
            ⟨[(off, len)], [], .failed ⟨0, "EPOLLERR detected while waiting for write"⟩⟩
          else
            let more := writeLoop ary len outs off (retries + 1)
            ⟨(off, len) :: more.ranges, more.sent, more.result⟩
        else ⟨[(off, len)], [], .failed ⟨err_num, "Failed attempting to write credentials"⟩⟩
      else ⟨[(off, len)], [], .failed ⟨err_num, "Failed while writing credentials"⟩⟩

structure ConnectEnv where
  addInterest : Except Int Unit
  writes : List WriteOutcome
  modInterest : Except Int Unit
  /-- The event that ends the wait for the answer. -/
  revts : UInt32
  read : Except Int (List UInt8)
  clrInterest : Except Int Unit

def readLevel (env : ConnectEnv) : Except ErrnoMsg UInt8 :=
  match env.modInterest with
  | .error e => .error ⟨e, "Failed in EpollCtl::mod_interest"⟩
  | .ok _ =>
      if epollErr &&& env.revts ≠ 0 then
        .error ⟨0, "EPOLLERR detected while waiting for write"⟩
      else
        match env.read with
        | .error e => .error ⟨e, "Failed during read"⟩
        | .ok [lvl] =>
            match env.clrInterest with
            | .error e => .error ⟨e, "Failed in EpollCtl::clr_interest"⟩
            | .ok _ => .ok lvl
        | .ok _ => .error ⟨0, "Failed in kdb IPC-handshake"⟩

/-- The result, unless `kdb_connect` is still writing, and its use of the socket. -/
def kdbConnect (env : ConnectEnv) (user : List UInt8) :
    Option (Except ErrnoMsg UInt8) × WriteRun :=
  match env.addInterest with
  | .error e =>
      let err : ErrnoMsg := ⟨e, "Failed to EpollCtl::add_interest"⟩
      (some (.error err), ⟨[], [], .failed err⟩)
  | .ok _ =>
      let run := writeLoop (creds user) (login user).length env.writes 0 0
      match run.result with
      | .pending => (none, run)
      | .failed err => (some (.error err), run)
      | .passed => (some (readLevel env), run)

/-!
## The bytes on the socket
-/

def WriteOutcome.Possible (len : Nat) : WriteOutcome -> Prop
  | .wrote n => 0 < n ∧ n <= len
  | .refused _ _ => True

structure WritesLogin (user : List UInt8) (run : WriteRun) : Prop where
  sent : run.result = .passed -> run.sent = login user
  ranges : forall range, range ∈ run.ranges -> range.1 + range.2 <= (login user).length

def FirstWhole (len : Nat) : (retries : Nat) -> List WriteOutcome -> Prop
  | _, [] => True
  | _, .wrote n :: _ => n = len
  | retries, .refused err_num revts :: outs =>
      err_num = eagain -> retries < 3 -> epollErr &&& revts = 0 ->
        FirstWhole len (retries + 1) outs

section Loop

variable {user : List UInt8}

theorem writeLoop_ranges_ne_nil (ary : List UInt8) (len : Nat) (outs : List WriteOutcome)
    (off retries : Nat) : (off, len) ∈ (writeLoop ary len outs off retries).ranges := by
  cases outs with
  | nil => exact List.mem_singleton_self _
  | cons out outs =>
      cases out with
      | wrote n => exact List.mem_cons_self
      | refused err_num revts =>
          rw [writeLoop]
          split
          · split
            · split
              · exact List.mem_singleton_self _
              · exact List.mem_cons_self
            · exact List.mem_singleton_self _
          · exact List.mem_singleton_self _

theorem creds_take (user : List UInt8) : (creds user).take (login user).length = login user := by
  rw [creds, List.take_left]

theorem writesLogin_failed (user : List UInt8) (err : ErrnoMsg) :
    WritesLogin user ⟨[(0, (login user).length)], [], .failed err⟩ where
  sent := fun h => by cases h
  ranges := by
    intro range hrange
    rw [List.mem_singleton.mp hrange, Nat.zero_add]

theorem writesLogin_again (run : WriteRun) :
    WritesLogin user ⟨(0, (login user).length) :: run.ranges, run.sent, run.result⟩ <->
      WritesLogin user run := by
  constructor
  · exact fun h => ⟨h.sent, fun range hrange => h.ranges range (List.mem_cons_of_mem _ hrange)⟩
  · refine fun h => ⟨h.sent, fun range hrange => ?_⟩
    rcases List.mem_cons.mp hrange with rfl | hmore
    · exact Nat.le_of_eq (Nat.zero_add _)
    · exact h.ranges range hmore

theorem writeLoop_iff (outs : List WriteOutcome) :
    forall retries, (forall out, out ∈ outs -> out.Possible (login user).length) ->
      (WritesLogin user (writeLoop (creds user) (login user).length outs 0 retries) <->
        FirstWhole (login user).length retries outs) := by
  induction outs with
  | nil =>
      intro retries _
      refine ⟨fun _ => trivial, fun _ => ⟨fun h => (by cases h), fun range hrange => ?_⟩⟩
      rw [List.mem_singleton.mp hrange, Nat.zero_add]
  | cons out outs ih =>
      intro retries hpossible
      have hmore := ih (retries + 1)
        (fun out hout => hpossible out (List.mem_cons_of_mem _ hout))
      cases out with
      | wrote n =>
          have hn : 0 < n ∧ n <= (login user).length := hpossible _ List.mem_cons_self
          rw [FirstWhole, writeLoop]
          simp only [Nat.zero_add]
          constructor
          · -- a call behind a short write asks for bytes behind the login
            intro h
            by_contra hshort
            rw [if_pos (by omega)] at h
            have hrange := h.ranges _ (List.mem_cons_of_mem _
              (writeLoop_ranges_ne_nil (creds user) (login user).length outs n retries))
            simp only at hrange
            omega
          · intro hall
            rw [hall, if_neg (Nat.lt_irrefl _)]
            refine ⟨fun _ => ?_, fun range hrange => ?_⟩
            · rw [List.drop_zero, creds_take, List.append_nil]
            · rw [List.mem_singleton.mp hrange, Nat.zero_add]
      | refused err_num revts =>
          rw [FirstWhole, writeLoop]
          by_cases herr : err_num = eagain
          · by_cases hretries : retries < 3
            · by_cases hevent : epollErr &&& revts = 0
              · rw [if_pos herr, if_pos hretries, if_neg (not_not.mpr hevent)]
                simp only
                rw [writesLogin_again, hmore]
                exact ⟨fun h _ _ _ => h, fun h => h herr hretries hevent⟩
              · rw [if_pos herr, if_pos hretries, if_pos hevent]
                exact ⟨fun _ _ _ hno => absurd hno hevent, fun _ => writesLogin_failed _ _⟩
            · rw [if_pos herr, if_neg hretries]
              exact ⟨fun _ _ hno => absurd hno hretries, fun _ => writesLogin_failed _ _⟩
          · rw [if_neg herr]
            exact ⟨fun _ hno => absurd hno herr, fun _ => writesLogin_failed _ _⟩

end Loop

theorem kdbConnect_run {env : ConnectEnv} (hadd : env.addInterest = .ok ())
    (user : List UInt8) :
    (kdbConnect env user).2 =
      writeLoop (creds user) (login user).length env.writes 0 0 := by
  rw [kdbConnect, hadd]
  simp only
  split <;> rfl

/--
What is put on the socket is the login, and no write is given a range behind it, exactly
when the first write that is not refused takes the whole of it.
-/
theorem kdbConnect_writesLogin (user : List UInt8) (env : ConnectEnv)
    (hpossible : forall out, out ∈ env.writes -> out.Possible (login user).length) :
    WritesLogin user (kdbConnect env user).2 <->
      (env.addInterest = .ok () -> FirstWhole (login user).length 0 env.writes) := by
  have hloop := writeLoop_iff env.writes 0 hpossible
  cases hadd : env.addInterest with
  | error e =>
      have hrun : (kdbConnect env user).2 =
          ⟨[], [], .failed ⟨e, "Failed to EpollCtl::add_interest"⟩⟩ := by
        rw [kdbConnect, hadd]
      rw [hrun]
      refine ⟨fun _ h => (by cases h), fun _ => ⟨fun h => (by cases h), fun range hrange => ?_⟩⟩
      cases hrange
  | ok u =>
      rw [kdbConnect_run hadd, hloop]
      exact ⟨fun h _ => h, fun h => h rfl⟩

/-- A socket that is full at first, and then takes the whole login. -/
def patientEnv (writes : List WriteOutcome) : ConnectEnv :=
  ⟨.ok (), writes, .ok (), 1, .ok [3], .ok ()⟩

theorem kdbConnect_writesLogin_refused :
    WritesLogin [117] (kdbConnect (patientEnv [.refused 11 4, .refused 11 4, .wrote 4])
      [117]).2 :=
  (kdbConnect_writesLogin [117] (patientEnv [.refused 11 4, .refused 11 4, .wrote 4])
    (by simp [patientEnv, WriteOutcome.Possible, login])).mpr (by
      intro _ _ _ _ _ _ _
      rfl)

/--
The user `"ab"`, of whose login two bytes are written first: the second write is given
five bytes where three are left, and so does send two bytes of the array behind the login.
-/
theorem kdbConnect_writesLogin_short :
    (kdbConnect (patientEnv [.wrote 2, .wrote 5]) [97, 98]).2 =
        ⟨[(0, 5), (2, 5)], [97, 98, 58, 3, 0, 0, 0], .passed⟩ ∧
      ¬ WritesLogin [97, 98] (kdbConnect (patientEnv [.wrote 2, .wrote 5]) [97, 98]).2 := by
  have hrun : (kdbConnect (patientEnv [.wrote 2, .wrote 5]) [97, 98]).2 =
      ⟨[(0, 5), (2, 5)], [97, 98, 58, 3, 0, 0, 0], .passed⟩ := by decide
  refine ⟨hrun, fun h => ?_⟩
  rw [hrun] at h
  exact absurd (h.sent rfl) (by decide)

end MgKdb
