import MgKdb.Tpmux.LogIn
import MgKdb.Tpmux.ReadMessage

/-!
# The coroutine that reads one message

`kdb_read_message` has one awaiter for all its waits.  The reader's part in it, and
what is done about the bytes, is that of the passes.
-/

namespace MgKdb

open Foundation

inductive ReadMessageAt where
  | header (mem : List UInt8) (tot : Nat)
  | body (mem : List UInt8) (off numNfrs : Nat) (rdr : KdbIpcMessageReader)
      (res : ReadMsgResult)
  /-- The read was refused with the number `e`. -/
  | blocked (mem : List UInt8) (off numNfrs : Nat) (rdr : KdbIpcMessageReader)
      (res : ReadMsgResult) (e : Int)

namespace ReadMessage

abbrev Code :=
  Segment IoCall IoCall.Answer ReadMessageAt (Except ErrnoMsg ReadMsgResult)

def fails (errNum : Int) (msg : String) : Code :=
  .call .leave fun _ => .ret (.error ⟨errNum, msg⟩)

def entry (fd : Nat) (storage : List UInt8) : Code :=
  .call .awaiter fun awaiter =>
    .call (.addInterest fd epollIn awaiter) fun result =>
      match result with
      | .error _ => fails 0 "Failed in EpollCtl::add_interest"
      | .ok _ => .wait (.header storage 0)

def finish (fd : Nat) (res : ReadMsgResult) : Code :=
  .call (.clrInterest fd) fun result =>
    match result with
    | .error e => fails e "Failed in EpollCtl::clr_interest"
    | .ok _ => .call .leave fun _ => .ret (.ok res)

/-- The reader's turn is over; it was told that the interest can be cleared. -/
def goOn (fd : Nat) : ReadCo -> Code
  | .header mem tot => .wait (.header mem tot)
  | .body mem off numNfrs rdr res => .goto (.body mem off numNfrs rdr res)
  | .returned (.ok res) => finish fd res
  | .returned (.error err) => fails err.errNum err.msg
  | .trapped => .undefined

variable (env : ReadMessageEnv)

def headerPass (fd : Nat) (mem : List UInt8) (tot : Nat) (rev : UInt32) : Code :=
  if epollErr &&& rev ≠ 0 then fails 0 "Error reported via revents"
  else
    .call (.read fd 8) fun io_res =>
      match io_res with
      | .error e => fails e "Failed during read"
      | .ok xs =>
          if tot + xs.length < 8 then .wait (.header (place mem 0 xs) (tot + xs.length))
          else goOn fd (headerRead { env with clrInterest := .ok () } (place mem 0 xs))

def bodyPass (fd : Nat) (mem : List UInt8) (off numNfrs : Nat) (rdr : KdbIpcMessageReader)
    (res : ReadMsgResult) : Code :=
  .call (.read fd (min (mem.length - off) rdr.getInputBytesRemaining)) fun io_res =>
    match io_res with
    | .error e =>
        if e = eagain then
          if numNfrs < 3 then .wait (.blocked mem off (numNfrs + 1) rdr res e)
          else fails 0 "Too many retries"
        else if e = eintr then
          if numNfrs < 3 then .goto (.body mem off (numNfrs + 1) rdr res)
          else fails e "Too many retries"
        else fails e "Failed during read"
    | .ok xs =>
        let mem' := place mem off xs
        let hav := off + xs.length
        goOn fd (offered { env with clrInterest := .ok () } mem' hav rdr.getInputBytesConsumed
          (KdbIpcMessageReader.readMsg env.canAlloc rdr (mem'.take hav) res))

end ReadMessage

def kdbReadMessageCo (env : ReadMessageEnv) (fd : Nat) :
    Coroutine IoCall IoCall.Answer UInt32 (Except ErrnoMsg ReadMsgResult) where
  State := ReadMessageAt
  entry := ReadMessage.entry fd env.storage
  label
    | .body mem off numNfrs rdr res => ReadMessage.bodyPass env fd mem off numNfrs rdr res
    -- the other loop begins with its wait
    | .header _ _ => .undefined
    | .blocked _ _ _ _ _ _ => .undefined
  resume
    | .header mem tot, rev => ReadMessage.headerPass env fd mem tot rev
    | .blocked mem off numNfrs rdr res e, rev =>
        if epollErr &&& rev ≠ 0 then ReadMessage.fails e "EPOLLERR detected"
        else .goto (.body mem off numNfrs rdr res)
    | .body _ _ _ _ _, _ => .undefined

namespace ReadMessage

/-- The last words of `kdb_subscribe_and_replay`. -/
def filterFailed : String :=
  "Failed while filtering remote journal"

/-- The socket is all there is, before and after.  With an error epoll may still have it. -/
inductive Leaves (fd : Nat) : Except ErrnoMsg ReadMsgResult -> Holding -> Prop where
  | message (res : ReadMsgResult) : Leaves fd (.ok res) (.only fd none none)
  | failed (e : Int) (msg : String) (w : Option Nat) (h : msg ≠ filterFailed) :
      Leaves fd (.error ⟨e, msg⟩) (.only fd w none)

def contract (fd : Nat) : Contract ReadMessageAt (Except ErrnoMsg ReadMsgResult) Holding where
  ret := Leaves fd
  wait
    | .body _ _ _ _ _, _ => False
    | _, r => KdbConnect.Watches fd r
  goto
    | .body _ _ _ _ _, r => KdbConnect.Watches fd r
    | _, _ => False
  stray := fun _ => False

variable {fd : Nat}

theorem meets_fails {e : Int} {msg : String} {w aw : Option Nat} (h : msg ≠ filterFailed) :
    (fails e msg).Meets ioEffects (contract fd) (.only fd w aw) :=
  meets_leave (Leaves.failed e msg w h)

/-- A reader that is told that the interest can be cleared reports no error. -/
def NoError : ReadCo -> Prop
  | .returned (.error _) => False
  | _ => True

theorem meets_goOn {a : Nat} (co : ReadCo) (hco : NoError co) :
    (goOn fd co).Meets ioEffects (contract fd) (.only fd (some a) (some a)) := by
  rcases co with ⟨mem, tot⟩ | ⟨mem, off, numNfrs, rdr, res⟩ | (err | res) | _
  · exact ⟨a, rfl⟩
  · exact ⟨a, rfl⟩
  · exact hco.elim
  · refine meets_clrInterest (fun e => meets_fails (by decide)) ?_
    exact meets_leave (Leaves.message res)
  · trivial

theorem noError_offered (env : ReadMessageEnv) (mem : List UInt8) (hav pre : Nat)
    (out : (Bool × ReadMsgResult) × KdbIpcMessageReader) :
    NoError (offered { env with clrInterest := .ok () } mem hav pre out) := by
  unfold offered
  split
  · trivial
  · split
    · trivial
    · dsimp only
      split <;> trivial

theorem noError_headerRead (env : ReadMessageEnv) (mem : List UInt8) :
    NoError (headerRead { env with clrInterest := .ok () } mem) := by
  unfold headerRead
  dsimp only
  split
  · trivial
  · split <;> trivial

theorem meets_headerPass (env : ReadMessageEnv) (mem : List UInt8) (tot a : Nat) (rev : UInt32) :
    (headerPass env fd mem tot rev).Meets ioEffects (contract fd)
      (.only fd (some a) (some a)) := by
  unfold headerPass
  split
  · exact meets_fails (by decide)
  · refine meets_plain (one_allowed rfl) (fun _ => rfl) fun io_res => ?_
    cases io_res with
    | error e => exact meets_fails (by decide)
    | ok xs =>
        dsimp only
        split
        · exact ⟨a, rfl⟩
        · exact meets_goOn _ (noError_headerRead env _)

theorem meets_bodyPass (env : ReadMessageEnv) (mem : List UInt8) (off numNfrs a : Nat)
    (rdr : KdbIpcMessageReader) (res : ReadMsgResult) :
    (bodyPass env fd mem off numNfrs rdr res).Meets ioEffects (contract fd)
      (.only fd (some a) (some a)) := by
  refine meets_plain (one_allowed rfl) (fun _ => rfl) fun io_res => ?_
  cases io_res with
  | error e =>
      dsimp only
      split
      · split
        · exact ⟨a, rfl⟩
        · exact meets_fails (by decide)
      · split
        · split
          · exact ⟨a, rfl⟩
          · exact meets_fails (by decide)
        · exact meets_fails (by decide)
  | ok xs => exact meets_goOn _ (noError_offered env _ _ _ _)

theorem keeps (env : ReadMessageEnv) (fd : Nat) :
    (kdbReadMessageCo env fd).Keeps ioEffects (fun r => r = .only fd none none) (contract fd) where
  entry := by
    rintro _ rfl
    refine meets_awaiter fun a => ?_
    exact meets_addInterest (fun e => meets_fails (by decide)) ⟨a, rfl⟩
  label := by
    rintro (_ | ⟨mem, off, numNfrs, rdr, res⟩ | _) r hr
    · exact hr.elim
    · rcases hr with ⟨a, rfl⟩
      exact meets_bodyPass env mem off numNfrs a rdr res
    · exact hr.elim
  resume := by
    rintro (⟨mem, tot⟩ | _ | ⟨mem, off, numNfrs, rdr, res, e⟩) rev r hr _
    · rcases hr with ⟨a, rfl⟩
      exact meets_headerPass env mem tot a rev
    · exact hr.elim
    · rcases hr with ⟨a, rfl⟩
      change Segment.Meets ioEffects (contract fd)
        (if epollErr &&& rev ≠ 0 then fails e "EPOLLERR detected"
          else .goto (.body mem off numNfrs rdr res)) _
      split
      · exact meets_fails (by decide)
      · exact ⟨a, rfl⟩

end ReadMessage

end MgKdb
