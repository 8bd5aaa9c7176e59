import MgKdb.Foundation.OpenFile
import MgKdb.Journal.Filter

/-!
# Opening a journal

`KdbJournal::init` opens a file, gives an empty one its header, and may scan what is
there.  The outcomes of the system calls are given; a write of the header may be short.
-/

namespace MgKdb

open Foundation

structure Options where
  readOnly : Bool
  validateAndCountUponInit : Bool
  maxReplayCount : UInt64 := 0xFFFFFFFFFFFFFFFF

structure InitEnv where
  openFile : Except Int Unit
  fstat : Except Int Unit
  /-- The bytes of the header that were taken. -/
  writeHeader : Except Int Nat
  /-- The calls of the validating scan. -/
  scanFstat : Except Int Unit
  scanMmap : Except Int Unit
  lseek : Except Int Unit
  strerror : Int -> String

inductive InitEnd where
  | journal (msg_count : Nat)
  | error (err_msg : String)
  /-- The value of an `expected` was taken that has none. -/
  | threw
  | undefined
  deriving DecidableEq, Repr

/-- How `init` ends, whether it leaves the descriptor open, and the file. -/
structure InitRun where
  result : InitEnd
  isOpen : Bool
  file : OpenFile UInt8

namespace KdbJournal

def header : List UInt8 :=
  [255, 1, 0, 0, 0, 0, 0, 0]

def counter (_ : Unit) (_ : JnlCall) : Int × Unit :=
  (1, ())

/-- The file behind a write of the header that took `n` bytes. -/
def headed (n : Nat) : OpenFile UInt8 :=
  (OpenFile.opened []).write (header.take n)

/-- `_filter_msgs` with its system calls. -/
def filterJnl (env : InitEnv) (jnl : List UInt8) (max_count : Nat) : JnlEnd :=
  match env.scanFstat with
  | .error e => .failed s!"failed in fstat: {env.strerror e}"
  | .ok _ =>
      match env.scanMmap with
      | .error e => .failed s!"failed in mmap: {env.strerror e}"
      | .ok _ => (filterMsgs jnl max_count counter ()).2.getD .undefined

/-- The scan of a file that has more than a header, and the return. -/
def validate (env : InitEnv) (opts : Options) (size : Nat) (file : OpenFile UInt8) :
    InitRun :=
  if 8 < size ∧ opts.validateAndCountUponInit then
    match filterJnl env file.bytes opts.maxReplayCount.toNat with
    -- the message is kept, and then the count is taken from a result that has none
    | .failed _ => ⟨.threw, true, file⟩
    | .done msg_count _ =>
        match env.lseek with
        | .error e =>
            ⟨.error s!"failed in lseek to end of journal: {env.strerror e}", false, file⟩
        | .ok _ => ⟨.journal msg_count, true, file.seekEnd⟩
    | .undefined => ⟨.undefined, true, file⟩
  else ⟨.journal 0, true, file⟩

/-- `KdbJournal::init`, for a file of the given content once it is open. -/
def init (env : InitEnv) (path : String) (opts : Options) (content : List UInt8) :
    InitRun :=
  let file := OpenFile.opened content
  match env.openFile with
  | .error e => ⟨.error s!"failed to open file {path}: {env.strerror e}", false, file⟩
  | .ok _ =>
      match env.fstat with
      | .error e => ⟨.error s!"failed in fstat: {env.strerror e}", false, file⟩
      | .ok _ =>
          if opts.readOnly then
            if content.length < 8 then
              ⟨.error
                "target journal lacks a viable header (and the read-only flag is set)",
                false, file⟩
            else validate env opts content.length file
          else if content.length = 0 then
            match env.writeHeader with
            | .error e =>
                ⟨.error s!"failed to write journal-header: {env.strerror e}", false, file⟩
            | .ok n => validate env opts 0 (headed n)
          else validate env opts content.length file

end KdbJournal

/-!
## The validating scan
-/

/-- The scanner knows the length of the next `n` records, or of all that are left. -/
def RecordsWhole (jnl : List UInt8) : Nat -> Nat -> Prop
  | 0, _ => True
  | n + 1, off => jnl.length <= off ∨ exists len : Nat,
      ipcPayloadLen (jnl.drop off) = some (len : Int) ∧ RecordsWhole jnl n (off + len)

theorem filterLoop_counter (jnl : List UInt8) (max_count n : Nat) :
    forall st : JnlState Unit, n = max_count - st.msgCount ->
      ((exists msg_count use_count,
        (filterLoop jnl max_count KdbJournal.counter (n + 1) st).2 =
          some (.done msg_count use_count)) <-> RecordsWhole jnl n st.off) := by
  induction n with
  | zero =>
      intro st hn
      rw [filterLoop, filterStep_end KdbJournal.counter (by omega)]
      exact ⟨fun _ => trivial, fun _ => ⟨_, _, rfl⟩⟩
  | succ n ih =>
      intro st hn
      rw [filterLoop, RecordsWhole]
      by_cases hin : st.off < jnl.length
      · have hcount : st.msgCount < max_count := by omega
        rcases hscan : ipcPayloadLen (jnl.drop st.off) with _ | x
        · rw [filterStep_undefined KdbJournal.counter hin hcount hscan]
          constructor
          · rintro ⟨_, _, hend⟩
            cases hend
          · rintro (hend | ⟨len, hlen, _⟩)
            · omega
            · cases hlen
        · by_cases hneg : x < 0
          · rcases filterStep_failed KdbJournal.counter hin hcount hscan hneg
              with ⟨err, hstep⟩
            rw [hstep]
            constructor
            · rintro ⟨_, _, hend⟩
              cases hend
            · rintro (hend | ⟨len, hlen, _⟩)
              · omega
              · cases hlen
                omega
          · obtain ⟨len, rfl⟩ := Int.eq_ofNat_of_zero_le (by omega : 0 <= x)
            have hstep := filterStep_record KdbJournal.counter hin hcount hscan
            rw [if_neg (by rw [KdbJournal.counter]; omega)] at hstep
            rw [hstep]
            have hmore := ih
              { off := st.off + len
                msgCount := st.msgCount + 1
                useCount := u64 (st.useCount + 1)
                client := () } (by simp only; omega)
            refine hmore.trans ⟨fun h => Or.inr ⟨len, rfl, h⟩, ?_⟩
            rintro (hend | ⟨len', hlen, h⟩)
            · omega
            · have heq : len = len' := by
                simp only [Option.some.injEq] at hlen
                omega
              rw [heq]
              exact h
      · rw [filterStep_end KdbJournal.counter (fun h => hin h.left)]
        exact ⟨fun _ => Or.inl (Nat.not_lt.mp hin), fun _ => ⟨_, _, rfl⟩⟩

namespace KdbJournal

section Scan

variable (env : InitEnv) (path : String) (opts : Options) (content : List UInt8)

def ScanSucceeds : Prop :=
  env.scanFstat = .ok () ∧ env.scanMmap = .ok () ∧
    RecordsWhole content opts.maxReplayCount.toNat 8

theorem filterJnl_done :
    (exists msg_count use_count,
      filterJnl env content opts.maxReplayCount.toNat = .done msg_count use_count) <->
        ScanSucceeds env opts content := by
  rw [filterJnl, ScanSucceeds]
  rcases env.scanFstat with e | ok
  · constructor
    · rintro ⟨_, _, hend⟩
      cases hend
    · rintro ⟨hfstat, _⟩
      cases hfstat
  · rcases env.scanMmap with e | ok
    · constructor
      · rintro ⟨_, _, hend⟩
        cases hend
      · rintro ⟨_, hmmap, _⟩
        cases hmmap
    · have hloop := filterLoop_counter content opts.maxReplayCount.toNat
        opts.maxReplayCount.toNat (filterStart ()) rfl
      rw [← filterMsgs] at hloop
      simp only
      rw [show RecordsWhole content opts.maxReplayCount.toNat 8 <->
        RecordsWhole content opts.maxReplayCount.toNat (filterStart ()).off from Iff.rfl,
        ← hloop]
      rcases (filterMsgs content opts.maxReplayCount.toNat counter ()).2 with _ | res
      · simp
      · simp

def Scans : Prop :=
  env.openFile = .ok () ∧ env.fstat = .ok () ∧ 8 < content.length ∧
    opts.validateAndCountUponInit = true

variable {env opts content}

theorem init_of_scans (h : Scans env opts content) :
    init env path opts content =
      validate env opts content.length (OpenFile.opened content) := by
  rcases h with ⟨hopen, hfstat, hlen, _⟩
  rw [init, hopen, hfstat]
  simp only
  rw [if_neg (show ¬ content.length < 8 by omega),
    if_neg (show ¬ content.length = 0 by omega), ite_self]

theorem init_of_not_scans (h : ¬ Scans env opts content) :
    (exists file, init env path opts content = ⟨.journal 0, true, file⟩) ∨
      exists err_msg file, init env path opts content = ⟨.error err_msg, false, file⟩ := by
  have hskip : env.openFile = .ok () -> env.fstat = .ok () ->
      validate env opts content.length (OpenFile.opened content) =
        ⟨.journal 0, true, OpenFile.opened content⟩ := by
    intro hopen hfstat
    rw [validate, if_neg (fun hscan => h ⟨hopen, hfstat, hscan⟩)]
  rw [init]
  rcases hopen : env.openFile with e | ok
  · exact Or.inr ⟨_, _, rfl⟩
  · rcases hfstat : env.fstat with e | ok
    · exact Or.inr ⟨_, _, rfl⟩
    · simp only
      rw [hskip hopen hfstat]
      split
      · split
        · exact Or.inr ⟨_, _, rfl⟩
        · exact Or.inl ⟨_, rfl⟩
      · split
        · rcases env.writeHeader with e | n
          · exact Or.inr ⟨_, _, rfl⟩
          · exact Or.inl ⟨headed n, rfl⟩
        · exact Or.inl ⟨_, rfl⟩

variable (env opts content)

structure Reports : Prop where
  regular : (exists msg_count, (init env path opts content).result = .journal msg_count) ∨
    exists err_msg, (init env path opts content).result = .error err_msg
  closed : forall err_msg, (init env path opts content).result = .error err_msg ->
    (init env path opts content).isOpen = false
  /-- The error of a scan that fails is the error of `init`. -/
  scanError : Scans env opts content -> forall err_msg,
    filterJnl env content opts.maxReplayCount.toNat = .failed err_msg ->
      (init env path opts content).result = .error err_msg

/--
`init` reports what is to be reported exactly when the validating scan, if there is
one, does not fail.
-/
theorem init_reports :
    Reports env path opts content <->
      (Scans env opts content -> ScanSucceeds env opts content) := by
  by_cases hscans : Scans env opts content
  · have hinit := init_of_scans path hscans
    rw [validate, if_pos ⟨hscans.2.2.1, hscans.2.2.2⟩] at hinit
    have hbytes : (OpenFile.opened content).bytes = content := rfl
    rw [hbytes] at hinit
    rw [← filterJnl_done]
    rcases hend : filterJnl env content opts.maxReplayCount.toNat with ⟨n, m⟩ | msg | _
    · refine ⟨fun _ _ => ⟨n, m, rfl⟩, fun _ => ?_⟩
      rw [hend] at hinit
      simp only at hinit
      have hnone : forall err_msg : String, JnlEnd.done n m ≠ .failed err_msg := by
        intro err_msg hfailed
        cases hfailed
      rcases hseek : env.lseek with e | ok
      · rw [hseek] at hinit
        refine ⟨Or.inr ⟨_, by rw [hinit]⟩, fun _ _ => by rw [hinit], ?_⟩
        intro _ err_msg hfailed
        exact absurd (hend.symm.trans hfailed) (hnone err_msg)
      · rw [hseek] at hinit
        refine ⟨Or.inl ⟨n, by rw [hinit]⟩, ?_, ?_⟩
        · intro err_msg hresult
          rw [hinit] at hresult
          cases hresult
        · intro _ err_msg hfailed
          exact absurd (hend.symm.trans hfailed) (hnone err_msg)
    · rw [hend] at hinit
      constructor
      · intro h
        rcases h.regular with ⟨n, hn⟩ | ⟨err, herr⟩
        · rw [hinit] at hn
          cases hn
        · rw [hinit] at herr
          cases herr
      · intro h
        rcases h hscans with ⟨n, m, hdone⟩
        cases hdone
    · rw [hend] at hinit
      constructor
      · intro h
        rcases h.regular with ⟨n, hn⟩ | ⟨err, herr⟩
        · rw [hinit] at hn
          cases hn
        · rw [hinit] at herr
          cases herr
      · intro h
        rcases h hscans with ⟨n, m, hdone⟩
        cases hdone
  · refine ⟨fun _ h => absurd h hscans, fun _ => ?_⟩
    rcases init_of_not_scans path hscans with ⟨file, hinit⟩ | ⟨err, file, hinit⟩
    · refine ⟨Or.inl ⟨0, by rw [hinit]⟩, ?_, fun h => absurd h hscans⟩
      intro err_msg hresult
      rw [hinit] at hresult
      cases hresult
    · exact ⟨Or.inr ⟨err, by rw [hinit]⟩, fun _ _ => by rw [hinit],
        fun h => absurd h hscans⟩

end Scan

def smooth : InitEnv where
  openFile := .ok ()
  fstat := .ok ()
  writeHeader := .ok 8
  scanFstat := .ok ()
  scanMmap := .ok ()
  lseek := .ok ()
  strerror := fun _ => ""

/-- The last record is a symbol without its end. -/
theorem init_reports_cut :
    ¬ forall (env : InitEnv) (path : String) (opts : Options) (content : List UInt8),
      Reports env path opts content := by
  intro hclaim
  have hthrew : (init smooth "" ⟨false, true, 1⟩ (header ++ [245, 97])).result = .threw := by
    decide +kernel
  rcases (hclaim smooth "" ⟨false, true, 1⟩ (header ++ [245, 97])).regular with
    ⟨n, hn⟩ | ⟨err, herr⟩
  · rw [hthrew] at hn
    cases hn
  · rw [hthrew] at herr
    cases herr

end KdbJournal

end MgKdb
