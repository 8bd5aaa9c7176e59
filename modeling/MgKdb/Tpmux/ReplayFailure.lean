import MgKdb.Tpmux.Replay

/-!
# A replay whose writes can fail

The closure that copies a payload answers -1 when `write` fails, and the scan ends
there.  The message is counted all the same, and the scan's pair is an ordinary result.
-/

namespace MgKdb

open Foundation

structure JnlWrite where
  payload : List UInt8
  /-- What it took, which nothing looks at; `none` if it failed. -/
  took : Option Nat
  deriving DecidableEq, Repr

/-- The closure `scribe`; the outcome of each write is given, its state are the writes. -/
def scribeIo (writes : Nat -> Option Nat) (tried : List JnlWrite) (src : List UInt8)
    (len : Nat) : Option (Int × List JnlWrite) :=
  if src.length < len then none
  else
    some (if (writes tried.length).isNone then -1 else 1,
      tried ++ [⟨src.take len, writes tried.length⟩])

def replayFilterIo (writes : Nat -> Option Nat) (src_jnl : List UInt8) (skip : Nat)
    (tbl_names : List (List UInt8)) :
    Option (List JnlWrite) -> JnlCall -> Int × Option (List JnlWrite) :=
  mkUpdTblFilter src_jnl skip updName tbl_names (scribeIo writes)

def replayScan (writes : Nat -> Option Nat) (src_jnl : List UInt8) (msg_count : Int)
    (tbl_names : List (List UInt8)) (counts : TpMsgCounts) :
    List JnlCall × Option JnlEnd :=
  filterMsgs src_jnl msg_count.toNat
    (replayFilterIo writes src_jnl counts.numMsgTotal.toNat tbl_names) (some [])

/-- `kdb_subscribe_and_replay` from the tickerplant's answer on. -/
def kdbSubscribeAndReplayIo (writes : Nat -> Option Nat) (src_jnl : List UInt8)
    (msg_count : Int) (tbl_names : List (List UInt8)) (counts : TpMsgCounts) :
    List JnlWrite × ReplayEnd :=
  if msg_count < 0 then ([], .failed "illegal .u.i value upon subscription")
  else if msg_count < counts.numMsgTotal.toNat then
    ([], .failed "fewer messages in src-journal than we have apparently alread read")
  else if src_jnl.length < 8 then ([], .failed "Failed while reading remote journal")
  else
    let scan := replayScan writes src_jnl msg_count tbl_names counts
    match clientAfter (replayFilterIo writes src_jnl counts.numMsgTotal.toNat tbl_names)
        (some []) scan.1, scan.2 with
    | some tried, some res => (tried, replayCounts counts res)
    | _, _ => ([], .undefined)

def ReplayEnd.countsLeft (counts : TpMsgCounts) : ReplayEnd -> TpMsgCounts
  | .ok counts' => counts'
  | .failed _ => counts
  | .undefined => counts

def WriteFailed (out : List JnlWrite × ReplayEnd) : Prop :=
  exists w, w ∈ out.1 ∧ w.took = none

/-- An error, and counts that end before the message `call` is about. -/
def FailureReported (counts : TpMsgCounts) (call : JnlCall)
    (out : List JnlWrite × ReplayEnd) : Prop :=
  (exists err_msg, out.2 = .failed err_msg) ∧
    (out.2.countsLeft counts).numMsgTotal.toNat <= call.ith

/-!
## How a scan ends at an objection
-/

section Objection

universe u

variable {client : Type u} {jnl : List UInt8} {max_count : Nat}
  {callback : client -> JnlCall -> Int × client}

def Unopposed (callback : client -> JnlCall -> Int × client) : client -> List JnlCall -> Prop
  | _, [] => True
  | c, call :: calls =>
      (callback c call).1 ≠ -1 ∧ Unopposed callback (callback c call).2 calls

theorem Unopposed.clientAfter {P : client -> Prop}
    (hstep : forall c call, P c -> (callback c call).1 ≠ -1 -> P (callback c call).2)
    (calls : List JnlCall) :
    forall {c : client}, P c -> Unopposed callback c calls ->
      P (MgKdb.clientAfter callback c calls) := by
  induction calls with
  | nil =>
      intro c hc _
      exact hc
  | cons call calls ih =>
      intro c hc hun
      exact ih (hstep c call hc hun.left) hun.right

theorem filterStep_answered (st : JnlState client) :
    (exists res, filterStep jnl max_count callback st = (none, .stop res)) ∨
      (exists call, call.ith = st.msgCount ∧ (callback st.client call).1 = -1 ∧
        filterStep jnl max_count callback st =
          (some call, .stop (.done (call.ith + 1) st.useCount))) ∨
      exists call st', (callback st.client call).1 ≠ -1 ∧
        st'.client = (callback st.client call).2 ∧
        filterStep jnl max_count callback st = (some call, .go st') := by
  by_cases hrun : st.off < jnl.length ∧ st.msgCount < max_count
  · rcases hscan : ipcPayloadLen (jnl.drop st.off) with _ | x
    · exact Or.inl ⟨_, filterStep_undefined callback hrun.left hrun.right hscan⟩
    · by_cases hneg : x < 0
      · rcases filterStep_failed callback hrun.left hrun.right hscan hneg with ⟨err, hstep⟩
        exact Or.inl ⟨_, hstep⟩
      · obtain ⟨n, rfl⟩ := Int.eq_ofNat_of_zero_le (by omega : 0 <= x)
        have hstep := filterStep_record callback hrun.left hrun.right hscan
        by_cases hstop : (callback st.client ⟨st.msgCount, st.off, n⟩).1 = -1
        · rw [if_pos hstop] at hstep
          exact Or.inr (Or.inl ⟨⟨st.msgCount, st.off, n⟩, rfl, hstop, hstep⟩)
        · rw [if_neg hstop] at hstep
          exact Or.inr (Or.inr ⟨⟨st.msgCount, st.off, n⟩, _, hstop, rfl, hstep⟩)
  · exact Or.inl ⟨_, filterStep_end callback hrun⟩

variable (jnl callback) in
theorem filterLoop_objection (n : Nat) : forall (st : JnlState client),
    Unopposed callback st.client (filterLoop jnl max_count callback n st).1 ∨
      exists before call use_count,
        Unopposed callback st.client before ∧
        (callback (clientAfter callback st.client before) call).1 = -1 ∧
        filterLoop jnl max_count callback n st =
          (before ++ [call], some (.done (call.ith + 1) use_count)) := by
  induction n with
  | zero =>
      intro st
      exact Or.inl trivial
  | succ n ih =>
      intro st
      rw [filterLoop]
      rcases filterStep_answered st with ⟨res, hstep⟩ | ⟨call, _, hans, hstep⟩ |
          ⟨call, st', hans, hclient, hstep⟩
      · rw [hstep]
        exact Or.inl trivial
      · rw [hstep]
        exact Or.inr ⟨[], call, st.useCount, trivial, hans, rfl⟩
      · rw [hstep]
        have hmore := ih st'
        rw [hclient] at hmore
        rcases hmore with hun | ⟨before, last, use, hun, hlast, heq⟩
        · exact Or.inl ⟨hans, hun⟩
        · refine Or.inr ⟨call :: before, last, use, ⟨hans, hun⟩, hlast, ?_⟩
          simp only [heq, Option.toList_some, List.cons_append, List.nil_append]

end Objection

/-!
## The closure
-/

section Scribe

variable {writes : Nat -> Option Nat} {src_jnl : List UInt8} {skip : Nat}
  {tbl_names : List (List UInt8)}

def NoneFailed (c : Option (List JnlWrite)) : Prop :=
  forall tried, c = some tried -> forall w, w ∈ tried -> w.took ≠ none

variable (writes src_jnl skip tbl_names) in
theorem replayFilterIo_cases (c : Option (List JnlWrite)) (call : JnlCall) :
    (replayFilterIo writes src_jnl skip tbl_names c call).1 = 0 ∧
        ((replayFilterIo writes src_jnl skip tbl_names c call).2 = none ∨
          (replayFilterIo writes src_jnl skip tbl_names c call).2 = c) ∨
      exists tried, c = some tried ∧
        replayFilterIo writes src_jnl skip tbl_names c call =
          (if (writes tried.length).isNone then -1 else 1,
            some (tried ++
              [⟨(src_jnl.drop call.off).take call.len, writes tried.length⟩])) := by
  cases c with
  | none => exact Or.inl ⟨rfl, Or.inl rfl⟩
  | some tried =>
      rw [replayFilterIo, mkUpdTblFilter]
      by_cases hskip : skip <= call.ith
      · rw [if_pos hskip]
        cases filterUpdMsg (src_jnl.drop call.off) call.len updName tbl_names with
        | none => exact Or.inl ⟨rfl, Or.inl rfl⟩
        | some res =>
            simp only
            by_cases hres : 0 < res
            · rw [if_pos hres, scribeIo]
              by_cases hroom : (src_jnl.drop call.off).length < call.len
              · rw [if_pos hroom]
                exact Or.inl ⟨rfl, Or.inl rfl⟩
              · rw [if_neg hroom]
                exact Or.inr ⟨tried, rfl, rfl⟩
            · rw [if_neg hres]
              exact Or.inl ⟨rfl, Or.inr rfl⟩
      · rw [if_neg hskip]
        exact Or.inl ⟨rfl, Or.inr rfl⟩

theorem replayFilterIo_noneFailed (c : Option (List JnlWrite)) (call : JnlCall)
    (hc : NoneFailed c)
    (hans : (replayFilterIo writes src_jnl skip tbl_names c call).1 ≠ -1) :
    NoneFailed (replayFilterIo writes src_jnl skip tbl_names c call).2 := by
  rcases replayFilterIo_cases writes src_jnl skip tbl_names c call with
    ⟨_, hgone | hsame⟩ | ⟨tried, rfl, heq⟩
  · rw [hgone]
    intro tried htried
    cases htried
  · rw [hsame]
    exact hc
  · rw [heq] at hans ⊢
    intro after hafter w hw
    cases hafter
    rcases List.mem_append.mp hw with hold | hnew
    · exact hc tried rfl w hold
    · rw [List.mem_singleton] at hnew
      rw [hnew]
      intro hnone
      apply hans
      simp only at hnone ⊢
      rw [hnone]
      rfl

theorem replayFilterIo_objection {c : Option (List JnlWrite)} {call : JnlCall}
    (hans : (replayFilterIo writes src_jnl skip tbl_names c call).1 = -1) :
    exists tried, (replayFilterIo writes src_jnl skip tbl_names c call).2 =
      some (tried ++ [⟨(src_jnl.drop call.off).take call.len, none⟩]) := by
  rcases replayFilterIo_cases writes src_jnl skip tbl_names c call with
    ⟨hzero, _⟩ | ⟨tried, rfl, heq⟩
  · rw [hzero] at hans
    cases hans
  · refine ⟨tried, ?_⟩
    rw [heq] at hans ⊢
    cases houtcome : writes tried.length with
    | none => rfl
    | some n =>
        rw [houtcome] at hans
        cases hans

end Scribe

/-!
## The failure is not reported
-/

section Failure

variable (writes : Nat -> Option Nat) (src_jnl : List UInt8) (msg_count : Int)
  (tbl_names : List (List UInt8)) (counts : TpMsgCounts)

theorem replayScan_failed (tried : List JnlWrite)
    (hafter : clientAfter
      (replayFilterIo writes src_jnl counts.numMsgTotal.toNat tbl_names) (some [])
      (replayScan writes src_jnl msg_count tbl_names counts).1 = some tried)
    (hfails : exists w, w ∈ tried ∧ w.took = none) :
    exists before call use_count,
      replayScan writes src_jnl msg_count tbl_names counts =
        (before ++ [call], some (.done (call.ith + 1) use_count)) ∧
      tried.getLast? = some ⟨(src_jnl.drop call.off).take call.len, none⟩ := by
  obtain ⟨filter, hfilter⟩ : exists filter, filter =
    replayFilterIo writes src_jnl counts.numMsgTotal.toNat tbl_names := ⟨_, rfl⟩
  have hnone : NoneFailed (some []) := by
    intro none_tried hnil w hw
    cases hnil
    cases hw
  have hkept : forall c call, NoneFailed c -> (filter c call).1 ≠ -1 ->
      NoneFailed (filter c call).2 := by
    rw [hfilter]
    exact replayFilterIo_noneFailed
  rw [replayScan, filterMsgs] at hafter ⊢
  rw [← hfilter] at hafter ⊢
  rcases filterLoop_objection src_jnl filter (msg_count.toNat + 1)
    (filterStart (some [])) with hun | ⟨before, call, use, hun, hans, heq⟩
  · have hfine := Unopposed.clientAfter hkept _ hnone hun
    rcases hfails with ⟨w, hw, htook⟩
    exact absurd htook (hfine tried hafter w hw)
  · refine ⟨before, call, use, heq, ?_⟩
    rw [heq, clientAfter, List.foldl_append] at hafter
    rw [hfilter] at hans hafter
    rcases replayFilterIo_objection hans with ⟨earlier, hlast⟩
    have htried : some (earlier ++ [⟨(src_jnl.drop call.off).take call.len, none⟩]) =
        some tried := hlast.symm.trans hafter
    cases htried
    rw [List.getLast?_append]
    rfl

/--
Whichever write fails, the replay ends without an error, and its total includes the
message that was not written.
-/
theorem kdbSubscribeAndReplayIo_unreported
    (hfails : WriteFailed
      (kdbSubscribeAndReplayIo writes src_jnl msg_count tbl_names counts)) :
    exists call counts',
      (replayScan writes src_jnl msg_count tbl_names counts).1.getLast? = some call ∧
      (kdbSubscribeAndReplayIo writes src_jnl msg_count tbl_names counts).1.getLast? =
        some ⟨(src_jnl.drop call.off).take call.len, none⟩ ∧
      (kdbSubscribeAndReplayIo writes src_jnl msg_count tbl_names counts).2 =
        .ok counts' ∧
      counts'.numMsgTotal = UInt32.ofNat (call.ith + 1) ∧
      ¬ FailureReported counts call
        (kdbSubscribeAndReplayIo writes src_jnl msg_count tbl_names counts) := by
  rw [WriteFailed] at hfails
  rw [kdbSubscribeAndReplayIo] at hfails ⊢
  by_cases hneg : msg_count < 0
  · rw [if_pos hneg] at hfails
    rcases hfails with ⟨w, hw, _⟩
    cases hw
  · by_cases hfew : msg_count < counts.numMsgTotal.toNat
    · rw [if_neg hneg, if_pos hfew] at hfails
      rcases hfails with ⟨w, hw, _⟩
      cases hw
    · by_cases hshort : src_jnl.length < 8
      · rw [if_neg hneg, if_neg hfew, if_pos hshort] at hfails
        rcases hfails with ⟨w, hw, _⟩
        cases hw
      · rw [if_neg hneg, if_neg hfew, if_neg hshort] at hfails ⊢
        simp only at hfails ⊢
        rcases hafter : clientAfter
            (replayFilterIo writes src_jnl counts.numMsgTotal.toNat tbl_names) (some [])
            (replayScan writes src_jnl msg_count tbl_names counts).1 with _ | tried
        · rw [hafter] at hfails
          rcases hfails with ⟨w, hw, _⟩
          cases hw
        · rcases hend : (replayScan writes src_jnl msg_count tbl_names counts).2 with
            _ | res
          · rw [hafter, hend] at hfails
            rcases hfails with ⟨w, hw, _⟩
            cases hw
          · rw [hafter, hend] at hfails
            rcases replayScan_failed writes src_jnl msg_count tbl_names counts tried
              hafter hfails with ⟨before, call, use, hscan, hlast⟩
            have hres : res = .done (call.ith + 1) use := by
              rw [hscan] at hend
              cases hend
              rfl
            rw [hres]
            refine ⟨call, _, ?_, hlast, rfl, rfl, ?_⟩
            · rw [hscan, List.getLast?_append]
              rfl
            · rintro ⟨⟨err, herr⟩, _⟩
              cases herr

end Failure

/-- The journal of one call, of which the write fails. -/
theorem kdbSubscribeAndReplayIo_unreported_one :
    exists call counts',
      (replayScan (fun _ => none) ([255, 1, 0, 0, 0, 0, 0, 0] ++ updCall.bytes) 1 [[116]]
        ⟨0, 0⟩).1.getLast? = some call ∧
      (kdbSubscribeAndReplayIo (fun _ => none)
          ([255, 1, 0, 0, 0, 0, 0, 0] ++ updCall.bytes) 1 [[116]] ⟨0, 0⟩).1.getLast? =
        some ⟨(([255, 1, 0, 0, 0, 0, 0, 0] ++ updCall.bytes).drop call.off).take call.len,
          none⟩ ∧
      (kdbSubscribeAndReplayIo (fun _ => none)
          ([255, 1, 0, 0, 0, 0, 0, 0] ++ updCall.bytes) 1 [[116]] ⟨0, 0⟩).2 =
        .ok counts' ∧
      counts'.numMsgTotal = UInt32.ofNat (call.ith + 1) ∧
      ¬ FailureReported ⟨0, 0⟩ call
        (kdbSubscribeAndReplayIo (fun _ => none)
          ([255, 1, 0, 0, 0, 0, 0, 0] ++ updCall.bytes) 1 [[116]] ⟨0, 0⟩) :=
  kdbSubscribeAndReplayIo_unreported (fun _ => none)
    ([255, 1, 0, 0, 0, 0, 0, 0] ++ updCall.bytes) 1 [[116]] ⟨0, 0⟩
    ⟨⟨updCall.bytes, none⟩, by decide +kernel, rfl⟩

/-- After the same write the counts say that the only message is dealt with. -/
theorem kdbSubscribeAndReplayIo_lost :
    ¬ forall (writes : Nat -> Option Nat) (src_jnl : List UInt8) (msg_count : Int)
      (tbl_names : List (List UInt8)) (counts : TpMsgCounts) (call : JnlCall),
      WriteFailed (kdbSubscribeAndReplayIo writes src_jnl msg_count tbl_names counts) ->
      (replayScan writes src_jnl msg_count tbl_names counts).1.getLast? = some call ->
      FailureReported counts call
        (kdbSubscribeAndReplayIo writes src_jnl msg_count tbl_names counts) := by
  intro hclaim
  have hreported := hclaim (fun _ => none)
    ([255, 1, 0, 0, 0, 0, 0, 0] ++ updCall.bytes) 1 [[116]] ⟨0, 0⟩
    ⟨0, 8, updCall.bytes.length⟩ ⟨⟨updCall.bytes, none⟩, by decide +kernel, rfl⟩
    (by decide +kernel)
  have hend : (kdbSubscribeAndReplayIo (fun _ => none)
      ([255, 1, 0, 0, 0, 0, 0, 0] ++ updCall.bytes) 1 [[116]] ⟨0, 0⟩).2 = .ok ⟨1, 0⟩ := by
    decide +kernel
  rcases hreported.left with ⟨err, herr⟩
  rw [hend] at herr
  cases herr

/-!
## When no write fails
-/

section Whole

universe u v

variable {client : Type u} {client' : Type v} {jnl : List UInt8} {max_count : Nat}
  {callback : client -> JnlCall -> Int × client}
  {callback' : client' -> JnlCall -> Int × client'} (f : client -> client')

def JnlState.map (st : JnlState client) : JnlState client' where
  off := st.off
  msgCount := st.msgCount
  useCount := st.useCount
  client := f st.client

variable {f}

/-- What a turn leads to, with the state seen as that of the other callback. -/
def JnlNext.map (f : client -> client') : JnlNext client -> JnlNext client'
  | .stop res => .stop res
  | .go st => .go (st.map f)

theorem filterStep_map
    (hmap : forall c call, callback' (f c) call =
      ((callback c call).1, f (callback c call).2)) (st : JnlState client) :
    filterStep jnl max_count callback' (st.map f) =
      ((filterStep jnl max_count callback st).1,
        (filterStep jnl max_count callback st).2.map f) := by
  by_cases hrun : st.off < jnl.length ∧ st.msgCount < max_count
  · rcases hscan : ipcPayloadLen (jnl.drop st.off) with _ | x
    · rw [filterStep_undefined callback hrun.left hrun.right hscan,
        filterStep_undefined callback' (show (st.map f).off < jnl.length from hrun.left)
          hrun.right hscan]
      rfl
    · by_cases hneg : x < 0
      · rw [filterStep, filterStep, if_pos hrun, hscan]
        rw [if_pos (show (st.map f).off < jnl.length ∧ (st.map f).msgCount < max_count from
          hrun), show ipcPayloadLen (jnl.drop (st.map f).off) = some x from hscan]
        simp only
        rw [if_pos hneg, if_pos hneg]
        rfl
      · obtain ⟨n, rfl⟩ := Int.eq_ofNat_of_zero_le (by omega : 0 <= x)
        have hans := hmap st.client ⟨st.msgCount, st.off, n⟩
        rw [filterStep_record callback hrun.left hrun.right hscan,
          filterStep_record callback' (show (st.map f).off < jnl.length from hrun.left)
            hrun.right hscan]
        simp only [JnlState.map, hans]
        split <;> rfl
  · have hrun' : ¬ ((st.map f).off < jnl.length ∧ (st.map f).msgCount < max_count) := hrun
    rw [filterStep_end callback hrun, filterStep_end callback' hrun']
    rfl

theorem filterLoop_map
    (hmap : forall c call, callback' (f c) call =
      ((callback c call).1, f (callback c call).2)) (n : Nat) :
    forall st : JnlState client,
      filterLoop jnl max_count callback' n (st.map f) =
        filterLoop jnl max_count callback n st := by
  induction n with
  | zero =>
      intro st
      rfl
  | succ n ih =>
      intro st
      rw [filterLoop, filterLoop, filterStep_map hmap]
      rcases filterStep jnl max_count callback st with ⟨call, res | st'⟩
      · rfl
      · simp only [JnlNext.map, ih]

theorem clientAfter_map
    (hmap : forall c call, callback' (f c) call =
      ((callback c call).1, f (callback c call).2)) (calls : List JnlCall) :
    forall c, clientAfter callback' (f c) calls = f (clientAfter callback c calls) := by
  induction calls with
  | nil =>
      intro c
      rfl
  | cons call calls ih =>
      intro c
      rw [clientAfter, List.foldl_cons, hmap]
      exact ih _

end Whole

def payloadsOf (tried : List JnlWrite) : List (List UInt8) :=
  tried.map JnlWrite.payload

theorem replayFilter_payloadsOf {writes : Nat -> Option Nat}
    (hwrites : forall n, writes n ≠ none) (src_jnl : List UInt8) (skip : Nat)
    (tbl_names : List (List UInt8)) (c : Option (List JnlWrite)) (call : JnlCall) :
    replayFilter src_jnl skip tbl_names (c.map payloadsOf) call =
      ((replayFilterIo writes src_jnl skip tbl_names c call).1,
        (replayFilterIo writes src_jnl skip tbl_names c call).2.map payloadsOf) := by
  cases c with
  | none => rfl
  | some tried =>
      rw [Option.map_some, replayFilter, replayFilterIo, mkUpdTblFilter, mkUpdTblFilter]
      split
      · cases filterUpdMsg (src_jnl.drop call.off) call.len updName tbl_names with
        | none => rfl
        | some res =>
            simp only
            by_cases hres : 0 < res
            · rw [if_pos hres, if_pos hres, scribe, scribeIo]
              by_cases hroom : (src_jnl.drop call.off).length < call.len
              · rw [if_pos hroom, if_pos hroom]
                rfl
              · rw [if_neg hroom, if_neg hroom]
                rcases houtcome : writes tried.length with _ | n
                · exact absurd houtcome (hwrites _)
                · simp [payloadsOf]
            · rw [if_neg hres, if_neg hres]
              rfl
      · rfl

/--
As long as no write fails it is the replay whose writes take everything, however little they take.
-/
theorem kdbSubscribeAndReplayIo_eq {writes : Nat -> Option Nat}
    (hwrites : forall n, writes n ≠ none) (src_jnl : List UInt8) (msg_count : Int)
    (tbl_names : List (List UInt8)) (counts : TpMsgCounts) :
    kdbSubscribeAndReplay src_jnl msg_count tbl_names counts =
      (payloadsOf (kdbSubscribeAndReplayIo writes src_jnl msg_count tbl_names counts).1,
        (kdbSubscribeAndReplayIo writes src_jnl msg_count tbl_names counts).2) := by
  have hmap := replayFilter_payloadsOf hwrites src_jnl counts.numMsgTotal.toNat tbl_names
  have hscan : filterMsgs src_jnl msg_count.toNat
      (replayFilter src_jnl counts.numMsgTotal.toNat tbl_names) (some []) =
        replayScan writes src_jnl msg_count tbl_names counts :=
    filterLoop_map hmap _ (filterStart (some []))
  have hclient := clientAfter_map hmap
    (replayScan writes src_jnl msg_count tbl_names counts).1 (some [])
  rw [kdbSubscribeAndReplay, kdbSubscribeAndReplayIo]
  split
  · rfl
  · split
    · rfl
    · split
      · rfl
      · simp only [hscan]
        rw [show some ([] : List (List UInt8)) = (some []).map payloadsOf from rfl, hclient]
        rcases clientAfter _ (some []) _ with _ | tried
        · rfl
        · rcases (replayScan writes src_jnl msg_count tbl_names counts).2 with _ | res
          · rfl
          · rfl

/-- One call is to be written, and nothing of it is. -/
theorem kdbSubscribeAndReplayIo_eq_zero :
    (kdbSubscribeAndReplayIo (fun _ => some 0) ([255, 1, 0, 0, 0, 0, 0, 0] ++ updCall.bytes) 1
        [[116]] ⟨0, 0⟩).1 = [⟨updCall.bytes, some 0⟩] ∧
      kdbSubscribeAndReplay ([255, 1, 0, 0, 0, 0, 0, 0] ++ updCall.bytes) 1 [[116]] ⟨0, 0⟩ =
        (payloadsOf (kdbSubscribeAndReplayIo (fun _ => some 0)
            ([255, 1, 0, 0, 0, 0, 0, 0] ++ updCall.bytes) 1 [[116]] ⟨0, 0⟩).1,
          (kdbSubscribeAndReplayIo (fun _ => some 0)
            ([255, 1, 0, 0, 0, 0, 0, 0] ++ updCall.bytes) 1 [[116]] ⟨0, 0⟩).2) :=
  ⟨by decide +kernel, kdbSubscribeAndReplayIo_eq (fun _ => by simp) _ 1 [[116]] ⟨0, 0⟩⟩

end MgKdb
