import MgKdb.Journal.Payload

/-!
# Scanning a journal

`KdbJournal::_filter_msgs` walks over the records of a journal and shows each to
a callback.  The callback may keep a state of its own; what it answers decides
whether the walk goes on.
-/

namespace MgKdb

open Foundation

universe u

/-- What the callback is given: the number of the message, its place and length. -/
structure JnlCall where
  ith : Nat
  off : Nat
  len : Nat
  deriving DecidableEq, Repr

structure JnlState (client : Type u) where
  off : Nat
  msgCount : Nat
  useCount : Nat
  client : client

inductive JnlEnd where
  /-- The pair of the messages reported and the messages used. -/
  | done (msg_count use_count : Nat)
  | failed (err_msg : String)
  /-- The scanner has left the file. -/
  | undefined
  deriving DecidableEq, Repr

inductive JnlNext (client : Type u) where
  | stop (res : JnlEnd)
  | go (st : JnlState client)

section Loop

variable {client : Type u} (jnl : List UInt8) (max_count : Nat)
  (callback : client -> JnlCall -> Int × client)

/-- One turn of the loop: the call that it makes, if any, and what it leads to. -/
def filterStep (st : JnlState client) : Option JnlCall × JnlNext client :=
  if st.off < jnl.length ∧ st.msgCount < max_count then
    match ipcPayloadLen (jnl.drop st.off) with
    | none => (none, .stop .undefined)
    | some msg_len =>
        if msg_len < 0 then
          (none, .stop (.failed (if msg_len = -1
            then s!"incomplete journal at offset {st.off}"
            else s!"bad journal record at offset {st.off}")))
        else
          let call := ⟨st.msgCount, st.off, msg_len.toNat⟩
          let res := callback st.client call
          if res.1 = -1 then (some call, .stop (.done (st.msgCount + 1) st.useCount))
          else
            (some call, .go
              { off := st.off + msg_len.toNat
                msgCount := st.msgCount + 1
                useCount := u64 (st.useCount + res.1)
                client := res.2 })
  else (none, .stop (.done st.msgCount st.useCount))

/-- The calls of at most `n` turns; `none` if the loop is still going on. -/
def filterLoop : Nat -> JnlState client -> List JnlCall × Option JnlEnd
  | 0, _ => ([], none)
  | n + 1, st =>
      match (filterStep jnl max_count callback st).2 with
      | .stop res => ((filterStep jnl max_count callback st).1.toList, some res)
      | .go st' =>
          ((filterStep jnl max_count callback st).1.toList ++ (filterLoop n st').1,
            (filterLoop n st').2)

def filterStart (c : client) : JnlState client where
  off := 8
  msgCount := 0
  useCount := 0
  client := c

/-- Every turn that goes on counts a message, so that the loop has ended by then. -/
def filterMsgs (c : client) : List JnlCall × Option JnlEnd :=
  filterLoop jnl max_count callback (max_count + 1) (filterStart c)

end Loop

section Records

variable {client : Type u} {max_count : Nat}
  {callback : client -> JnlCall -> Int × client}

/-!
## Well-formed journals
-/

/--
The calls that the payloads of a journal call for, from offset `off` on, and the
sum of the answers other than -1.
-/
def replay (callback : client -> JnlCall -> Int × client) :
    Nat -> JnlState client -> List Payload -> List JnlCall × Int
  | 0, _, _ => ([], 0)
  | _ + 1, _, [] => ([], 0)
  | n + 1, st, p :: ps =>
      let call := ⟨st.msgCount, st.off, p.bytes.length⟩
      let res := callback st.client call
      if res.1 = -1 then ([call], 0)
      else
        let more := replay callback n
          { off := st.off + p.bytes.length
            msgCount := st.msgCount + 1
            useCount := u64 (st.useCount + res.1)
            client := res.2 } ps
        (call :: more.1, res.1 + more.2)

/-- A callback that answers as the scan expects: not used, used, or an error. -/
def Answers (callback : client -> JnlCall -> Int × client) : Prop :=
  forall c call, (callback c call).1 = 0 ∨ (callback c call).1 = 1 ∨
    (callback c call).1 = -1

section Turn

variable (callback)

theorem filterStep_end {jnl : List UInt8} {st : JnlState client}
    (h : ¬ (st.off < jnl.length ∧ st.msgCount < max_count)) :
    filterStep jnl max_count callback st =
      (none, .stop (.done st.msgCount st.useCount)) := by
  rw [filterStep, if_neg h]

theorem filterStep_record {jnl : List UInt8} {st : JnlState client} {n : Nat}
    (hin : st.off < jnl.length) (hcount : st.msgCount < max_count)
    (hscan : ipcPayloadLen (jnl.drop st.off) = some (n : Int)) :
    filterStep jnl max_count callback st =
      (some ⟨st.msgCount, st.off, n⟩,
        if (callback st.client ⟨st.msgCount, st.off, n⟩).1 = -1
        then .stop (.done (st.msgCount + 1) st.useCount)
        else .go
          { off := st.off + n
            msgCount := st.msgCount + 1
            useCount := u64 (st.useCount +
              (callback st.client ⟨st.msgCount, st.off, n⟩).1)
            client := (callback st.client ⟨st.msgCount, st.off, n⟩).2 }) := by
  rw [filterStep, if_pos ⟨hin, hcount⟩, hscan]
  simp only [Int.toNat_natCast]
  rw [if_neg (by omega)]
  split <;> rfl

theorem filterStep_undefined {jnl : List UInt8} {st : JnlState client}
    (hin : st.off < jnl.length) (hcount : st.msgCount < max_count)
    (hscan : ipcPayloadLen (jnl.drop st.off) = none) :
    filterStep jnl max_count callback st = (none, .stop .undefined) := by
  rw [filterStep, if_pos ⟨hin, hcount⟩, hscan]

theorem filterStep_failed {jnl : List UInt8} {st : JnlState client} {x : Int}
    (hin : st.off < jnl.length) (hcount : st.msgCount < max_count)
    (hscan : ipcPayloadLen (jnl.drop st.off) = some x) (hneg : x < 0) :
    exists err_msg,
      filterStep jnl max_count callback st = (none, .stop (.failed err_msg)) := by
  rw [filterStep, if_pos ⟨hin, hcount⟩, hscan]
  simp only
  rw [if_pos hneg]
  exact ⟨_, rfl⟩

end Turn

theorem filterStep_go {jnl : List UInt8} {st st' : JnlState client}
    (h : (filterStep jnl max_count callback st).2 = .go st') :
    st.off < jnl.length ∧ st.msgCount < max_count ∧ exists n : Nat,
      ipcPayloadLen (jnl.drop st.off) = some (n : Int) ∧ st'.off = st.off + n ∧
        st'.msgCount = st.msgCount + 1 := by
  by_cases hrun : st.off < jnl.length ∧ st.msgCount < max_count
  · rcases hscan : ipcPayloadLen (jnl.drop st.off) with _ | x
    · rw [filterStep_undefined callback hrun.left hrun.right hscan] at h
      cases h
    · by_cases hneg : x < 0
      · rcases filterStep_failed callback hrun.left hrun.right hscan hneg
          with ⟨err, hstep⟩
        rw [hstep] at h
        cases h
      · obtain ⟨n, rfl⟩ := Int.eq_ofNat_of_zero_le (by omega : 0 <= x)
        refine ⟨hrun.left, hrun.right, n, rfl, ?_⟩
        rw [filterStep_record callback hrun.left hrun.right hscan] at h
        simp only at h
        split at h
        · cases h
        · cases h
          exact ⟨rfl, rfl⟩
  · rw [filterStep_end callback hrun] at h
    cases h

theorem filterLoop_replay (hanswers : Answers callback) (hmax : max_count < 2 ^ 64)
    (jnl : List UInt8) (ps : List Payload) :
    forall (n : Nat) (st : JnlState client),
      (forall p, p ∈ ps -> p.WellFormed) ->
      (forall p, p ∈ ps.take (replay callback n st ps).1.length -> p.DictsFit) ->
      st.off <= jnl.length -> jnl.drop st.off = Payload.bytesAll ps ->
      st.useCount <= st.msgCount -> n = max_count - st.msgCount ->
      st.msgCount <= max_count ->
      filterLoop jnl max_count callback (n + 1) st =
        ((replay callback n st ps).1,
          some (.done (st.msgCount + (replay callback n st ps).1.length)
            (st.useCount + (replay callback n st ps).2).toNat)) := by
  induction ps with
  | nil =>
      intro n st _ _ hoff hdrop _ _ _
      have hlen := congrArg List.length hdrop
      rw [List.length_drop, Payload.bytesAll, List.length_nil] at hlen
      have hnone : replay callback n st ([] : List Payload) = ([], 0) := by
        cases n <;> rfl
      rw [filterLoop, filterStep_end callback (by omega), hnone]
      simp
  | cons p ps ih =>
      intro n st hwf hfit hoff hdrop huse hn hcount
      cases n with
      | zero =>
          rw [filterLoop, filterStep_end callback (by omega), replay]
          simp
      | succ n =>
          rw [Payload.bytesAll] at hdrop
          have hpos := p.bytes_pos
          have hlong : p.bytes.length <= jnl.length - st.off := by
            rw [← List.length_drop, hdrop, List.length_append]
            omega
          have hreached : 1 <= (replay callback (n + 1) st (p :: ps)).1.length := by
            rw [replay]
            split <;> simp
          have hp : p.DictsFit := by
            apply hfit
            rw [← Nat.sub_add_cancel hreached, List.take_succ_cons]
            exact List.mem_cons_self
          have hscan : ipcPayloadLen (jnl.drop st.off) = some (p.bytes.length : Int) := by
            rw [hdrop]
            exact p.ipcPayloadLen_measures (hwf p List.mem_cons_self) hp _
          have hstep := filterStep_record callback
            (show st.off < jnl.length by omega)
            (show st.msgCount < max_count by omega) hscan
          rw [filterLoop, hstep]
          rw [replay] at hfit ⊢
          by_cases hstop : (callback st.client
              ⟨st.msgCount, st.off, p.bytes.length⟩).1 = -1
          · simp [hstop]
          · simp only [hstop, if_false] at hfit ⊢
            have huse' : u64 (st.useCount + (callback st.client
                ⟨st.msgCount, st.off, p.bytes.length⟩).1) = st.useCount +
                (callback st.client ⟨st.msgCount, st.off, p.bytes.length⟩).1 ∧
                0 <= (callback st.client ⟨st.msgCount, st.off, p.bytes.length⟩).1 ∧
                (callback st.client ⟨st.msgCount, st.off, p.bytes.length⟩).1 <= 1 := by
              have hans := hanswers st.client ⟨st.msgCount, st.off, p.bytes.length⟩
              unfold u64
              omega
            rw [ih _ _ (fun q hq => hwf q (List.mem_cons_of_mem p hq))
              (fun q hq => hfit q (by
                rw [List.length_cons, List.take_succ_cons]
                exact List.mem_cons_of_mem p hq))
              (by simp only; omega)
              (by simp only; rw [← List.drop_drop, hdrop, List.drop_left])
              (by simp only; omega) (by simp only; omega) (by simp only; omega)]
            refine Prod.ext rfl ?_
            simp only [List.length_cons, Option.some.injEq, JnlEnd.done.injEq]
            omega

/--
On a journal of well-formed payloads the callback is shown exactly the payloads, in
order, until it objects or enough were shown, provided that no payload that is
reached contains a dict of 2^31 bytes or more.
-/
theorem filterMsgs_payloads (hdr : List UInt8) (hhdr : hdr.length = 8)
    (ps : List Payload) (hwf : forall p, p ∈ ps -> p.WellFormed) (max_count : Nat)
    (hmax : max_count < 2 ^ 64) (callback : client -> JnlCall -> Int × client)
    (hanswers : Answers callback) (c : client)
    (hfit : forall p, p ∈ ps.take
      (replay callback max_count (filterStart c) ps).1.length -> p.DictsFit) :
    filterMsgs (hdr ++ (ps.map Payload.bytes).flatten) max_count callback c =
      ((replay callback max_count (filterStart c) ps).1,
        some (.done (replay callback max_count (filterStart c) ps).1.length
          (replay callback max_count (filterStart c) ps).2.toNat)) := by
  have hdrop : (hdr ++ (ps.map Payload.bytes).flatten).drop 8 =
      Payload.bytesAll ps := by
    rw [← hhdr, List.drop_left, Payload.bytesAll_eq_flatten]
  have hoff : 8 <= (hdr ++ (ps.map Payload.bytes).flatten).length := by
    rw [List.length_append]
    omega
  have hn : max_count = max_count - (filterStart c).msgCount := rfl
  have hloop := filterLoop_replay hanswers hmax _ ps _ _ hwf hfit hoff hdrop
    (Nat.le_refl _) hn (Nat.zero_le _)
  rw [filterMsgs]
  refine hloop.trans ?_
  simp [filterStart]

end Records

/-! A callback that counts its calls and objects to the second. -/

def objectToSecond (seen : Nat) (_ : JnlCall) : Int × Nat :=
  (if seen = 1 then -1 else 1, seen + 1)

theorem filterMsgs_payloads_dict :
    filterMsgs ([0, 0, 0, 0, 0, 0, 0, 0] ++ ([Payload.symbolAtom ⟨[97], by decide⟩,
        .table 1 true (.vector .short 0 [1, 2]) (.atom .bool 1)].map
          Payload.bytes).flatten) 10 objectToSecond 0 =
      ((replay objectToSecond 10 (filterStart 0) [.symbolAtom ⟨[97], by decide⟩,
        .table 1 true (.vector .short 0 [1, 2]) (.atom .bool 1)]).1,
        some (.done (replay objectToSecond 10 (filterStart 0)
          [.symbolAtom ⟨[97], by decide⟩,
            .table 1 true (.vector .short 0 [1, 2]) (.atom .bool 1)]).1.length
          (replay objectToSecond 10 (filterStart 0) [.symbolAtom ⟨[97], by decide⟩,
            .table 1 true (.vector .short 0 [1, 2]) (.atom .bool 1)]).2.toNat)) :=
  filterMsgs_payloads _ rfl _ (by simp [Payload.WellFormed]) 10 (by decide) objectToSecond
    (by intro c call; unfold objectToSecond; split <;> simp) 0
    (by
      intro p hp
      have hmem := List.mem_of_mem_take hp
      simp only [List.mem_cons, List.not_mem_nil, or_false] at hmem
      rcases hmem with rfl | rfl
      · trivial
      · exact Payload.dictsFit_of_length_lt _ (by decide +kernel))

/-- A dict of which the first part is as long as a 32-bit number can not say. -/
def hugeDict : Payload :=
  .dict false (.vector .long 0 (List.replicate (2 ^ 28) 0)) (.atom .bool 0)

theorem ipcPayloadLen_hugeDict : ipcPayloadLen hugeDict.bytes = some (-2147483642) := by
  have hkeys : (Payload.vector .long 0 (List.replicate (2 ^ 28) 0)).WellFormed := by
    rw [Payload.WellFormed, List.length_replicate]
    decide
  have hmeasure := Payload.ipcPayloadLen_measures _ hkeys trivial
    (Payload.bytes (.atom .bool 0))
  have hlen : (Payload.vector .long 0 (List.replicate (2 ^ 28) 0)).bytes.length =
      2147483654 := by
    rw [Payload.bytes, List.length_append, KVal.vecHdr_length, wordsBytes_length,
      List.length_replicate]
    decide
  rw [hlen] at hmeasure
  rw [hugeDict, Payload.bytes, ipcPayloadLen_eq,
    Payload.ipcPayloadLenOf_vary (t := Payload.dictTyp false) (Or.inl rfl),
    Payload.msgLenVary_dict, dictLen, hmeasure]
  decide

/-- The scan of a journal with this dict fails at its first and only record. -/
theorem filterMsgs_hugeDict :
    hugeDict.WellFormed ∧
      filterMsgs ([0, 0, 0, 0, 0, 0, 0, 0] ++ ([hugeDict].map Payload.bytes).flatten) 1
          (fun seen _ => (0, seen)) () =
        ([], some (.failed "bad journal record at offset 8")) ∧
      (replay (fun seen _ => (0, seen)) 1 (filterStart ()) [hugeDict]).1 =
        [⟨0, 8, hugeDict.bytes.length⟩] := by
  have hwf : hugeDict.WellFormed := by
    refine ⟨?_, trivial⟩
    rw [Payload.WellFormed, List.length_replicate]
    decide
  obtain ⟨jnl, hjnl⟩ : exists jnl, [0, 0, 0, 0, 0, 0, 0, 0] ++
      ([hugeDict].map Payload.bytes).flatten = jnl := ⟨_, rfl⟩
  have hdrop : jnl.drop 8 = hugeDict.bytes := by
    rw [← hjnl, List.map_singleton, List.flatten_singleton]
    rfl
  have hlen : 8 < jnl.length := by
    have hpos := hugeDict.bytes_pos
    rw [← hdrop, List.length_drop] at hpos
    omega
  have hscan : ipcPayloadLen (jnl.drop 8) = some (-2147483642) := by
    rw [hdrop]
    exact ipcPayloadLen_hugeDict
  refine ⟨hwf, ?_, rfl⟩
  rw [hjnl, filterMsgs, filterLoop, filterStep, filterStart]
  simp only
  rw [if_pos ⟨hlen, Nat.one_pos⟩, hscan]
  rfl

end MgKdb
