import MgKdb.Foundation.Turns
import MgKdb.Tpmux.Receiving
import MgKdb.Tpmux.Stream

/-!
# The coroutine that receives, and its events

What `kdb_read_tcp_messages` reads makes a sequence of events, and what it writes is what the
model of its loops comes to on them.  Any number of such coroutines share the journal, and may be
interrupted at every call.  Writing to the journal succeeds here.
-/

namespace MgKdb

open Foundation

structure Trace where
  events : List IoEvent
  written : List (List UInt8)

namespace Trace

def nothing : Trace :=
  ⟨[], []⟩

def onRead (r : Trace) : Except Int (List UInt8) -> Trace
  | .ok [] => { r with events := r.events ++ [.eof] }
  | .ok (b :: more) => { r with events := r.events ++ [.data (b :: more)] }
  | .error e =>
      { r with
        events := r.events ++
          [if e = eagain then .eagain else if e = eintr then .eintr else .error] }

def after (r : Trace) : (c : IoCall) -> c.Answer -> Trace
  | .read _ _, ans => r.onRead ans
  | .writeJournal payload, _ => { r with written := r.written ++ [payload] }
  | _, _ => r

end Trace

def WritesAll : (c : IoCall) -> c.Answer -> Prop
  | .writeJournal payload, ans => ans = .ok payload.length
  | _, _ => True

def traceEffects : Effects IoCall IoCall.Answer Trace where
  Allowed := fun _ _ => True
  Possible := fun _ c ans => WritesAll c ans
  after := Trace.after
  Wakes := fun _ => True

def journalEffects {ι : Type} (i : ι) :
    Effects IoCall IoCall.Answer (List (ι × List UInt8)) where
  Allowed := fun _ _ => True
  Possible := fun _ c ans => WritesAll c ans
  after
    | w, .writeJournal payload, _ => w ++ [(i, payload)]
    | w, _, _ => w
  Wakes := fun _ => True

namespace Receiving

/-!
## One coroutine
-/

variable {tbl_names : List (List UInt8)} {counts : TpMsgCounts}

theorem kdbReadTcpMessages_concat (events : List IoEvent) (event : IoEvent) :
    forall {st st' : RecvState} {written : List (List UInt8)},
      kdbReadTcpMessages tbl_names st events = (written, st', none) ->
      kdbReadTcpMessages tbl_names st (events ++ [event]) =
        (written ++ (onEvent tbl_names st' event).1, (onEvent tbl_names st' event).2) := by
  induction events with
  | nil =>
      intro st st' written h
      rcases Prod.mk.inj h with ⟨rfl, hst⟩
      rcases Prod.mk.inj hst with ⟨rfl, _⟩
      rw [List.nil_append, List.nil_append, kdbReadTcpMessages]
      rcases hout : onEvent tbl_names st event with ⟨ws, st', _ | res⟩
      · simp [kdbReadTcpMessages]
      · rfl
  | cons e events ih =>
      intro st st' written h
      rw [kdbReadTcpMessages] at h
      rw [List.cons_append, kdbReadTcpMessages]
      rcases hout : onEvent tbl_names st e with ⟨ws, st₁, _ | res⟩
      · rw [hout] at h
        simp only at h ⊢
        rcases hmore : kdbReadTcpMessages tbl_names st₁ events with ⟨ws', st₂, res⟩
        rw [hmore] at h
        rcases Prod.mk.inj h with ⟨rfl, hst⟩
        rcases Prod.mk.inj hst with ⟨rfl, rfl⟩
        rw [ih hmore, List.append_assoc]
      · rw [hout] at h
        cases h

variable (tbl_names counts) in
def At (r : Trace) (st : RecvState) (res : Option RecvEnd) : Prop :=
  kdbReadTcpMessages tbl_names (recvStart counts) r.events = (r.written, st, res)

variable (tbl_names counts) in
/--
In the middle of an event: what the inner loop has written so far, and what it comes to from here
on.
-/
def Amid (r : Trace) (st : RecvState) : Prop :=
  exists events bytes st₀ before now n,
    r.events = events ++ [.data bytes] ∧ r.written = before ++ now ∧
    kdbReadTcpMessages tbl_names (recvStart counts) events = (before, st₀, none) ∧
    st.unread.length < n ∧
    msgLoop tbl_names (st₀.unread.length + bytes.length + 1) { st₀ with ary := st₀.ary ++ bytes } =
      (now ++ (msgLoop tbl_names n st).1, (msgLoop tbl_names n st).2)

variable (tbl_names counts) in
def EndsAs (r : Trace) : ReceiveResult -> Prop
  | .closed => exists st, At tbl_names counts r st (some .closed)
  | .threw => exists st, At tbl_names counts r st (some .threw)
  -- the error signal comes with no call; without an interest there are no events
  | .error _ => r = .nothing ∨
      exists st, At tbl_names counts { r with events := r.events ++ [.epollErr] } st (some .failed)

variable (tbl_names counts) in
def traced : Contract ReceiveAt ReceiveResult Trace where
  ret := fun res r => EndsAs tbl_names counts r res
  wait
    | .outer st, r => At tbl_names counts r st none
    | .inner _, _ => False
  goto
    | .inner st, r => Amid tbl_names counts r st
    | .outer _, _ => False
  stray := fun _ => False

theorem at_of_amid {r : Trace} {st : RecvState} (h : Amid tbl_names counts r st)
    {st' : RecvState} {res : Option RecvEnd}
    (hend : forall n, st.unread.length < n -> msgLoop tbl_names n st = ([], st', res)) :
    At tbl_names counts r (if res = none then (compact st').1 else st')
      (if res = none then (compact st').2 else res) := by
  rcases h with ⟨events, bytes, st₀, before, now, n, hevents, hwritten, hbefore, hn, hloop⟩
  rw [hend n hn, List.append_nil] at hloop
  unfold At
  rw [hevents, kdbReadTcpMessages_concat events _ hbefore, hwritten]
  unfold onEvent
  simp only [hloop]
  cases res with
  | none => rfl
  | some res => rfl

theorem meets_trace {c : IoCall} {k : c.Answer -> Code} {P : Contract ReceiveAt ReceiveResult Trace}
    {r : Trace} (h : forall ans, WritesAll c ans -> (k ans).Meets traceEffects P (r.after c ans)) :
    Segment.Meets traceEffects P (.call c k) r :=
  Segment.meets_call trivial h

theorem meets_handleClose_trace {P : Contract ReceiveAt ReceiveResult Trace} (fd : Nat) {k : Code}
    {r : Trace} (h : k.Meets traceEffects P r) :
    (handleClose fd k).Meets traceEffects P r :=
  meets_trace fun _ _ => meets_trace fun _ _ => h

theorem meets_ends_trace {P : Contract ReceiveAt ReceiveResult Trace} {res : ReceiveResult}
    {r : Trace} (h : P.ret res r) : (ends res).Meets traceEffects P r :=
  meets_trace fun _ _ => h

theorem meets_compacts_trace (fd : Nat) {st : RecvState} {r : Trace}
    (h : Amid tbl_names counts r st)
    (hend : forall n, st.unread.length < n -> msgLoop tbl_names n st = ([], st, none)) :
    (compacts fd st).Meets traceEffects (traced tbl_names counts) r := by
  have hat := at_of_amid h hend
  rw [if_pos rfl, if_pos rfl] at hat
  have hclosed : forall res, (compact st).2 = some res -> res = .closed := by
    intro res hres
    unfold compact at hres
    split at hres
    · cases hres
    · split at hres
      · exact (Option.some.inj hres).symm
      · split at hres <;> cases hres
  unfold compacts
  rcases hcompact : compact st with ⟨st', _ | res⟩
  · rw [hcompact] at hat
    exact hat
  · rw [hcompact] at hat hclosed
    rw [hclosed res rfl] at hat
    exact meets_handleClose_trace fd (meets_ends_trace ⟨st', hat⟩)

theorem recvTurn_next {st st' : RecvState} {written : Option (List UInt8)}
    (h : recvTurn tbl_names st = .next st' written) :
    st'.ary = st.ary ∧ st.rdOff < st'.rdOff := by
  unfold recvTurn at h
  split at h
  · cases h
  · rename_i len _
    unfold takeMsg at h
    split at h
    · split at h
      · cases h
      · cases h
        refine ⟨rfl, ?_⟩
        dsimp only
        omega
    · split at h
      · cases h
        refine ⟨rfl, ?_⟩
        dsimp only
        omega
      · split at h
        · cases h
        · split at h <;> cases h

theorem amid_next {r : Trace} {st st' : RecvState} {written : Option (List UInt8)}
    (h : Amid tbl_names counts r st) (hlt : st.rdOff < st.wrOff)
    (hturn : recvTurn tbl_names st = .next st' written) :
    Amid tbl_names counts { r with written := r.written ++ written.toList } st' := by
  rcases h with ⟨events, bytes, st₀, before, now, n, hevents, hwritten, hbefore, hn, hloop⟩
  rcases recvTurn_next hturn with ⟨hary, hoff⟩
  have hlen : st.unread.length = st.wrOff - st.rdOff := List.length_drop
  have hlen' : st'.unread.length = st'.ary.length - st'.rdOff := List.length_drop
  have hwr : st.wrOff = st.ary.length := rfl
  cases n with
  | zero => omega
  | succ n =>
      refine ⟨events, bytes, st₀, before, now ++ written.toList, n, hevents, ?_, hbefore, ?_, ?_⟩
      · rw [hwritten, List.append_assoc]
      · rw [hary] at hlen'
        omega
      · rw [hloop, msgLoop, if_neg (by omega), if_neg (by omega), hturn, List.append_assoc]

theorem meets_turn_trace (fd : Nat) {st : RecvState} {r : Trace}
    (h : Amid tbl_names counts r st) :
    (turn fd tbl_names st).Meets traceEffects (traced tbl_names counts) r := by
  have hsucc : forall {n : Nat}, st.unread.length < n -> exists k, n = k + 1 :=
    fun hn => ⟨_, (Nat.succ_pred_eq_of_pos (Nat.lt_of_le_of_lt (Nat.zero_le _) hn)).symm⟩
  unfold turn
  split
  · rename_i heq
    refine meets_compacts_trace fd h fun n hn => ?_
    rcases hsucc hn with ⟨k, rfl⟩
    rw [msgLoop, if_pos heq]
  · rename_i hne
    split
    · trivial
    · rename_i hle
      have hlt : st.rdOff < st.wrOff := by omega
      split
      · rename_i st' hturn
        have hnext := amid_next h hlt hturn
        rw [Option.toList_none, List.append_nil] at hnext
        exact hnext
      · rename_i st' payload hturn
        refine meets_trace fun io_res hans => ?_
        change io_res = .ok payload.length at hans
        rw [hans]
        exact amid_next h hlt hturn
      · rename_i hturn
        refine meets_compacts_trace fd h fun n hn => ?_
        rcases hsucc hn with ⟨k, rfl⟩
        rw [msgLoop, if_neg hne, if_neg hle, hturn]
      · rename_i hturn
        have hend : forall n, st.unread.length < n ->
            msgLoop tbl_names n st = ([], st, some .closed) := by
          intro n hn
          rcases hsucc hn with ⟨k, rfl⟩
          rw [msgLoop, if_neg hne, if_neg hle, hturn]
        exact meets_handleClose_trace fd (meets_ends_trace ⟨st, at_of_amid h hend⟩)
      · exact h
      · trivial
      · trivial
      · trivial

theorem meets_received_trace (fd : Nat) {st : RecvState} (rev : UInt32) {r : Trace}
    (h : At tbl_names counts r st none) :
    (received fd st rev).Meets traceEffects (traced tbl_names counts) r := by
  have hevent := fun event => kdbReadTcpMessages_concat r.events event h
  unfold received
  split
  · refine meets_ends_trace (Or.inr ⟨st, ?_⟩)
    refine (hevent .epollErr).trans ?_
    rw [onEvent, List.append_nil]
  · refine meets_trace fun io_res _ => ?_
    rcases io_res with e | _ | ⟨b, more⟩
    · dsimp only
      by_cases hagain : e = eagain
      · rw [if_pos hagain]
        refine meets_ends_trace ⟨st, ?_⟩
        unfold At Trace.after Trace.onRead
        dsimp only
        rw [if_pos hagain, hevent, onEvent, List.append_nil]
      · rw [if_neg hagain]
        by_cases hintr : e = eintr
        · rw [if_pos hintr]
          change At tbl_names counts (r.onRead (.error e)) st none
          unfold At Trace.onRead
          dsimp only
          rw [if_neg hagain, if_pos hintr, hevent, onEvent, List.append_nil]
        · rw [if_neg hintr]
          refine meets_handleClose_trace fd (meets_ends_trace ⟨st, ?_⟩)
          unfold At Trace.after Trace.onRead
          dsimp only
          rw [if_neg hagain, if_neg hintr, hevent, onEvent, List.append_nil]
    · refine meets_handleClose_trace fd (meets_ends_trace ⟨st, ?_⟩)
      refine (hevent .eof).trans ?_
      rw [onEvent, List.append_nil]
      rfl
    · refine ⟨r.events, b :: more, st, r.written, [], _, rfl, (List.append_nil _).symm, h,
        Nat.lt_succ_of_le ?_, rfl⟩
      change ((st.ary ++ b :: more).drop st.rdOff).length <= (st.ary.drop st.rdOff).length + _
      rw [List.length_drop, List.length_drop, List.length_append]
      omega

theorem keeps_traced (fd : Nat) (tbl_names : List (List UInt8)) (counts : TpMsgCounts) :
    (kdbReadTcpMessagesCo fd tbl_names counts).Keeps traceEffects (fun r => r = .nothing)
      (traced tbl_names counts) where
  entry := by
    rintro _ rfl
    refine meets_trace fun awaiter _ => meets_trace fun result _ => ?_
    cases result with
    | error e => exact meets_ends_trace (Or.inl rfl)
    | ok _ => rfl
  label := by
    rintro (st | st) r h
    · exact h.elim
    · exact meets_turn_trace fd h
  resume := by
    rintro (st | st) rev r h _
    · exact meets_received_trace fd rev h
    · exact h.elim

end Receiving

/-!
## All coroutines
-/

section Journal

variable {ι : Type} [DecidableEq ι]

def entriesOf (w : List (ι × List UInt8)) (i : ι) : List (List UInt8) :=
  (w.filter (fun e => e.1 = i)).map Prod.snd

theorem entriesOf_concat (w : List (ι × List UInt8)) (i j : ι) (payload : List UInt8) :
    entriesOf (w ++ [(i, payload)]) j = entriesOf w j ++ if i = j then [payload] else [] := by
  unfold entriesOf
  rw [List.filter_append, List.map_append, List.filter_singleton]
  by_cases hij : i = j
  · simp [hij]
  · simp [hij]

theorem separate_journal :
    Separate traceEffects (journalEffects (ι := ι))
      (fun w held => forall i, entriesOf w i = (held i).written) where
  possible := fun _ _ hans => hans
  after := by
    intro w held i c ans h _ hans j
    have hheld : (Function.update held i (traceEffects.after (held i) c ans) j).written =
        if j = i then ((held i).after c ans).written else (held j).written := by
      rw [Function.update_apply]
      split <;> rfl
    rw [hheld]
    cases c with
    | writeJournal payload =>
        change entriesOf (w ++ [(i, payload)]) j = _
        rw [entriesOf_concat, h]
        by_cases hij : i = j
        · rw [if_pos hij, if_pos hij.symm, hij]
          rfl
        · rw [if_neg hij, if_neg (Ne.symm hij), List.append_nil]
    | read fd len =>
        have hread : ((held i).onRead ans).written = (held i).written := by
          rcases ans with e | _ | ⟨b, more⟩ <;> rfl
        change entriesOf w j = if j = i then ((held i).onRead ans).written else (held j).written
        rw [hread, h]
        split
        · rename_i hj
          rw [hj]
        · rfl
    | _ =>
        refine (h j).trans ?_
        split
        · rename_i hj
          rw [hj]
          rfl
        · rfl

variable {fd : ι -> Nat} {tables : ι -> List (List UInt8)} {counts : ι -> TpMsgCounts}

abbrev receivers (fd : ι -> Nat) (tables : ι -> List (List UInt8)) (counts : ι -> TpMsgCounts)
    (i : ι) : Coroutine IoCall IoCall.Answer UInt32 ReceiveResult :=
  kdbReadTcpMessagesCo (fd i) (tables i) (counts i)

def beginReceiving (fd : ι -> Nat) (tables : ι -> List (List UInt8)) (counts : ι -> TpMsgCounts) :
    Turns (receivers fd tables counts) Trace (List (ι × List UInt8)) where
  status := fun i => .running (receivers fd tables counts i).entry
  held := fun _ => .nothing
  world := []

/--
In every order of the calls of all coroutines, one that waits has written to the journal, and has
in its frame, what the model of its loops comes to on the events it has seen; and one that has
ended has ended as the model does.
-/
theorem receivers_refine {t : Turns (receivers fd tables counts) Trace (List (ι × List UInt8))}
    (hreaches : (beginReceiving fd tables counts).Reaches traceEffects journalEffects t) (i : ι) :
    (forall s, t.status i = .waiting s -> exists st, s = .outer st ∧
      kdbReadTcpMessages (tables i) (recvStart (counts i)) (t.held i).events =
        (entriesOf t.world i, st, none)) ∧
    (forall res, t.status i = .ended res ->
      Receiving.EndsAs (tables i) (counts i) ⟨(t.held i).events, entriesOf t.world i⟩ res) := by
  have hkeeps := fun i => Receiving.keeps_traced (fd i) (tables i) (counts i)
  have hstart : (beginReceiving fd tables counts).Orderly traceEffects
      (fun w held => forall i, entriesOf w i = (held i).written)
      (fun i => Receiving.traced (tables i) (counts i)) :=
    ⟨fun _ => rfl, fun i => (hkeeps i).entry _ rfl⟩
  have horderly := Turns.Reaches.orderly separate_journal hkeeps hstart hreaches
  have hwritten := horderly.split i
  constructor
  · intro s hs
    have hwait := horderly.here hs
    rcases s with st | st
    · refine ⟨st, rfl, ?_⟩
      rw [hwritten]
      exact hwait
    · exact hwait.elim
  · intro res hres
    have hret := horderly.here hres
    rw [hwritten]
    exact hret

end Journal

section Steps

variable {fd : Nat} {tbl_names : List (List UInt8)} {counts : TpMsgCounts}

theorem resume_read (st : RecvState) {rev : UInt32} (hrev : rev &&& epollErr = 0) :
    exists k, (kdbReadTcpMessagesCo fd tbl_names counts).resume (.outer st) rev =
        .call (.read fd (readRoom st)) k ∧
      (forall bytes, bytes ≠ [] ->
        k (.ok bytes) = .goto (.inner { st with ary := st.ary ++ bytes })) ∧
      k (.ok []) = Receiving.handleClose fd (Receiving.ends .closed) := by
  change exists k, Receiving.received fd st rev = .call (.read fd (readRoom st)) k ∧ _
  unfold Receiving.received
  rw [if_neg (fun h => h hrev)]
  refine ⟨_, rfl, ?_, rfl⟩
  intro bytes hbytes
  cases bytes with
  | nil => exact absurd rfl hbytes
  | cons b more => rfl

theorem label_write {st st' : RecvState} {payload : List UInt8} (hlt : st.rdOff < st.wrOff)
    (h : recvTurn tbl_names st = .next st' (some payload)) :
    exists k, (kdbReadTcpMessagesCo fd tbl_names counts).label (.inner st) =
        .call (.writeJournal payload) k ∧
      forall n, k (.ok n) = .goto (.inner st') := by
  change exists k, Receiving.turn fd tbl_names st = .call (.writeJournal payload) k ∧ _
  unfold Receiving.turn
  rw [if_neg (by omega), if_neg (by omega), h]
  exact ⟨_, rfl, fun _ => rfl⟩

theorem label_drained {st : RecvState} (h : st.rdOff = st.wrOff) :
    (kdbReadTcpMessagesCo fd tbl_names counts).label (.inner st) =
      .wait (.outer { st with ary := [], rdOff := 0 }) := by
  change Receiving.turn fd tbl_names st = _
  unfold Receiving.turn Receiving.compacts compact
  rw [if_pos h.symm, if_pos h]
  rfl

end Steps

theorem recvTurn_updMsg :
    recvTurn [[116]] ⟨updMsg.bytes, 0, ⟨0, 0⟩⟩ =
      .next ⟨updMsg.bytes, updMsg.bytes.length, ⟨1, 1⟩⟩ (some updMsg.payload.bytes) := by
  have hanswer : filterMsg updMsg.bytes updName [[116]] = some updMsg.bytes.length := by
    decide +kernel
  unfold recvTurn
  rw [show RecvState.unread ⟨updMsg.bytes, 0, ⟨0, 0⟩⟩ = updMsg.bytes from rfl, hanswer]
  rfl

/-- A message comes and is written, and then the connection is closed. -/
theorem receivers_refine_update : exists t : Turns
      (receivers (fun _ : Unit => 3) (fun _ => [[116]]) (fun _ => ⟨0, 0⟩)) Trace
      (List (Unit × List UInt8)),
    t.status () = .ended .closed ∧ (t.held ()).events = [.data updMsg.bytes, .eof] ∧
      entriesOf t.world () = [updMsg.payload.bytes] ∧
      Receiving.EndsAs [[116]] ⟨0, 0⟩ ⟨(t.held ()).events, entriesOf t.world ()⟩ .closed := by
  have hready : (1 : UInt32) &&& epollErr = 0 := by decide
  rcases resume_read (recvStart ⟨0, 0⟩) hready with ⟨kread, hread, hdata, _⟩
  rcases label_write (by decide +kernel) recvTurn_updMsg with ⟨kwrite, hwrite, hwritten⟩
  rcases resume_read ⟨[], 0, ⟨1, 1⟩⟩ hready with ⟨klast, hlast, _, heof⟩
  have hentry : (beginReceiving (fun _ : Unit => 3) (fun _ => [[116]])
      (fun _ => ⟨0, 0⟩)).Reaches traceEffects journalEffects
      (Turns.solo (.running (Receiving.entry 3 ⟨0, 0⟩)) .nothing []) := .refl
  have hawaiter := Turns.solo_call (c := IoCall.awaiter) 0 hentry trivial trivial
  have hadd := Turns.solo_call (c := IoCall.addInterest 3 epollIn 0) (.ok ()) hawaiter
    trivial trivial
  have hmsg := Turns.solo_call (c := IoCall.read 3 aryCapacity) (.ok updMsg.bytes)
    (Turns.solo_event 1 (Turns.solo_wait hadd) trivial hread) trivial trivial
  rw [hdata updMsg.bytes (by decide +kernel)] at hmsg
  have hall : WritesAll (.writeJournal updMsg.payload.bytes)
      (.ok updMsg.payload.bytes.length) := rfl
  have hjournal := Turns.solo_call _ (Turns.solo_goto hmsg hwrite) trivial hall
  rw [hwritten] at hjournal
  have hdrained := Turns.solo_wait (Turns.solo_goto hjournal (label_drained rfl))
  have hend := Turns.solo_call (c := IoCall.read 3 aryCapacity) (.ok [])
    (Turns.solo_event 1 hdrained trivial hlast) trivial trivial
  rw [heof] at hend
  have hclr := Turns.solo_call (c := IoCall.clrInterest 3) (.ok ()) hend trivial trivial
  have hclose := Turns.solo_call (c := IoCall.close 3) (.ok ()) hclr trivial trivial
  have hleave := Turns.solo_call (c := IoCall.leave) () hclose trivial trivial
  have hended := Turns.solo_ret hleave
  exact ⟨_, rfl, rfl, rfl, (receivers_refine hended ()).right .closed rfl⟩

end MgKdb
