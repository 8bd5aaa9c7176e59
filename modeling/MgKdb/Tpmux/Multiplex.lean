import Mathlib.Logic.Function.Basic
import MgKdb.Tpmux.Stream

/-!
# Several subscriptions, one journal

Each subscription is a coroutine that runs until it waits for its socket again, so that
the events of all of them are handled one after the other, in any order.  They share
the journal and nothing else.
-/

namespace MgKdb

open Foundation

universe u

/-- The subscriptions: their tables, their counts on entry, what their tickerplants send. -/
structure MuxConfig (ι : Type u) where
  tables : ι -> List (List UInt8)
  counts : ι -> TpMsgCounts
  stream : ι -> List TpMsg

/--
The state between two events.  Every write to the journal is listed with the
subscription it comes from; `got` are the bytes that a subscription has read.
-/
structure MuxState (ι : Type u) where
  conn : ι -> RecvState
  ended : ι -> Option RecvEnd
  got : ι -> List UInt8
  journal : List (ι × List UInt8)

def IoEvent.bytes : IoEvent -> List UInt8
  | data bytes => bytes
  | _ => []

section Mux

variable {ι : Type u} [DecidableEq ι] (cfg : MuxConfig ι)

def MuxState.start : MuxState ι where
  conn := fun i => recvStart (cfg.counts i)
  ended := fun _ => none
  got := fun _ => []
  journal := []

def MuxState.dispatch (s : MuxState ι) (i : ι) (event : IoEvent) : MuxState ι :=
  let out := onEvent (cfg.tables i) (s.conn i) event
  { conn := Function.update s.conn i out.2.1
    ended := Function.update s.ended i out.2.2
    got := Function.update s.got i (s.got i ++ event.bytes)
    journal := s.journal ++ out.1.map (fun written => (i, written)) }

/-- A read answers what the tickerplant sent, some of it, and no more than asked for. -/
def CanHappen (s : MuxState ι) (i : ι) : IoEvent -> Prop
  | .data bytes => bytes ≠ [] ∧ bytes.length <= readRoom (s.conn i) ∧
      s.got i ++ bytes <+: (cfg.stream i).flatMap TpMsg.bytes
  | _ => True

inductive MuxReaches : MuxState ι -> Prop where
  | start : MuxReaches (MuxState.start cfg)
  | step {s : MuxState ι} (h : MuxReaches s) (i : ι) (event : IoEvent)
      (hopen : s.ended i = none) (hevent : CanHappen cfg s i event) :
      MuxReaches (s.dispatch cfg i event)

def MuxState.writtenBy (s : MuxState ι) (i : ι) : List (List UInt8) :=
  (s.journal.filter (fun w => w.1 = i)).map Prod.snd

def MuxState.received (s : MuxState ι) (i : ι) : List TpMsg :=
  whole TpMsg.bytes (cfg.stream i) (s.got i).length

/-!
## The invariant
-/

structure Dealt (s : MuxState ι) (i : ι) : Prop where
  prefixed : s.got i <+: (cfg.stream i).flatMap TpMsg.bytes
  written : s.writtenBy i = TpMsg.payloads (cfg.tables i) (s.received cfg i)
  counted : (s.conn i).counts = (cfg.counts i).after (cfg.tables i) (s.received cfg i)
  /-- While it is open it stands where a message ends, with an empty buffer. -/
  idle : s.ended i = none ->
    s.conn i = recvStart (s.conn i).counts ∧
      s.got i = (s.received cfg i).flatMap TpMsg.bytes

variable {cfg}

theorem writtenBy_dispatch (s : MuxState ι) (i j : ι) (event : IoEvent) :
    (s.dispatch cfg i event).writtenBy j =
      if i = j then s.writtenBy j ++ (onEvent (cfg.tables i) (s.conn i) event).1
      else s.writtenBy j := by
  have hnew : ((onEvent (cfg.tables i) (s.conn i) event).1.map (fun written => (i, written))).filter
      (fun w => w.1 = j) = if i = j
        then (onEvent (cfg.tables i) (s.conn i) event).1.map (fun written => (i, written))
        else [] := by
    by_cases hij : i = j
    · rw [if_pos hij]
      exact List.filter_eq_self.mpr (by simp [hij])
    · rw [if_neg hij]
      exact List.filter_eq_nil_iff.mpr (by simp [hij])
  rw [MuxState.writtenBy, MuxState.dispatch, List.filter_append, List.map_append, hnew]
  by_cases hij : i = j
  · rw [if_pos hij, if_pos hij, List.map_map]
    simp [MuxState.writtenBy, Function.comp_def]
  · rw [if_neg hij, if_neg hij, List.map_nil, List.append_nil]
    rfl

theorem start_dealt (i : ι) : Dealt cfg (MuxState.start cfg) i := by
  have hnone : (MuxState.start cfg).received cfg i = [] :=
    whole_zero TpMsg.bytes_pos _
  refine ⟨List.nil_prefix, ?_, ?_, fun _ => ⟨rfl, ?_⟩⟩
  · rw [hnone]
    rfl
  · rw [hnone, after_nil]
    rfl
  · rw [hnone]
    rfl

theorem onEvent_nothing {counts : TpMsgCounts} {tbl_names : List (List UInt8)}
    {event : IoEvent} (h : forall bytes, event ≠ .data bytes) :
    exists res, onEvent tbl_names (recvStart counts) event = ([], recvStart counts, res) := by
  cases event with
  | data bytes => exact absurd rfl (h bytes)
  | epollErr => exact ⟨_, rfl⟩
  | eagain => exact ⟨_, rfl⟩
  | eintr => exact ⟨_, rfl⟩
  | error => exact ⟨_, rfl⟩
  | eof => exact ⟨_, rfl⟩

theorem dispatch_other {s : MuxState ι} {i j : ι} {event : IoEvent} (hij : i ≠ j)
    (h : Dealt cfg s j) : Dealt cfg (s.dispatch cfg i event) j := by
  have hgot : (s.dispatch cfg i event).got j = s.got j := Function.update_of_ne hij.symm _ _
  have hconn : (s.dispatch cfg i event).conn j = s.conn j :=
    Function.update_of_ne hij.symm _ _
  have hended : (s.dispatch cfg i event).ended j = s.ended j :=
    Function.update_of_ne hij.symm _ _
  have hreceived : (s.dispatch cfg i event).received cfg j = s.received cfg j := by
    rw [MuxState.received, hgot, MuxState.received]
  refine ⟨by rw [hgot]; exact h.prefixed, ?_, by rw [hconn, hreceived]; exact h.counted, ?_⟩
  · rw [writtenBy_dispatch, if_neg hij, hreceived]
    exact h.written
  · rw [hended, hconn, hgot, hreceived]
    exact h.idle

theorem dispatch_self {s : MuxState ι} {i : ι} {event : IoEvent}
    (hopen : s.ended i = none) (hevent : CanHappen cfg s i event) (h : Dealt cfg s i) :
    Dealt cfg (s.dispatch cfg i event) i := by
  rcases h.idle hopen with ⟨hconn, hgot⟩
  obtain ⟨out, hout⟩ : exists out, onEvent (cfg.tables i) (s.conn i) event = out := ⟨_, rfl⟩
  have hgot' : (s.dispatch cfg i event).got i = s.got i ++ event.bytes :=
    Function.update_self _ _ _
  have hconn' : (s.dispatch cfg i event).conn i = out.2.1 := by
    rw [← hout]
    exact Function.update_self _ _ _
  have hended' : (s.dispatch cfg i event).ended i = out.2.2 := by
    rw [← hout]
    exact Function.update_self _ _ _
  have hwritten' : (s.dispatch cfg i event).writtenBy i = s.writtenBy i ++ out.1 := by
    rw [writtenBy_dispatch, if_pos rfl, hout]
  by_cases hdata : exists bytes, event = .data bytes
  · rcases hdata with ⟨piece, rfl⟩
    rcases hevent with ⟨_, _, hpre⟩
    -- the piece continues the stream behind the messages received before
    rcases whole_front TpMsg.bytes (cfg.stream i) (s.got i).length with
      ⟨more, hmore⟩
    change s.received cfg i ++ more = cfg.stream i at hmore
    have hpiece : piece <+: more.flatMap TpMsg.bytes := by
      rw [← hmore, List.flatMap_append, hgot, List.prefix_append_right_inj] at hpre
      exact hpre
    rcases @onEvent_data (cfg.tables i) (s.conn i).counts _ _ hpiece with
      ⟨st, part, hsplit, hevent, hcounts, hidle⟩
    rw [← hconn, hout] at hevent
    obtain ⟨ws, hws⟩ : exists ws, ws = whole TpMsg.bytes more piece.length := ⟨_, rfl⟩
    rw [← hws] at hsplit hevent hcounts hidle
    have hreceived : (s.dispatch cfg i (.data piece)).received cfg i =
        s.received cfg i ++ ws := by
      rw [MuxState.received, hgot', List.length_append]
      conv => lhs; rw [← hmore, hgot]
      rw [whole_append, hws]
      rfl
    refine ⟨by rw [hgot']; exact hpre, ?_, ?_, ?_⟩
    · rw [hwritten', hreceived, hevent, h.written, payloads_append]
    · rw [hconn', hreceived, hevent, hcounts, h.counted, after_append]
    · rw [hended', hconn', hreceived, hgot', hevent]
      intro hopen'
      have hnil : part = [] := by
        by_contra hne
        rw [if_neg hne] at hopen'
        cases hopen'
      refine ⟨by rw [hidle hnil]; rfl, ?_⟩
      rw [List.flatMap_append, ← hgot]
      rw [hnil, List.append_nil] at hsplit
      exact congrArg (s.got i ++ ·) hsplit
  · have hnothing : forall bytes, event ≠ .data bytes :=
      fun bytes hbytes => hdata ⟨bytes, hbytes⟩
    have hbytes : event.bytes = [] := by
      cases event with
      | data bytes => exact absurd rfl (hnothing bytes)
      | _ => rfl
    rcases @onEvent_nothing (s.conn i).counts (cfg.tables i) event hnothing with
      ⟨res, hres⟩
    rw [← hconn, hout] at hres
    rw [hbytes, List.append_nil] at hgot'
    have hreceived : (s.dispatch cfg i event).received cfg i = s.received cfg i := by
      rw [MuxState.received, hgot', MuxState.received]
    refine ⟨by rw [hgot']; exact h.prefixed, ?_, ?_, ?_⟩
    · rw [hwritten', hreceived, hres, List.append_nil]
      exact h.written
    · rw [hconn', hreceived, hres]
      exact h.counted
    · intro _
      rw [hconn', hreceived, hgot', hres]
      exact ⟨hconn, hgot⟩

theorem MuxReaches.dealt {s : MuxState ι} (h : MuxReaches cfg s) (i : ι) : Dealt cfg s i := by
  induction h with
  | start => exact start_dealt i
  | step h j event hopen hevent ih =>
      by_cases hij : j = i
      · subst hij
        exact dispatch_self hopen hevent ih
      · exact dispatch_other hij ih

/-!
## What the journal holds
-/

variable (cfg)

structure Safe (s : MuxState ι) : Prop where
  whole : forall w, w ∈ s.journal -> exists m, m ∈ cfg.stream w.1 ∧
    m.included (cfg.tables w.1) = true ∧ w.2 = m.payload.bytes
  inOrder : forall i, s.writtenBy i <+: TpMsg.payloads (cfg.tables i) (cfg.stream i)
  counted : forall i, (s.conn i).counts.numMsgIncluded.toNat =
    (cfg.counts i).numMsgIncluded.toNat + (s.writtenBy i).length

variable {cfg}

/--
In every state that any order of events leads to, the journal is a sequence of whole
payloads, from each tickerplant the first of those that match, in order, and the counts
say how many: exactly when no count overflows.
-/
theorem MuxReaches.safe {s : MuxState ι} (h : MuxReaches cfg s) :
    Safe cfg s <-> forall i, (cfg.counts i).numMsgIncluded.toNat +
      (TpMsg.payloads (cfg.tables i) (s.received cfg i)).length < 2 ^ 32 := by
  have hcount : forall i, (s.conn i).counts.numMsgIncluded.toNat =
      (cfg.counts i).numMsgIncluded.toNat + (s.writtenBy i).length <->
      (cfg.counts i).numMsgIncluded.toNat +
        (TpMsg.payloads (cfg.tables i) (s.received cfg i)).length < 2 ^ 32 := by
    intro i
    rw [(h.dealt i).counted, (h.dealt i).written]
    exact toNat_add_ofNat _ _
  constructor
  · exact fun hsafe i => (hcount i).mp (hsafe.counted i)
  · intro hfit
    refine ⟨?_, ?_, fun i => (hcount i).mpr (hfit i)⟩
    · intro w hw
      have hmem : w.2 ∈ s.writtenBy w.1 :=
        List.mem_map.mpr ⟨w, List.mem_filter.mpr ⟨hw, by simp⟩, rfl⟩
      rw [(h.dealt w.1).written] at hmem
      rcases List.mem_map.mp hmem with ⟨m, hm, hpayload⟩
      rcases List.mem_filter.mp hm with ⟨hm', hincluded⟩
      exact ⟨m, (whole_front _ _ _).subset hm', hincluded, hpayload.symm⟩
    · intro i
      rw [(h.dealt i).written]
      rcases whole_front TpMsg.bytes (cfg.stream i) (s.got i).length with
        ⟨more, hmore⟩
      rw [← hmore, payloads_append]
      exact List.prefix_append _ _

end Mux

/-- Two tickerplants that send the same call each. -/
def twoCalls : MuxConfig Bool where
  tables := fun _ => [[116]]
  counts := fun _ => ⟨0, 0⟩
  stream := fun _ => [updMsg]

/-- Both calls are read, the second connection's first. -/
theorem MuxReaches.safe_both :
    Safe twoCalls (((MuxState.start twoCalls).dispatch twoCalls true
      (.data updMsg.bytes)).dispatch twoCalls false (.data updMsg.bytes)) := by
  have hsecond : MuxReaches twoCalls
      ((MuxState.start twoCalls).dispatch twoCalls true (.data updMsg.bytes)) :=
    .step .start true _ rfl ⟨by decide +kernel, by decide +kernel, by decide +kernel⟩
  have hboth := hsecond.step false (.data updMsg.bytes) rfl
    ⟨by decide +kernel, by decide +kernel, by decide +kernel⟩
  exact (MuxReaches.safe hboth).mpr (by decide +kernel)

/-- One tickerplant, whose matching messages are counted from the largest count on. -/
def lastCount : MuxConfig Unit where
  tables := fun _ => [[116]]
  counts := fun _ => ⟨0, 4294967295⟩
  stream := fun _ => [updMsg]

/-- One more matching message: the count is zero again. -/
theorem MuxReaches.safe_overflow :
    ¬ forall (cfg : MuxConfig Unit) (s : MuxState Unit), MuxReaches cfg s ->
      Safe cfg s := by
  intro hclaim
  have hsafe := hclaim lastCount _ (.step .start () (.data updMsg.bytes) rfl
    ⟨by decide +kernel, by decide +kernel, by decide +kernel⟩)
  have hcount := hsafe.counted ()
  revert hcount
  decide +kernel

end MgKdb
