import MgKdb.Tpmux.Multiplex
import MgKdb.Tpmux.ReadWhole
import MgKdb.Tpmux.Replay
import MgKdb.Tpmux.Response

/-!
# From the replay to the live stream

A subscription first copies what its tickerplant had logged when it answered, and then what it
sends.  Other subscriptions may write to the journal between the two, and while either goes on.
What `kdb_read_message` takes behind the answer is dropped with its buffer, and the live stream
goes on behind it.
-/

namespace MgKdb

open Foundation

universe u

/-!
## A tickerplant
-/

structure Tickerplant where
  tables : List (List UInt8)
  /-- What an earlier subscription has dealt with. -/
  counts : TpMsgCounts
  /-- Every message, in order. -/
  history : List Payload
  hdr : List UInt8
  /-- The messages in the journal when it is read. -/
  logged : Nat
  /-- `.u.i` and the journal's path in the answer to the subscription. -/
  upto : Nat
  src_path : List UInt8
  /-- The messages behind `.u.i`, as they are sent. -/
  sent : List TpMsg
  /-- The answer, how its bytes arrive, and what reads it. -/
  answer : Spelling
  sizes : Nat -> Nat
  env : ReadMessageEnv
  /-- How many bytes behind the answer `kdb_read_message` has taken. -/
  taken : Nat
  wellFormed : forall p, p ∈ history -> p.WellFormed
  dictsFit : forall p, p ∈ history -> p.DictsFit
  hdr_length : hdr.length = 8
  small : (hdr ++ (history.map Payload.bytes).flatten).length < 2 ^ 63
  opens : checkResponse .response answer.value.obj counts = .opens upto src_path
  upto_le : upto <= logged
  logged_le : logged <= history.length
  sent_eq : sent.map (fun m => m.payload.bytes) = (history.drop upto).map Payload.bytes
  taken_eq : exists n res, streamAt env (answer.message .response ++ sent.flatMap TpMsg.bytes)
    sizes n = (.returned (.ok res), (answer.message .response).length + taken)

namespace Tickerplant

def live (tp : Tickerplant) : List UInt8 :=
  tp.sent.flatMap TpMsg.bytes

/-- `kdb_read_message` takes the answer and nothing behind it. -/
def AnswersAlone (tp : Tickerplant) : Prop :=
  ReturnsMessage tp.env .response tp.answer tp.live tp.sizes

def jnl (tp : Tickerplant) : List UInt8 :=
  tp.hdr ++ ((tp.history.take tp.logged).map Payload.bytes).flatten

/-- What `kdb_subscribe_and_replay` writes, and how it ends. -/
def replayOut (tp : Tickerplant) : List (List UInt8) × ReplayEnd :=
  kdbSubscribeAndReplay tp.jnl tp.upto tp.tables tp.counts

def replayed (tp : Tickerplant) : TpMsgCounts :=
  match tp.replayOut.2 with
  | .ok counts => counts
  | _ => tp.counts

/-- The payloads that are to be copied of the first `n` messages. -/
def wanted (tp : Tickerplant) (n : Nat) : List (List UInt8) :=
  selected tp.tables tp.counts.numMsgTotal.toNat (tp.history.take n)

variable (tp : Tickerplant)

theorem counts_le : tp.counts.numMsgTotal.toNat <= tp.upto :=
  Int.ofNat_le.mp (checkResponse_opens tp.opens)

theorem taken_zero (h : tp.AnswersAlone) : tp.taken = 0 := by
  rcases h with ⟨n, res, hend, _⟩
  rcases tp.taken_eq with ⟨m, res', hend'⟩
  have hlater := streamAt_returned hend m
  have hlater' := streamAt_returned hend' n
  rw [Nat.add_comm m n] at hlater'
  have heq := congrArg Prod.snd (hlater.symm.trans hlater')
  dsimp only at heq
  omega

theorem flatten_take_le (n : Nat) (ps : List Payload) :
    ((ps.take n).map Payload.bytes).flatten.length <= ((ps.map Payload.bytes).flatten).length := by
  have hsplit := congrArg (fun qs => ((qs.map Payload.bytes).flatten).length)
    (List.take_append_drop n ps)
  simp only [List.map_append, List.flatten_append, List.length_append] at hsplit
  omega

theorem replayOut_eq : tp.replayOut = (tp.wanted tp.upto, .ok
    { numMsgTotal := UInt32.ofNat tp.upto
      numMsgIncluded :=
        tp.counts.numMsgIncluded + UInt32.ofNat (tp.wanted tp.upto).length }) := by
  have htake : (tp.history.take tp.logged).take tp.upto = tp.history.take tp.upto := by
    rw [List.take_take, Nat.min_eq_left tp.upto_le]
  have hsize : (tp.hdr ++ ((tp.history.take tp.logged).map Payload.bytes).flatten).length <
      2 ^ 63 := by
    have hsmall := tp.small
    have hle := flatten_take_le tp.logged tp.history
    rw [List.length_append] at hsmall ⊢
    omega
  have hreplay := kdbSubscribeAndReplay_eq tp.hdr_length
    (fun p hp => tp.wellFormed p (List.mem_of_mem_take hp)) hsize tp.counts_le
    (by rw [List.length_take]; have := tp.upto_le; have := tp.logged_le; omega) tp.tables
    (fun p hp => tp.dictsFit p (List.mem_of_mem_take (List.mem_of_mem_take hp)))
  rw [htake] at hreplay
  exact hreplay

theorem replayed_eq : tp.replayed =
    { numMsgTotal := UInt32.ofNat tp.upto
      numMsgIncluded :=
        tp.counts.numMsgIncluded + UInt32.ofNat (tp.wanted tp.upto).length } := by
  rw [replayed, tp.replayOut_eq]

theorem included_eq {m : TpMsg} {p : Payload} (hp : p.WellFormed)
    (hbytes : m.payload.bytes = p.bytes) (tbl_names : List (List UInt8)) :
    m.included tbl_names = p.isUpd updName tbl_names := by
  rcases p.exists_outline hp with ⟨o, hob, hcount, hupd⟩
  have hshort := m.short
  have hpos := m.payload.bytes_pos
  have hm := filterUpdMsg_outline m.payload m.countFits (by omega) updName tbl_names []
  have ho := filterUpdMsg_outline o hcount (by rw [hob, <- hbytes]; omega) updName tbl_names []
  rw [hob, <- hbytes, hm, hupd] at ho
  have heq := Option.some.inj ho
  rw [TpMsg.included]
  by_contra hne
  rcases Bool.eq_false_or_eq_true (m.payload.isUpd updName tbl_names) with hpm | hpm
  · have hpp : p.isUpd updName tbl_names = false := by simpa [hpm] using Ne.symm hne
    simp only [hpm, hpp, if_true, Bool.false_eq_true, if_false] at heq
    omega
  · have hpp : p.isUpd updName tbl_names = true := by simpa [hpm] using Ne.symm hne
    simp only [hpm, hpp, if_true, Bool.false_eq_true, if_false] at heq
    omega

/-- What is copied of the messages that are sent is what is wanted of those that are logged. -/
theorem payloads_eq (tbl_names : List (List UInt8)) :
    forall {ms : List TpMsg} {ps : List Payload},
    (forall p, p ∈ ps -> p.WellFormed) ->
    ms.map (fun m => m.payload.bytes) = ps.map Payload.bytes ->
    TpMsg.payloads tbl_names ms = (ps.filter (Payload.isUpd updName tbl_names)).map Payload.bytes
  | [], [], _, _ => rfl
  | [], p :: ps, _, h => by simp at h
  | m :: ms, [], _, h => by simp at h
  | m :: ms, p :: ps, hwf, h => by
      rw [List.map_cons, List.map_cons, List.cons.injEq] at h
      have hmore := payloads_eq tbl_names (fun q hq => hwf q (List.mem_cons_of_mem p hq)) h.right
      have hinc := included_eq (hwf p List.mem_cons_self) h.left tbl_names
      unfold TpMsg.payloads at hmore ⊢
      rw [List.filter_cons, List.filter_cons, hinc]
      split
      · rw [List.map_cons, List.map_cons, hmore, h.left]
      · exact hmore

theorem wanted_add {ms : List TpMsg} (hms : ms <+: tp.sent) :
    tp.wanted (tp.upto + ms.length) = tp.wanted tp.upto ++ TpMsg.payloads tp.tables ms := by
  have hupto : tp.upto <= tp.history.length := Nat.le_trans tp.upto_le tp.logged_le
  have hlen : (tp.history.take tp.upto).length = tp.upto := List.length_take_of_le hupto
  have hmap : ms.map (fun m => m.payload.bytes) =
      ((tp.history.drop tp.upto).take ms.length).map Payload.bytes := by
    rw [List.prefix_iff_eq_take.mp hms, List.map_take, tp.sent_eq, <- List.map_take,
      List.length_take, Nat.min_eq_left hms.length_le]
  rw [payloads_eq tp.tables (fun p hp =>
    tp.wellFormed p (List.mem_of_mem_drop (List.mem_of_mem_take hp))) hmap, wanted, wanted,
    selected, selected, List.take_add,
    List.drop_append_of_le_length (by rw [hlen]; exact tp.counts_le), List.filter_append,
    List.map_append]

end Tickerplant

/-!
## Several subscriptions
-/

/--
The state between two steps.  The live part of a subscription is that of `MuxState`;
`written` is what all of them have written to the journal.
-/
structure PipeState (ι : Type u) where
  replayed : ι -> Bool
  live : MuxState ι
  written : List (ι × List UInt8)

section Pipe

variable {ι : Type u} [DecidableEq ι] (tps : ι -> Tickerplant)

def liveConfig : MuxConfig ι where
  tables := fun i => (tps i).tables
  counts := fun i => (tps i).replayed
  stream := fun i => (tps i).sent

def PipeState.start : PipeState ι where
  replayed := fun _ => false
  live := MuxState.start (liveConfig tps)
  written := []

/-- `kdb_subscribe_and_replay` does not wait while it copies. -/
def PipeState.replay (s : PipeState ι) (i : ι) : PipeState ι where
  replayed := Function.update s.replayed i true
  live := s.live
  written := s.written ++ (tps i).replayOut.1.map (fun w => (i, w))

def PipeState.dispatch (s : PipeState ι) (i : ι) (event : IoEvent) : PipeState ι where
  replayed := s.replayed
  live := s.live.dispatch (liveConfig tps) i event
  written := s.written ++
    (onEvent (tps i).tables (s.live.conn i) event).1.map (fun w => (i, w))

/-- A read answers what the tickerplant sent, behind what was taken with the answer. -/
def Arrives (s : PipeState ι) (i : ι) : IoEvent -> Prop
  | .data bytes => bytes ≠ [] ∧ bytes.length <= readRoom (s.live.conn i) ∧
      s.live.got i ++ bytes <+: (tps i).live.drop (tps i).taken
  | _ => True

inductive PipeReaches : PipeState ι -> Prop where
  | start : PipeReaches (PipeState.start tps)
  | replay {s : PipeState ι} (h : PipeReaches s) (i : ι) (hnew : s.replayed i = false) :
      PipeReaches (s.replay tps i)
  | event {s : PipeState ι} (h : PipeReaches s) (i : ι) (event : IoEvent)
      (hreplayed : s.replayed i = true) (hopen : s.live.ended i = none)
      (hevent : Arrives tps s i event) :
      PipeReaches (s.dispatch tps i event)

def PipeState.writtenBy (s : PipeState ι) (i : ι) : List (List UInt8) :=
  (s.written.filter (fun w => w.1 = i)).map Prod.snd

def PipeState.seen (s : PipeState ι) (i : ι) : Nat :=
  (tps i).upto + (s.live.received (liveConfig tps) i).length

variable {tps}

theorem filter_tagged (i j : ι) (ws : List (List UInt8)) :
    ((ws.map (fun w => (i, w))).filter (fun w => w.1 = j)).map Prod.snd =
      if i = j then ws else [] := by
  by_cases hij : i = j
  · rw [if_pos hij, List.filter_eq_self.mpr (by simp [hij]), List.map_map]
    exact List.map_id ws
  · rw [if_neg hij, List.filter_eq_nil_iff.mpr (by simp [hij])]
    rfl

theorem writtenBy_append (s : PipeState ι) (i j : ι) (ws : List (List UInt8)) :
    ((s.written ++ ws.map (fun w => (i, w))).filter (fun w => w.1 = j)).map Prod.snd =
      s.writtenBy j ++ if i = j then ws else [] := by
  rw [List.filter_append, List.map_append, filter_tagged]
  rfl

theorem PipeReaches.dealt {s : PipeState ι} (h : PipeReaches tps s) {i : ι}
    (hexact : (tps i).AnswersAlone) : Dealt (liveConfig tps) s.live i := by
  induction h with
  | start => exact start_dealt i
  | replay h j hnew ih => exact ih
  | @event s h j event hreplayed hopen hevent ih =>
      by_cases hij : j = i
      · subst hij
        refine dispatch_self hopen ?_ ih
        cases event with
        | data bytes =>
            rw [Arrives, (tps j).taken_zero hexact, List.drop_zero] at hevent
            exact hevent
        | _ => trivial
      · exact dispatch_other hij ih

theorem PipeReaches.parts {s : PipeState ι} (h : PipeReaches tps s) (i : ι) :
    s.writtenBy i = (if s.replayed i then (tps i).replayOut.1 else []) ++ s.live.writtenBy i ∧
      (s.replayed i = false -> s.live.writtenBy i = []) := by
  induction h with
  | start => exact ⟨rfl, fun _ => rfl⟩
  | @replay s h j hnew ih =>
      have hwritten : (s.replay tps j).writtenBy i =
          s.writtenBy i ++ if j = i then (tps j).replayOut.1 else [] := writtenBy_append s j i _
      have hreplayed : (s.replay tps j).replayed i = if i = j then true else s.replayed i :=
        Function.update_apply _ _ _ _
      rw [hwritten, hreplayed, ih.left]
      by_cases hij : j = i
      · subst hij
        simp [hnew, ih.right hnew, PipeState.replay]
      · rw [if_neg hij, if_neg (Ne.symm hij), List.append_nil]
        exact ⟨rfl, ih.right⟩
  | @event s h j event hreplayed hopen hevent ih =>
      have hwritten : (s.dispatch tps j event).writtenBy i = s.writtenBy i ++
          if j = i then (onEvent (tps j).tables (s.live.conn j) event).1 else [] :=
        writtenBy_append s j i _
      have hlive := @writtenBy_dispatch ι _ (liveConfig tps) s.live j i event
      change _ = (if s.replayed i then (tps i).replayOut.1 else []) ++
        (s.live.dispatch (liveConfig tps) j event).writtenBy i ∧ (s.replayed i = false ->
          (s.live.dispatch (liveConfig tps) j event).writtenBy i = [])
      rw [hwritten, hlive, ih.left]
      by_cases hij : j = i
      · subst hij
        rw [if_pos rfl, if_pos rfl, List.append_assoc]
        exact ⟨rfl, fun hno => absurd hno (by rw [hreplayed]; decide)⟩
      · rw [if_neg hij, if_neg hij, List.append_nil]
        exact ⟨rfl, ih.right⟩

theorem PipeReaches.writtenBy_eq {s : PipeState ι} (h : PipeReaches tps s) {i : ι}
    (hexact : (tps i).AnswersAlone) :
    s.writtenBy i = if s.replayed i then (tps i).wanted (s.seen tps i) else [] := by
  have hparts := h.parts i
  have hpre : s.live.received (liveConfig tps) i <+: (tps i).sent := whole_front _ _ _
  have hlive : s.live.writtenBy i =
      TpMsg.payloads (tps i).tables (s.live.received (liveConfig tps) i) :=
    (h.dealt hexact).written
  cases hrep : s.replayed i with
  | false =>
      rw [hparts.left, hrep, hparts.right hrep]
      rfl
  | true =>
      rw [hparts.left, hrep, if_pos rfl, if_pos rfl, (tps i).replayOut_eq, hlive]
      exact ((tps i).wanted_add hpre).symm

variable (tps) in
/-- Nothing is lost and nothing is copied twice where the live stream follows the replay. -/
structure HandedOver (s : PipeState ι) (i : ι) : Prop where
  before : s.replayed i = false -> s.writtenBy i = []
  written : s.replayed i = true -> s.writtenBy i = (tps i).wanted (s.seen tps i)
  total : s.replayed i = true ->
    (s.live.conn i).counts.numMsgTotal = UInt32.ofNat (s.seen tps i)
  included : s.replayed i = true -> (s.live.conn i).counts.numMsgIncluded =
    (tps i).counts.numMsgIncluded + UInt32.ofNat (s.writtenBy i).length

/--
Whatever the order of the replays and of the events of all subscriptions, the journal has from
one whose answer was read alone exactly what is wanted of an unbroken stretch of its
tickerplant's messages, in order, and the counts say how far it has come.
-/
theorem PipeReaches.handedOver {s : PipeState ι} (h : PipeReaches tps s) {i : ι}
    (hexact : (tps i).AnswersAlone) : HandedOver tps s i := by
  have hpre : s.live.received (liveConfig tps) i <+: (tps i).sent := whole_front _ _ _
  have hwanted := (tps i).wanted_add hpre
  have hcounts : (s.live.conn i).counts =
      (tps i).replayed.after (tps i).tables (s.live.received (liveConfig tps) i) :=
    (h.dealt hexact).counted
  have hwritten : s.replayed i = true -> s.writtenBy i = (tps i).wanted (s.seen tps i) :=
    fun hrep => (h.writtenBy_eq hexact).trans (if_pos hrep)
  refine ⟨fun hno => ?_, hwritten, ?_, ?_⟩
  · rw [h.writtenBy_eq hexact, hno]
    rfl
  · intro _
    rw [hcounts, (tps i).replayed_eq]
    simp only [TpMsgCounts.after, PipeState.seen, UInt32.ofNat_add]
  · intro hrep
    rw [hcounts, (tps i).replayed_eq, hwritten hrep, PipeState.seen, hwanted]
    simp only [TpMsgCounts.after, List.length_append, UInt32.ofNat_add, UInt32.add_assoc]

end Pipe

theorem updCalls_wellFormed : forall p, p ∈ [updCall, updCall] -> p.WellFormed := by
  simp [updCall, Payload.WellFormed, Payload.WellFormedAll]

theorem updCalls_dictsFit : forall p, p ∈ [updCall, updCall] -> p.DictsFit := by
  simp [updCall, Payload.DictsFit, Payload.DictsFitAll]

theorem updCalls_small :
    ([255, 1, 0, 0, 0, 0, 0, 0] ++ ([updCall, updCall].map Payload.bytes).flatten).length <
      2 ^ 63 := by
  decide +kernel

theorem updCalls_sent : [updMsg].map (fun m => m.payload.bytes) =
    ([updCall, updCall].drop 1).map Payload.bytes := by
  decide +kernel

/-- The journal `/j` has one message. -/
def oneLogged : Spelling :=
  .list 0 [.atom .long 1, .symbolAtom ⟨[47, 106], by decide⟩, .list 0 []]

theorem oneLogged_read : streamAt smallEnv (oneLogged.message .response ++
    [updMsg].flatMap TpMsg.bytes) (fun n => if n = 0 then 8 else 16) 3 =
      (.returned (.ok ⟨.ok, 2, some oneLogged.value.obj⟩), 33) := by
  rfl

/-- Two calls, the first of them before the subscription. -/
def callAndCall : Tickerplant where
  tables := [[116]]
  counts := ⟨0, 0⟩
  history := [updCall, updCall]
  hdr := [255, 1, 0, 0, 0, 0, 0, 0]
  logged := 2
  upto := 1
  src_path := [47, 106]
  sent := [updMsg]
  answer := oneLogged
  sizes := fun n => if n = 0 then 8 else 16
  env := smallEnv
  taken := 0
  wellFormed := updCalls_wellFormed
  dictsFit := updCalls_dictsFit
  hdr_length := rfl
  small := updCalls_small
  opens := rfl
  upto_le := Nat.le_succ 1
  logged_le := Nat.le_refl 2
  sent_eq := updCalls_sent
  taken_eq := ⟨3, _, oneLogged_read⟩

theorem callAndCall_alone : callAndCall.AnswersAlone :=
  ⟨3, _, oneLogged_read, rfl, rfl, rfl⟩

def bothPlants : Bool -> Tickerplant :=
  fun _ => callAndCall

/-- The second tickerplant is replayed between the replay and the message of the first. -/
def between : PipeState Bool :=
  (((PipeState.start bothPlants).replay bothPlants true).replay bothPlants false).dispatch
    bothPlants true (.data updMsg.bytes)

theorem reaches_between : PipeReaches bothPlants between := by
  have hstart : PipeReaches bothPlants (PipeState.start bothPlants) := .start
  exact ((hstart.replay true rfl).replay false rfl).event true (.data updMsg.bytes) rfl rfl
    ⟨by decide +kernel, by decide +kernel, by decide +kernel⟩

theorem PipeReaches.handedOver_between : HandedOver bothPlants between true :=
  PipeReaches.handedOver reaches_between callAndCall_alone

end MgKdb
