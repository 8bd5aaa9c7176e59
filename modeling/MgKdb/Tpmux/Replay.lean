import MgKdb.Journal.Filter
import MgKdb.Journal.UpdFilter
import MgKdb.Tpmux.RecvTcpMsgs

/-!
# Replaying a tickerplant's journal

Before the live stream `kdb_subscribe_and_replay` walks over the tickerplant's
journal, skips what an earlier replay has dealt with, and copies the payloads that match
to the own journal.  Writing to the journal succeeds here.
-/

namespace MgKdb

open Foundation

universe u

/--
`KdbJournal::mk_upd_tbl_filter`, the callback for a scan of `jnl`.  Its state is
that of `on_match`, which is given an address and a length; it is gone once the
behaviour is undefined.
-/
def mkUpdTblFilter {client : Type u} (jnl : List UInt8) (skip_first_N : Nat)
    (fn_name : List UInt8) (tbl_names : List (List UInt8))
    (on_match : client -> List UInt8 -> Nat -> Option (Int × client)) :
    Option client -> JnlCall -> Int × Option client
  | none, _ => (0, none)
  | some c, call =>
      if skip_first_N <= call.ith then
        match filterUpdMsg (jnl.drop call.off) call.len fn_name tbl_names with
        | none => (0, none)
        | some res =>
            if 0 < res then
              match on_match c (jnl.drop call.off) call.len with
              | none => (0, none)
              | some out => (out.1, some out.2)
            else (0, some c)
      else (0, some c)

def clientAfter {client : Type u} (callback : client -> JnlCall -> Int × client)
    (c : client) (calls : List JnlCall) : client :=
  calls.foldl (fun c call => (callback c call).2) c

/-- The closure that writes to the journal; its state is what it has written. -/
def scribe (written : List (List UInt8)) (src : List UInt8) (len : Nat) :
    Option (Int × List (List UInt8)) :=
  if src.length < len then none else some (1, written ++ [src.take len])

inductive ReplayEnd where
  | ok (counts : TpMsgCounts)
  /-- The text of the error; the counts stay as they were. -/
  | failed (err_msg : String)
  | undefined
  deriving DecidableEq, Repr

def replayFilter (src_jnl : List UInt8) (skip : Nat) (tbl_names : List (List UInt8)) :
    Option (List (List UInt8)) -> JnlCall -> Int × Option (List (List UInt8)) :=
  mkUpdTblFilter src_jnl skip updName tbl_names scribe

def replayCounts (counts : TpMsgCounts) (res : JnlEnd) : ReplayEnd :=
  match res with
  | .done msg_count use_count =>
      .ok
        { numMsgTotal := UInt32.ofNat msg_count
          numMsgIncluded := counts.numMsgIncluded + UInt32.ofNat use_count }
  | .failed _ => .failed "Failed while filtering remote journal"
  | .undefined => .undefined

/--
`kdb_subscribe_and_replay` from the tickerplant's answer on: `msg_count` is its
`.u.i`, `src_jnl` the journal that it names.  The result is what was written
to the own journal, and the end.
-/
def kdbSubscribeAndReplay (src_jnl : List UInt8) (msg_count : Int)
    (tbl_names : List (List UInt8)) (counts : TpMsgCounts) :
    List (List UInt8) × ReplayEnd :=
  if msg_count < 0 then ([], .failed "illegal .u.i value upon subscription")
  else if msg_count < counts.numMsgTotal.toNat then
    ([], .failed "fewer messages in src-journal than we have apparently alread read")
  else if src_jnl.length < 8 then ([], .failed "Failed while reading remote journal")
  else
    let filter := replayFilter src_jnl counts.numMsgTotal.toNat tbl_names
    let scan := filterMsgs src_jnl msg_count.toNat filter (some [])
    match clientAfter filter (some []) scan.1, scan.2 with
    | some written, some res => (written, replayCounts counts res)
    | _, _ => ([], .undefined)

/-!
## The callback on a well-formed journal
-/

/-- The payloads to be copied, when `skip` are to be passed over. -/
def selected (tbl_names : List (List UInt8)) (skip : Nat) (ps : List Payload) :
    List (List UInt8) :=
  ((ps.drop skip).filter (Payload.isUpd updName tbl_names)).map Payload.bytes

section Callback

variable {src_jnl : List UInt8} {skip : Nat} {tbl_names : List (List UInt8)}

theorem replayFilter_answers : Answers (replayFilter src_jnl skip tbl_names) := by
  intro c call
  cases c with
  | none => exact Or.inl rfl
  | some written =>
      rw [replayFilter, mkUpdTblFilter]
      by_cases hskip : skip <= call.ith
      · rw [if_pos hskip]
        cases filterUpdMsg (src_jnl.drop call.off) call.len updName tbl_names with
        | none => exact Or.inl rfl
        | some res =>
            simp only
            by_cases hres : 0 < res
            · rw [if_pos hres, scribe]
              by_cases hroom : (src_jnl.drop call.off).length < call.len
              · rw [if_pos hroom]
                exact Or.inl rfl
              · rw [if_neg hroom]
                exact Or.inr (Or.inl rfl)
            · rw [if_neg hres]
              exact Or.inl rfl
      · rw [if_neg hskip]
        exact Or.inl rfl

def chosen (tbl_names : List (List UInt8)) (skip ith : Nat) (p : Payload) :
    List (List UInt8) :=
  if skip <= ith ∧ p.isUpd updName tbl_names then [p.bytes] else []

variable (skip tbl_names) in
theorem chosen_length_le (ith : Nat) (p : Payload) :
    (chosen tbl_names skip ith p).length <= 1 := by
  unfold chosen
  split <;> simp

theorem selected_cons (ith : Nat) (p : Payload) (ps : List Payload) :
    selected tbl_names (skip - ith) (p :: ps) =
      chosen tbl_names skip ith p ++ selected tbl_names (skip - (ith + 1)) ps := by
  by_cases hskip : skip <= ith
  · rw [selected, selected, chosen, Nat.sub_eq_zero_of_le hskip,
      Nat.sub_eq_zero_of_le (show skip <= ith + 1 by omega), List.drop_zero,
      List.drop_zero, List.filter_cons]
    cases hupd : p.isUpd updName tbl_names <;> simp [hskip]
  · rw [selected, selected, chosen, if_neg (fun h => hskip h.left),
      show skip - ith = skip - (ith + 1) + 1 by omega, List.drop_succ_cons,
      List.nil_append]

variable (skip tbl_names) in
theorem replayFilter_payload {p : Payload} (hwf : p.WellFormed) {off : Nat}
    {rest : List UInt8} (hdrop : src_jnl.drop off = p.bytes ++ rest)
    (hsize : p.bytes.length < 2 ^ 63) (written : List (List UInt8)) (ith : Nat) :
    replayFilter src_jnl skip tbl_names (some written) ⟨ith, off, p.bytes.length⟩ =
      (((chosen tbl_names skip ith p).length : Int),
        some (written ++ chosen tbl_names skip ith p)) := by
  rcases p.exists_outline hwf with ⟨o, hbytes, hcount, hupd⟩
  have hfilter := filterUpdMsg_outline o hcount (by rw [hbytes]; exact hsize) updName
    tbl_names rest
  rw [hbytes, hupd] at hfilter
  have hpos := p.bytes_pos
  rw [replayFilter, mkUpdTblFilter]
  simp only
  by_cases hskip : skip <= ith
  · rw [if_pos hskip, hdrop, hfilter]
    cases hmatch : p.isUpd updName tbl_names with
    | true =>
        have hchosen : chosen tbl_names skip ith p = [p.bytes] := if_pos ⟨hskip, hmatch⟩
        have hscribe : scribe written (p.bytes ++ rest) p.bytes.length =
            some (1, written ++ [p.bytes]) := by
          rw [scribe, if_neg (by rw [List.length_append]; omega), List.take_left]
        simp only [if_true]
        rw [if_pos (by omega), hscribe, hchosen]
        rfl
    | false =>
        have hchosen : chosen tbl_names skip ith p = [] :=
          if_neg (fun h => by rw [hmatch] at h; cases h.right)
        simp only [Bool.false_eq_true, if_false]
        rw [if_neg (by omega), hchosen, List.append_nil]
        rfl
  · have hchosen : chosen tbl_names skip ith p = [] := if_neg (fun h => hskip h.left)
    rw [if_neg hskip, hchosen, List.append_nil]
    rfl

variable (skip tbl_names) in
theorem replay_replayFilter (ps : List Payload) :
    forall (n : Nat) (st : JnlState (Option (List (List UInt8))))
      {written : List (List UInt8)},
      (forall p, p ∈ ps -> p.WellFormed) -> (Payload.bytesAll ps).length < 2 ^ 63 ->
      st.client = some written -> src_jnl.drop st.off = Payload.bytesAll ps ->
      (replay (replayFilter src_jnl skip tbl_names) n st ps).1.length =
          (ps.take n).length ∧
        (replay (replayFilter src_jnl skip tbl_names) n st ps).2 =
          (selected tbl_names (skip - st.msgCount) (ps.take n)).length ∧
        clientAfter (replayFilter src_jnl skip tbl_names) st.client
            (replay (replayFilter src_jnl skip tbl_names) n st ps).1 =
          some (written ++ selected tbl_names (skip - st.msgCount) (ps.take n)) := by
  induction ps with
  | nil =>
      intro n st written _ _ hclient _
      have hnone : replay (replayFilter src_jnl skip tbl_names) n st [] = ([], 0) := by
        cases n <;> rfl
      have hselected : selected tbl_names (skip - st.msgCount) [] = [] := by
        simp [selected]
      rw [hnone, List.take_nil, hselected, List.append_nil]
      exact ⟨rfl, rfl, hclient⟩
  | cons p ps ih =>
      intro n st written hwf hsize hclient hdrop
      cases n with
      | zero =>
          have hselected : selected tbl_names (skip - st.msgCount) [] = [] := by
            simp [selected]
          rw [replay, List.take_zero, hselected, List.append_nil]
          exact ⟨rfl, rfl, hclient⟩
      | succ n =>
          rw [Payload.bytesAll, List.length_append] at hsize
          rw [Payload.bytesAll] at hdrop
          have hcall := replayFilter_payload skip tbl_names (hwf p List.mem_cons_self)
            hdrop (by omega) written st.msgCount
          have hshort := chosen_length_le skip tbl_names st.msgCount p
          obtain ⟨use, huse⟩ : exists n : Nat, u64 (st.useCount +
              ((chosen tbl_names skip st.msgCount p).length : Int)) = n := ⟨_, rfl⟩
          have hmore := ih n (
            { off := st.off + p.bytes.length
              msgCount := st.msgCount + 1
              useCount := use
              client := some (written ++ chosen tbl_names skip st.msgCount p) })
            (fun q hq => hwf q (List.mem_cons_of_mem p hq)) (by omega) rfl
            (by simp only; rw [← List.drop_drop, hdrop, List.drop_left])
          rw [replay, hclient, hcall]
          simp only
          rw [if_neg (by omega), huse, List.take_succ_cons, selected_cons,
            ← List.append_assoc]
          refine ⟨?_, ?_, ?_⟩
          · rw [List.length_cons, hmore.left, List.length_cons]
          · rw [hmore.right.left, List.length_append]
            push_cast
            rfl
          · rw [clientAfter, List.foldl_cons, hcall]
            exact hmore.right.right

end Callback

/-!
## The replay
-/

/-- What the replay is to come to: nothing is lost at either end, nothing twice. -/
structure Replayed (tbl_names : List (List UInt8)) (counts : TpMsgCounts) (u : Nat)
    (ps : List Payload) (out : List (List UInt8) × ReplayEnd) : Prop where
  written : out.1 = selected tbl_names counts.numMsgTotal.toNat (ps.take u)
  counted : exists counts', out.2 = .ok counts' ∧ counts'.numMsgTotal.toNat = u ∧
    counts'.numMsgIncluded.toNat = counts.numMsgIncluded.toNat + out.1.length

theorem kdbSubscribeAndReplay_eq {hdr : List UInt8} (hhdr : hdr.length = 8)
    {ps : List Payload} (hwf : forall p, p ∈ ps -> p.WellFormed)
    (hsize : (hdr ++ (ps.map Payload.bytes).flatten).length < 2 ^ 63)
    {counts : TpMsgCounts} {u : Nat} (hs : counts.numMsgTotal.toNat <= u)
    (hu : u <= ps.length) (tbl_names : List (List UInt8))
    (hfit : forall p, p ∈ ps.take u -> p.DictsFit) :
    kdbSubscribeAndReplay (hdr ++ (ps.map Payload.bytes).flatten) u tbl_names counts =
      (selected tbl_names counts.numMsgTotal.toNat (ps.take u),
        .ok
          { numMsgTotal := UInt32.ofNat u
            numMsgIncluded := counts.numMsgIncluded + UInt32.ofNat
              (selected tbl_names counts.numMsgTotal.toNat (ps.take u)).length }) := by
  obtain ⟨jnl, hjnl⟩ : exists jnl, jnl = hdr ++ (ps.map Payload.bytes).flatten := ⟨_, rfl⟩
  have hlen : jnl.length = 8 + (Payload.bytesAll ps).length := by
    rw [hjnl, List.length_append, hhdr, Payload.bytesAll_eq_flatten]
  have hdrop : jnl.drop 8 = Payload.bytesAll ps := by
    rw [hjnl, ← hhdr, List.drop_left, Payload.bytesAll_eq_flatten]
  have hmany := Payload.length_le_length_bytesAll ps
  rw [← hjnl] at hsize ⊢
  obtain ⟨filter, hfilter⟩ : exists filter,
      filter = replayFilter jnl counts.numMsgTotal.toNat tbl_names := ⟨_, rfl⟩
  have hreplay := replay_replayFilter counts.numMsgTotal.toNat tbl_names ps u
    (filterStart (some [])) hwf (by omega) rfl hdrop
  rw [← hfilter, List.length_take_of_le hu] at hreplay
  rcases hreplay with ⟨hcalls, huse, hwritten⟩
  have hanswers : Answers filter := by
    rw [hfilter]
    exact replayFilter_answers
  have hscan := filterLoop_replay hanswers (show u < 2 ^ 64 by omega) jnl ps u
    (filterStart (some [])) hwf (by rw [hcalls]; exact hfit) (show 8 <= jnl.length by omega)
    hdrop
    (Nat.le_refl _) rfl (Nat.zero_le _)
  rw [kdbSubscribeAndReplay, if_neg (by omega), if_neg (by omega), if_neg (by omega),
    ← hfilter]
  simp only [Int.toNat_natCast]
  rw [filterMsgs, hscan]
  have hclient : clientAfter filter (some []) (replay filter u (filterStart (some [])) ps).1 =
      some (selected tbl_names counts.numMsgTotal.toNat (ps.take u)) := hwritten
  simp only [filterStart, Nat.zero_add] at hcalls huse hclient ⊢
  rw [hclient, hcalls, huse]
  simp [replayCounts]

/--
The replay comes to what it is to come to exactly when the two counts fit in 32 bits, for
a journal whose replayed payloads have no dict of 2^31 bytes or more.
-/
theorem kdbSubscribeAndReplay_exact (hdr : List UInt8) (hhdr : hdr.length = 8)
    (ps : List Payload) (hwf : forall p, p ∈ ps -> p.WellFormed)
    (hsize : (hdr ++ (ps.map Payload.bytes).flatten).length < 2 ^ 63)
    (counts : TpMsgCounts) (u : Nat) (hs : counts.numMsgTotal.toNat <= u)
    (hu : u <= ps.length) (tbl_names : List (List UInt8))
    (hfit : forall p, p ∈ ps.take u -> p.DictsFit) :
    Replayed tbl_names counts u ps
        (kdbSubscribeAndReplay (hdr ++ (ps.map Payload.bytes).flatten) u tbl_names
          counts) <->
      u < 2 ^ 32 ∧ counts.numMsgIncluded.toNat +
        (selected tbl_names counts.numMsgTotal.toNat (ps.take u)).length < 2 ^ 32 := by
  rw [kdbSubscribeAndReplay_eq hhdr hwf hsize hs hu tbl_names hfit]
  have htotal : (UInt32.ofNat u).toNat = u <-> u < 2 ^ 32 := by
    rw [UInt32.toNat_ofNat']
    omega
  have hincluded := toNat_add_ofNat counts.numMsgIncluded
    (selected tbl_names counts.numMsgTotal.toNat (ps.take u)).length
  constructor
  · rintro ⟨_, counts', hcounts, htot, hinc⟩
    cases hcounts
    exact ⟨htotal.mp htot, hincluded.mp hinc⟩
  · rintro ⟨htot, hinc⟩
    exact ⟨rfl, _, rfl, htotal.mpr htot, hincluded.mpr hinc⟩

/-- The second of two calls is replayed, the first was before. -/
theorem kdbSubscribeAndReplay_exact_second :
    Replayed [[116]] ⟨1, 1⟩ 2 [updCall, updCall]
      (kdbSubscribeAndReplay ([255, 1, 0, 0, 0, 0, 0, 0] ++
        ([updCall, updCall].map Payload.bytes).flatten) 2 [[116]] ⟨1, 1⟩) := by
  have hwf : updCall.WellFormed := by
    simp [updCall, Payload.WellFormed, Payload.WellFormedAll]
  have hfit : updCall.DictsFit := by
    simp [updCall, Payload.DictsFit, Payload.DictsFitAll]
  exact (kdbSubscribeAndReplay_exact [255, 1, 0, 0, 0, 0, 0, 0] rfl
    [updCall, updCall] (by simp [hwf]) (by decide +kernel) ⟨1, 1⟩ 2 (by decide)
    (by decide) [[116]] (by simp [hfit])).mpr (by decide +kernel)

/-- With 2^32 messages the total is zero. -/
theorem kdbSubscribeAndReplay_exact_many :
    ¬ forall (hdr : List UInt8) (ps : List Payload) (counts : TpMsgCounts) (u : Nat)
      (tbl_names : List (List UInt8)), hdr.length = 8 ->
      (forall p, p ∈ ps -> p.WellFormed) ->
      (hdr ++ (ps.map Payload.bytes).flatten).length < 2 ^ 63 ->
      counts.numMsgTotal.toNat <= u -> u <= ps.length ->
      Replayed tbl_names counts u ps
        (kdbSubscribeAndReplay (hdr ++ (ps.map Payload.bytes).flatten) u tbl_names
          counts) := by
  intro hclaim
  obtain ⟨hdr, hhdr⟩ : exists hdr : List UInt8, hdr = [255, 1, 0, 0, 0, 0, 0, 0] := ⟨_, rfl⟩
  obtain ⟨ps, hps⟩ : exists ps, ps = List.replicate (2 ^ 32) (Payload.atom .bool 1) :=
    ⟨_, rfl⟩
  have hlen : hdr.length = 8 := by rw [hhdr]; rfl
  have hcount : 2 ^ 32 <= ps.length := by rw [hps, List.length_replicate]
  have hatom : forall p, p ∈ ps -> p = .atom .bool 1 := by
    intro p hp
    rw [hps] at hp
    exact List.eq_of_mem_replicate hp
  have hwf : forall p, p ∈ ps -> p.WellFormed := by
    intro p hp
    rw [hatom p hp]
    trivial
  have hfit : forall p, p ∈ ps.take (2 ^ 32) -> p.DictsFit := by
    intro p hp
    rw [hatom p (List.mem_of_mem_take hp)]
    trivial
  have hsize : (hdr ++ (ps.map Payload.bytes).flatten).length < 2 ^ 63 := by
    rw [hps, List.map_replicate, List.length_append, List.length_flatten,
      List.map_replicate, List.sum_replicate_nat, hlen]
    decide
  have hreplayed := hclaim hdr ps ⟨0, 0⟩ (2 ^ 32) [] hlen hwf hsize (Nat.zero_le _) hcount
  rw [kdbSubscribeAndReplay_eq hlen hwf hsize (Nat.zero_le _) hcount [] hfit] at hreplayed
  rcases hreplayed.counted with ⟨counts', hcounts, htotal, _⟩
  cases hcounts
  have hzero : (UInt32.ofNat (2 ^ 32)).toNat = 2 ^ 32 := htotal
  revert hzero
  decide

end MgKdb
