import MgKdb.LogFilter.Scanners

/-!
# The replay of a log

The file is mapped as long as `stat` says that it is.  The loop looks whether it has come
to the end after a message, not before it, and the scanners are not told where the end is.
-/

namespace MgKdb

open Foundation

/-- A turn of the loop: where the message is, its length, and the object that is evaluated if
it is of interest. -/
structure ReplayStep where
  off : Nat
  len : Nat
  eval : Option KObj

section Replay

variable (api : KApi) (tbl_names : List NulText)

/-- The body of the loop; `none` is an abort or worse, and so is a read behind the end of
the file. -/
def mgReplayStep (src : List UInt8) (off : Nat) : Option ReplayStep :=
  match mgChkMsg (src.drop off) tbl_names 0 with
  | none => none
  | some (len, relevant) =>
      if relevant ≠ 0 then
        (mgReifyMsg api (src.drop off)).map (fun msg => ⟨off, len, some msg.2⟩)
      else some ⟨off, len, none⟩

/-- Every message has at least one byte, which bounds the number of turns. -/
def mgReplayFuel (src : List UInt8) : Nat -> Nat -> Option (List ReplayStep)
  | 0, _ => none
  | n + 1, off =>
      match mgReplayStep api tbl_names src off with
      | none => none
      | some step =>
          if off + step.len < src.length then
            (mgReplayFuel src n (off + step.len)).map (fun steps => step :: steps)
          else some [step]

def mgReplayMsgs (src : List UInt8) (off : Nat) : Option (List ReplayStep) :=
  mgReplayFuel api tbl_names src (src.length + 1) off

/-- `mg_replay`, of a file that could be opened; its header is passed over. -/
def mgReplay (src : List UInt8) : Option (List ReplayStep) :=
  mgReplayMsgs api tbl_names src 8

end Replay

/-!
## Whole messages, and the front of one
-/

section Messages

variable (tbl_names : List NulText)

def LogVal.relevant (p : LogVal) : Bool :=
  p.mark tbl_names (-1) 0 0 != 0

def processed (off : Nat) (p : LogVal) : ReplayStep :=
  ⟨off, p.bytes.length, if p.relevant tbl_names then some p.kObj else none⟩

def processedAll : Nat -> List LogVal -> List ReplayStep
  | _, [] => []
  | off, p :: ps => processed tbl_names off p :: processedAll (off + p.bytes.length) ps

/-- Every whole message of a file is processed once, in order, and nothing outside of the
file is read. -/
def Replays (api : KApi) (src : List UInt8) (msgs : List LogVal) : Prop :=
  exists steps, mgReplay api tbl_names src = some steps ∧
    steps.filter (fun step => step.off + step.len <= src.length) =
      processedAll tbl_names 8 msgs

/--
The messages are supported, and there is one; or there is the front of one that is not of
interest, of which only the end of an atom is missing.
-/
def EndsInside (msgs : List LogVal) (front : List UInt8) (cut : LogVal) : Prop :=
  (forall p, p ∈ msgs -> p.Accepted) ∧
    ((front = [] ∧ msgs ≠ []) ∨
      (LogVal.measured.Readable front cut ∧ cut.relevant tbl_names = false))

end Messages

section Loop

variable {api : KApi} (tbl_names : List NulText) {src : List UInt8}

theorem mgReplayStep_whole (hapi : api.Documented) {p : LogVal} (hwf : p.WellFormed)
    {off : Nat} {rest : List UInt8} (hdrop : src.drop off = p.bytes ++ rest) :
    GivesWhen p.Accepted (processed tbl_names off p) (mgReplayStep api tbl_names src off) := by
  have hchk := mgChkMsg_value p hwf tbl_names 0 rest
  have hobj := mgReifyMsg_value hapi p hwf rest
  rw [mgReplayStep, hdrop]
  by_cases hok : p.Accepted
  · rw [hchk.gives hok, hobj.gives hok, processed, LogVal.relevant]
    simp only
    by_cases hrel : p.mark tbl_names (-1) 0 0 = 0
    · rw [if_neg (not_not.mpr hrel), hrel]
      exact GivesWhen.some_of hok
    · rw [if_pos hrel, Option.map_some, if_pos (bne_iff_ne.mpr hrel)]
      exact GivesWhen.some_of hok
  · rw [hchk.denies hok]
    exact GivesWhen.none_of hok

theorem mgReplayStep_front (hapi : api.Documented) {cut : LogVal} (hwf : cut.WellFormed)
    {off : Nat} (hfront : src.drop off <+: cut.bytes)
    (hcut : (src.drop off).length < cut.bytes.length) :
    GivesWhen (LogVal.measured.Readable (src.drop off) cut ∧ cut.relevant tbl_names = false)
      ⟨off, cut.bytes.length, none⟩ (mgReplayStep api tbl_names src off) := by
  have hpre : src.drop off <+: cut.bytes ++ [] := by rwa [List.append_nil]
  have hchk : GivesWhen (LogVal.measured.Readable (src.drop off) cut)
      (cut.bytes.length, cut.mark tbl_names (-1) 0 0) (mgChkMsg (src.drop off) tbl_names 0) :=
    LogVal.checks cut hwf _ (-1) 0 (src.drop off) [] 0 hpre (Nat.lt_succ_self _)
  have hobj := LogVal.reifies hapi cut hwf _ (src.drop off) [] hpre (Nat.lt_succ_self _)
  change GivesWhen _ _ (mgReifyMsg api (src.drop off)) at hobj
  rw [mgReplayStep, LogVal.relevant]
  by_cases hread : LogVal.measured.Readable (src.drop off) cut
  · rw [hchk.gives hread]
    simp only
    by_cases hrel : cut.mark tbl_names (-1) 0 0 = 0
    · rw [if_neg (not_not.mpr hrel), hrel]
      exact GivesWhen.some_of ⟨hread, rfl⟩
    · rw [if_pos hrel, hobj.denies (fun h => absurd h.right (by omega)), Option.map_none]
      refine GivesWhen.none_of ?_
      rintro ⟨_, hno⟩
      rw [bne_eq_false_iff_eq] at hno
      exact hrel hno
  · rw [hchk.denies hread]
    exact GivesWhen.none_of (fun h => hread h.left)

theorem LogVal.bytesAll_eq_nil {ps : List LogVal} : bytesAll ps = [] <-> ps = [] := by
  cases ps with
  | nil => exact iff_of_true rfl rfl
  | cons p ps =>
      refine iff_of_false (fun hnil => ?_) (List.cons_ne_nil p ps)
      rw [bytesAll, List.append_eq_nil_iff] at hnil
      exact absurd (congrArg List.length hnil.left) (Nat.ne_of_gt p.bytes_pos)

variable {front : List UInt8} {cut : LogVal}

/-- The turns for whole messages, and the one for the front of a message if there is one. -/
def turns (off : Nat) (ps : List LogVal) (front : List UInt8)
    (cut : LogVal) : List ReplayStep :=
  processedAll tbl_names off ps ++
    if front = [] then []
    else [⟨off + (LogVal.bytesAll ps).length, cut.bytes.length, none⟩]

theorem turns_cons (off : Nat) (p : LogVal) (ps : List LogVal) :
    turns tbl_names off (p :: ps) front cut =
      processed tbl_names off p :: turns tbl_names (off + p.bytes.length) ps front cut := by
  rw [turns, turns, processedAll, LogVal.bytesAll, List.length_append, Nat.add_assoc,
    List.cons_append]

theorem endsInside_cons {p : LogVal} {ps : List LogVal} (hmore : ps ≠ [] ∨ front ≠ []) :
    EndsInside tbl_names (p :: ps) front cut <->
      p.Accepted ∧ EndsInside tbl_names ps front cut := by
  rw [EndsInside, EndsInside, List.forall_mem_cons, and_assoc]
  refine and_congr_right (fun _ => and_congr_right (fun _ => or_congr_left ?_))
  refine and_congr_right (fun hnil => ⟨fun _ => ?_, fun _ => List.cons_ne_nil p ps⟩)
  exact hmore.resolve_right (not_not.mpr hnil)

theorem endsInside_last (p : LogVal) : EndsInside tbl_names [p] [] cut <-> p.Accepted := by
  rw [EndsInside, List.forall_mem_singleton]
  exact ⟨fun h => h.left, fun h => ⟨h, Or.inl ⟨rfl, List.cons_ne_nil p []⟩⟩⟩

theorem mgReplayFuel_front (hapi : api.Documented) (hwf : cut.WellFormed)
    (hfront : front <+: cut.bytes) (hcut : front.length < cut.bytes.length) {n off : Nat}
    (hdrop : src.drop off = front) (hn : 0 < n) :
    GivesWhen (EndsInside tbl_names [] front cut) (turns tbl_names off [] front cut)
      (mgReplayFuel api tbl_names src n off) := by
  subst hdrop
  have hturn := mgReplayStep_front tbl_names hapi hwf hfront hcut
  have hlen : (src.drop off).length = src.length - off := List.length_drop
  cases n with
  | zero => cases hn
  | succ n =>
      rw [mgReplayFuel]
      by_cases hread : LogVal.measured.Readable (src.drop off) cut ∧
          cut.relevant tbl_names = false
      · have hsome : src.drop off ≠ [] :=
          fun hnil => LogVal.not_readable_nil cut (hnil ▸ hread.left)
        have hend : ¬ off + cut.bytes.length < src.length := by omega
        rw [hturn.gives hread]
        simp only
        rw [if_neg hend, turns, if_neg hsome]
        exact GivesWhen.some_of ⟨fun p hp => absurd hp List.not_mem_nil, Or.inr hread⟩
      · rw [hturn.denies hread]
        refine GivesWhen.none_of ?_
        rintro ⟨_, ⟨_, hno⟩ | hyes⟩
        · exact hno rfl
        · exact hread hyes

theorem mgReplayFuel_msgs (hapi : api.Documented) (hwf : cut.WellFormed)
    (hfront : front <+: cut.bytes) (hcut : front.length < cut.bytes.length)
    (ps : List LogVal) :
    forall {n off : Nat}, (forall p, p ∈ ps -> p.WellFormed) ->
      src.drop off = LogVal.bytesAll ps ++ front -> (src.drop off).length < n ->
      GivesWhen (EndsInside tbl_names ps front cut) (turns tbl_names off ps front cut)
        (mgReplayFuel api tbl_names src n off) := by
  induction ps with
  | nil =>
      intro n off _ hdrop hn
      exact mgReplayFuel_front tbl_names hapi hwf hfront hcut hdrop (by omega)
  | cons p ps ih =>
      intro n off hwfs hdrop hn
      have hmore := fun q hq => hwfs q (List.mem_cons_of_mem p hq)
      rw [LogVal.bytesAll, List.append_assoc] at hdrop
      have hturn := mgReplayStep_whole tbl_names hapi
        (hwfs p List.mem_cons_self) hdrop
      have hpos := p.bytes_pos
      have hrest : src.drop (off + p.bytes.length) = LogVal.bytesAll ps ++ front := by
        rw [<- List.drop_drop, hdrop, List.drop_left]
      have hlen : (src.drop off).length = src.length - off := List.length_drop
      have hsum := congrArg List.length hdrop
      rw [List.length_append] at hsum
      have hin : off + p.bytes.length < src.length <-> ¬ (ps = [] ∧ front = []) := by
        rw [<- LogVal.bytesAll_eq_nil, <- List.append_eq_nil_iff, <- ne_eq,
          <- List.length_pos_iff]
        omega
      cases n with
      | zero => omega
      | succ n =>
          rw [mgReplayFuel]
          by_cases hok : p.Accepted
          · rw [hturn.gives hok]
            simp only
            rw [turns_cons]
            change GivesWhen _ _ (if off + p.bytes.length < src.length then _ else _)
            by_cases hlast : ps = [] ∧ front = []
            · rcases hlast with ⟨rfl, rfl⟩
              rw [if_neg (fun h => hin.mp h ⟨rfl, rfl⟩)]
              exact (GivesWhen.some_of hok).of_iff (endsInside_last tbl_names p)
            · rw [if_pos (hin.mpr hlast)]
              rw [not_and_or] at hlast
              have hloop := ih (n := n) hmore hrest (by rw [hrest]; omega)
              refine GivesWhen.of_iff (hloop.map _) ?_
              rw [endsInside_cons tbl_names hlast]
              exact and_iff_right hok
          · rw [hturn.denies hok]
            exact GivesWhen.none_of (fun h => hok (h.left p List.mem_cons_self))

/-!
## Which turns are inside the file
-/

theorem filter_processedAll (size : Nat) (ps : List LogVal) :
    forall {off : Nat}, off + (LogVal.bytesAll ps).length <= size ->
      (processedAll tbl_names off ps).filter (fun step => step.off + step.len <= size) =
        processedAll tbl_names off ps := by
  induction ps with
  | nil => exact fun _ => rfl
  | cons p ps ih =>
      intro off hle
      rw [LogVal.bytesAll, List.length_append, <- Nat.add_assoc] at hle
      have hin : (processed tbl_names off p).off + (processed tbl_names off p).len <= size :=
        Nat.le_trans (Nat.le_add_right _ _) hle
      rw [processedAll, List.filter_cons, if_pos (decide_eq_true hin), ih hle]

theorem filter_turns {off : Nat} {ps : List LogVal}
    (hcut : front.length < cut.bytes.length) :
    (turns tbl_names off ps front cut).filter
        (fun step => step.off + step.len <= off + (LogVal.bytesAll ps ++ front).length) =
      processedAll tbl_names off ps := by
  rw [turns, List.filter_append, filter_processedAll, List.append_right_eq_self]
  · by_cases hnil : front = []
    · rw [if_pos hnil, List.filter_nil]
    · rw [if_neg hnil, List.filter_eq_nil_iff]
      intro step hstep
      rw [List.mem_singleton.mp hstep, decide_eq_true_eq, List.length_append]
      show ¬ off + (LogVal.bytesAll ps).length + cut.bytes.length <= _
      omega
  · rw [List.length_append]
    omega

end Loop

def updInt (t : NulText) (x : BitVec 32) : LogVal :=
  .list 0 [.symbolAtom ⟨updName, nulFree_updName⟩, .symbolAtom t, .atom (.elem .int) x]

/--
A file is a header, whole messages and the front of one more, which may be empty.  It is
replayed without a look behind its end exactly when `EndsInside` holds.
-/
theorem mgReplay_inside {api : KApi} (hapi : api.Documented) (tbl_names : List NulText)
    {hdr : List UInt8} (hhdr : hdr.length = 8) (msgs : List LogVal)
    (hwf : forall p, p ∈ msgs -> p.WellFormed) (front : List UInt8) (cut : LogVal)
    (hcut : cut.WellFormed) (hfront : front <+: cut.bytes)
    (hshort : front.length < cut.bytes.length) :
    Replays tbl_names api (hdr ++ (LogVal.bytesAll msgs ++ front)) msgs <->
      EndsInside tbl_names msgs front cut := by
  have hlen : (hdr ++ (LogVal.bytesAll msgs ++ front)).length =
      hdr.length + (LogVal.bytesAll msgs ++ front).length := List.length_append
  have hdrop : (hdr ++ (LogVal.bytesAll msgs ++ front)).drop 8 =
      LogVal.bytesAll msgs ++ front := by
    rw [<- hhdr, List.drop_left]
  have hrun := mgReplayFuel_msgs tbl_names hapi hcut hfront hshort msgs hwf hdrop
    (n := (hdr ++ (LogVal.bytesAll msgs ++ front)).length + 1)
    (by rw [hdrop]; omega)
  constructor
  · rintro ⟨steps, hsteps, _⟩
    by_contra hno
    rw [mgReplay, mgReplayMsgs, hrun.denies hno] at hsteps
    cases hsteps
  · intro hends
    refine ⟨_, hrun.gives hends, ?_⟩
    rw [hlen, hhdr]
    exact filter_turns tbl_names hshort

/-- A call for `t`, and a call for another table of which the last int is not there. -/
theorem mgReplay_inside_cut :
    Replays [⟨[116], nulFree_tblName⟩] plainApi
        ([255, 1, 0, 0, 0, 0, 0, 0] ++
          (LogVal.bytesAll [updInt ⟨[116], nulFree_tblName⟩ 1] ++
            (updInt ⟨updName, nulFree_updName⟩ 2).bytes.take 16))
        [updInt ⟨[116], nulFree_tblName⟩ 1] <->
      EndsInside [⟨[116], nulFree_tblName⟩] [updInt ⟨[116], nulFree_tblName⟩ 1]
        ((updInt ⟨updName, nulFree_updName⟩ 2).bytes.take 16)
        (updInt ⟨updName, nulFree_updName⟩ 2) :=
  mgReplay_inside plainApi_documented [⟨[116], nulFree_tblName⟩] rfl _
    (by simp [updInt, LogVal.WellFormed, LogVal.Everywhere, LogVal.EverywhereAll,
      LogVal.CountFits])
    _ _
    (by simp [updInt, LogVal.WellFormed, LogVal.Everywhere, LogVal.EverywhereAll,
      LogVal.CountFits])
    (List.take_prefix 16 _) (by decide)

/-- A file that is a header and no more: the type of the first message is read behind its
end. -/
theorem mgReplay_inside_header :
    mgReplay plainApi [] [255, 1, 0, 0, 0, 0, 0, 0] = none ∧
      ¬ Replays [] plainApi ([255, 1, 0, 0, 0, 0, 0, 0] ++ (LogVal.bytesAll [] ++ [])) [] := by
  have hnone : mgReplay plainApi [] [255, 1, 0, 0, 0, 0, 0, 0] = none := rfl
  refine ⟨hnone, ?_⟩
  rintro ⟨steps, hsteps, _⟩
  cases hnone.symm.trans hsteps

end MgKdb
