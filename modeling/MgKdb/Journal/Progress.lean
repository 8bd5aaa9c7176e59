import MgKdb.Journal.Filter

/-!
# Progress of the journal scan

The scan of an arbitrary file moves on in every turn, unless the record under the
cursor is a table around something unknown: the error code -2 of its nested part
and the two bytes in front of it add up to the length zero.
-/

namespace MgKdb

open Foundation

universe u

/-!
## Lengths that are not positive
-/

def UnknownTable (src : List UInt8) : Prop :=
  exists att nested, src = KdbType.table.i8 :: att :: nested ∧
    msgLenVary ipcPayloadLen nested = some (-2)

def Sound (x : Scan) : Prop :=
  x ≠ some 0

theorem sound_of_pos {n : Nat} (h : 0 < n) : Sound (some (n : Int)) := by
  intro hzero
  have hn := Option.some.inj hzero
  omega

theorem listLoop_sound (payload : List UInt8 -> Scan) (src : List UInt8) (n : Nat) :
    forall {len : Nat}, 0 < len -> Sound (listLoop payload src n len) := by
  induction n with
  | zero =>
      intro len hlen
      exact sound_of_pos hlen
  | succ n ih =>
      intro len hlen
      rw [listLoop]
      by_cases hsrc : src.length < len
      · rw [if_pos hsrc]
        simp [Sound]
      · rw [if_neg hsrc]
        cases payload (src.drop len) with
        | none => simp [Sound]
        | some eln =>
            simp only
            by_cases heln : eln < 0
            · rw [if_pos heln]
              intro hzero
              have h := Option.some.inj hzero
              omega
            · rw [if_neg heln]
              exact ih (by omega)

theorem symVecLoop_sound (src : List UInt8) (n : Nat) :
    forall {off : Nat}, 0 < off -> Sound (symVecLoop src n off) := by
  induction n with
  | zero =>
      intro off hoff
      exact sound_of_pos hoff
  | succ n ih =>
      intro off hoff
      rw [symVecLoop]
      split
      · simp [Sound]
      · exact ih (by omega)

theorem msgLenCmp_sound (len : Int) (width rem : Nat) :
    Sound (msgLenCmp len width rem) := by
  unfold msgLenCmp
  split
  · simp [Sound]
  · split
    · simp [Sound]
    · exact sound_of_pos (by omega)

theorem msgLenVec_sound (src : List UInt8) : Sound (msgLenVec src) := by
  unfold msgLenVec
  split
  · simp [Sound]
  · split <;> first | exact msgLenCmp_sound _ _ _ | simp [Sound]

theorem msgLenAtom_sound (src : List UInt8) : Sound (msgLenAtom src) := by
  unfold msgLenAtom
  split
  · simp [Sound]
  · split <;> simp [Sound]

theorem msgLenSymAtom_sound (src : List UInt8) : Sound (msgLenSymAtom src) := by
  unfold msgLenSymAtom
  split
  · simp [Sound]
  · split
    · simp [Sound]
    · intro hzero
      have h := Option.some.inj hzero
      omega

theorem dictLen_sound (payload : List UInt8 -> Scan) (src : List UInt8) :
    Sound (dictLen payload src) := by
  have hneg : forall {x : Int}, x < 0 -> Sound (some x) := by
    intro x hx hzero
    have h := Option.some.inj hzero
    omega
  unfold dictLen
  cases payload src with
  | none => simp [Sound]
  | some l =>
      simp only
      by_cases hlen : i32OfInt l < 0
      · rw [if_pos hlen]
        exact hneg hlen
      · rw [if_neg hlen]
        split
        · simp [Sound]
        · cases payload (src.drop (i32OfInt l).toNat) with
          | none => simp [Sound]
          | some t =>
              simp only
              by_cases htmp : i32OfInt t < 0
              · rw [if_pos htmp]
                exact hneg htmp
              · rw [if_neg htmp]
                split
                · simp [Sound]
                · intro hzero
                  have h := Option.some.inj hzero
                  omega

theorem ipcPayloadLen_eq_zero (src : List UInt8) :
    ipcPayloadLen src = some 0 <-> UnknownTable src := by
  constructor
  · intro h
    rw [ipcPayloadLen_eq, ipcPayloadLenOf] at h
    by_contra hunknown
    revert h
    change Sound _
    split
    · simp [Sound]
    · split
      · unfold msgLenList
        split
        · simp [Sound]
        · exact listLoop_sound _ _ _ (by omega)
      · split
        · split
          · exact msgLenSymAtom_sound src
          · exact msgLenAtom_sound src
        · split
          · split
            · unfold msgLenSymVec
              split
              · simp [Sound]
              · exact symVecLoop_sound _ _ (by omega)
            · exact msgLenVec_sound src
          · cases src with
            | nil => simp [msgLenVary, Sound]
            | cons typ tail =>
                cases tail with
                | nil =>
                    rw [msgLenVary]
                    split
                    · simp [Sound]
                    · split
                      · exact dictLen_sound _ _
                      · simp [Sound]
                | cons att nested =>
                    rw [msgLenVary]
                    split
                    · rename_i htyp
                      intro hzero
                      rcases Option.map_eq_some_iff.mp hzero with ⟨x, hx, hsum⟩
                      refine hunknown ⟨att, nested, by rw [htyp], ?_⟩
                      rw [hx, show x = -2 by omega]
                    · split
                      · exact dictLen_sound _ _
                      · simp [Sound]
  · rintro ⟨att, nested, rfl, hnested⟩
    rw [ipcPayloadLen_eq, Payload.ipcPayloadLenOf_vary (Or.inr (Or.inr rfl)), msgLenVary,
      if_pos rfl, hnested]
    rfl

/-!
## Runs
-/

section Runs

variable {client : Type u} {jnl : List UInt8} {max_count : Nat}
  {callback : client -> JnlCall -> Int × client}

inductive Reaches (jnl : List UInt8) (max_count : Nat)
    (callback : client -> JnlCall -> Int × client) (st : JnlState client) :
    JnlState client -> Prop where
  | refl : Reaches jnl max_count callback st st
  | step {st1 st2 : JnlState client} (h : Reaches jnl max_count callback st st1)
      (hgo : (filterStep jnl max_count callback st1).2 = .go st2) :
      Reaches jnl max_count callback st st2

theorem Reaches.head {st st1 st2 : JnlState client}
    (hgo : (filterStep jnl max_count callback st).2 = .go st1)
    (h : Reaches jnl max_count callback st1 st2) :
    Reaches jnl max_count callback st st2 := by
  induction h with
  | refl => exact .step .refl hgo
  | step _ hgo' ih => exact .step ih hgo'

/--
A turn that shows a record to the callback: the record is scanned inside the file,
and the scan does not go on from a table around something unknown.
-/
structure Meets (jnl : List UInt8) (callback : client -> JnlCall -> Int × client)
    (st : JnlState client) : Prop where
  inside : ipcPayloadLen (jnl.drop st.off) ≠ none
  known : UnknownTable (jnl.drop st.off) ->
    (callback st.client ⟨st.msgCount, st.off, 0⟩).1 = -1

/-- The turn has a defined outcome, and it ends the loop or moves on. -/
def Advances (jnl : List UInt8) (max_count : Nat)
    (callback : client -> JnlCall -> Int × client) (st : JnlState client) : Prop :=
  (filterStep jnl max_count callback st).2 ≠ .stop .undefined ∧
    forall st', (filterStep jnl max_count callback st).2 = .go st' -> st.off < st'.off

def Running (jnl : List UInt8) (max_count : Nat) (st : JnlState client) : Prop :=
  st.off < jnl.length ∧ st.msgCount < max_count

theorem advances_iff (st : JnlState client) :
    Advances jnl max_count callback st <->
      (Running jnl max_count st -> Meets jnl callback st) := by
  by_cases hrun : Running jnl max_count st
  · rcases hscan : ipcPayloadLen (jnl.drop st.off) with _ | x
    · have hstep := congrArg Prod.snd (filterStep_undefined callback
        hrun.left hrun.right hscan)
      exact ⟨fun h => absurd hstep h.left, fun h => absurd hscan (h hrun).inside⟩
    · by_cases hneg : x < 0
      · rcases filterStep_failed callback hrun.left hrun.right hscan hneg
          with ⟨err, hstep⟩
        refine ⟨fun _ _ => ⟨by simp [hscan], ?_⟩, fun _ => ⟨by simp [hstep], by simp [hstep]⟩⟩
        intro hunknown
        rw [(ipcPayloadLen_eq_zero _).mpr hunknown] at hscan
        have hzero := Option.some.inj hscan
        omega
      · obtain ⟨n, rfl⟩ := Int.eq_ofNat_of_zero_le (by omega : 0 <= x)
        have hstep := congrArg Prod.snd
          (filterStep_record callback hrun.left hrun.right hscan)
        have hzero : n = 0 <-> UnknownTable (jnl.drop st.off) := by
          rw [← ipcPayloadLen_eq_zero, hscan]
          simp
        constructor
        · rintro ⟨_, hgo⟩ _
          refine ⟨by simp [hscan], ?_⟩
          intro hunknown
          have hn := hzero.mpr hunknown
          by_contra hres
          rw [← hn] at hres
          rw [hstep, if_neg hres] at hgo
          have hlt := hgo _ rfl
          simp only at hlt
          omega
        · intro hmeets
          have hknown := (hmeets hrun).known
          by_cases hres : (callback st.client ⟨st.msgCount, st.off, n⟩).1 = -1
          · rw [if_pos hres] at hstep
            exact ⟨by simp [hstep], by simp [hstep]⟩
          · rw [if_neg hres] at hstep
            refine ⟨by simp [hstep], ?_⟩
            intro st' hgo
            rw [hstep] at hgo
            cases hgo
            have hpos : n ≠ 0 := by
              rintro rfl
              exact hres (hknown (hzero.mp rfl))
            simp only
            omega
  · have hstep := congrArg Prod.snd (filterStep_end callback hrun)
    exact ⟨fun _ h => absurd h hrun, fun _ => ⟨by simp [hstep], by simp [hstep]⟩⟩

theorem filterLoop_mono (n : Nat) :
    forall {m : Nat} {st : JnlState client} {calls : List JnlCall} {res : JnlEnd},
      filterLoop jnl max_count callback n st = (calls, some res) -> n <= m ->
      filterLoop jnl max_count callback m st = (calls, some res) := by
  induction n with
  | zero =>
      intro m st calls res h
      cases h
  | succ n ih =>
      intro m st calls res h hm
      cases m with
      | zero => omega
      | succ m =>
          rw [filterLoop] at h ⊢
          cases hnext : (filterStep jnl max_count callback st).2 with
          | stop res' =>
              rw [hnext] at h
              exact h
          | go st' =>
              rw [hnext] at h
              simp only at h ⊢
              have hend : (filterLoop jnl max_count callback n st').2 = some res :=
                congrArg Prod.snd h
              rw [ih (Prod.ext rfl hend) (show n <= m by omega)]
              rw [hend] at h
              exact h

theorem filterLoop_counts (jnl : List UInt8)
    (callback : client -> JnlCall -> Int × client) (n : Nat) :
    forall {st : JnlState client}, max_count - st.msgCount < n ->
      exists calls res, filterLoop jnl max_count callback n st = (calls, some res) := by
  induction n with
  | zero =>
      intro st h
      omega
  | succ n ih =>
      intro st h
      rw [filterLoop]
      cases hnext : (filterStep jnl max_count callback st).2 with
      | stop res => exact ⟨_, _, rfl⟩
      | go st' =>
          rcases filterStep_go hnext with ⟨_, hlt, _, _, _, hcount⟩
          rcases ih (show max_count - st'.msgCount < n by omega) with ⟨calls, res, hloop⟩
          simp only [hloop]
          exact ⟨_, _, rfl⟩

theorem filterStep_calls (jnl : List UInt8) (max_count : Nat)
    (callback : client -> JnlCall -> Int × client) (st : JnlState client) :
    (filterStep jnl max_count callback st).1.toList.length <= jnl.length - st.off ∧
      (filterStep jnl max_count callback st).1.toList.length <= 1 := by
  unfold filterStep
  split
  · rename_i hrun
    split
    · simp
    · split
      · simp
      · simp only
        split <;> simp <;> omega
  · simp

theorem filterLoop_of_advances (n : Nat) :
    forall {st : JnlState client},
      (forall st', Reaches jnl max_count callback st st' ->
        Advances jnl max_count callback st') ->
      jnl.length - st.off < n ->
      exists calls res, filterLoop jnl max_count callback n st = (calls, some res) ∧
        calls.length <= jnl.length - st.off ∧ res ≠ .undefined := by
  induction n with
  | zero =>
      intro st _ h
      omega
  | succ n ih =>
      intro st hadv h
      rcases hadv st .refl with ⟨hdef, hgo⟩
      rcases filterStep_calls jnl max_count callback st with ⟨hcalls, hone⟩
      rw [filterLoop]
      cases hnext : (filterStep jnl max_count callback st).2 with
      | stop res =>
          refine ⟨_, res, rfl, hcalls, ?_⟩
          rintro rfl
          exact hdef hnext
      | go st' =>
          have hlt := hgo st' hnext
          have hinside := (filterStep_go hnext).left
          rcases ih (fun st2 h2 => hadv st2 (h2.head hnext)) (by omega) with
            ⟨calls, res, hloop, hlen, hres⟩
          simp only [hloop]
          refine ⟨_, res, rfl, ?_, hres⟩
          rw [List.length_append]
          omega

/--
The scan of any file ends, after as many turns as there are bytes behind the header
and one, and has made no more calls than there are such bytes, with every turn that
goes on moving on: exactly when no record that it comes to is scanned beyond the end
of the file, and none that it goes on from is a table around something unknown.
-/
theorem filterMsgs_terminates (jnl : List UInt8) (max_count : Nat)
    (callback : client -> JnlCall -> Int × client) (c : client) :
    ((forall st, Reaches jnl max_count callback (filterStart c) st ->
        Advances jnl max_count callback st) ∧
      exists calls res,
        filterLoop jnl max_count callback (jnl.length - 8 + 1) (filterStart c) =
          (calls, some res) ∧
        filterMsgs jnl max_count callback c = (calls, some res) ∧
        calls.length <= jnl.length - 8 ∧ res ≠ .undefined) <->
      forall st, Reaches jnl max_count callback (filterStart c) st ->
        Running jnl max_count st -> Meets jnl callback st := by
  constructor
  · rintro ⟨hadv, _⟩ st hst
    exact (advances_iff st).mp (hadv st hst)
  · intro hmeets
    have hadv : forall st, Reaches jnl max_count callback (filterStart c) st ->
        Advances jnl max_count callback st :=
      fun st hst => (advances_iff st).mpr (hmeets st hst)
    rcases filterLoop_of_advances (jnl.length - 8 + 1) hadv (Nat.lt_succ_self _) with
      ⟨calls, res, hloop, hlen, hres⟩
    refine ⟨hadv, calls, res, hloop, ?_, hlen, hres⟩
    rcases filterLoop_counts jnl callback (max_count + 1)
      (show max_count - (filterStart c).msgCount < max_count + 1 from
        Nat.lt_succ_of_le (Nat.sub_le _ _)) with ⟨calls', res', hmsgs⟩
    have h1 := filterLoop_mono _ hloop (Nat.le_max_left _ (max_count + 1))
    have h2 := filterLoop_mono _ hmsgs (Nat.le_max_right (jnl.length - 8 + 1) _)
    rw [filterMsgs, hmsgs, ← h2, h1]

end Runs

/-- A table around a byte that is no type code, behind the header of a journal. -/
def unknownTable : List UInt8 :=
  [0, 0, 0, 0, 0, 0, 0, 0] ++ [98, 0, 200]

/-- The state of the scan after `n` turns that went nowhere. -/
def stuck (n : Nat) : JnlState Unit where
  off := 8
  msgCount := n
  useCount := 0
  client := ()

theorem filterStep_stuck {n max_count : Nat} (hn : n < max_count) :
    filterStep unknownTable max_count (fun seen _ => (0, seen)) (stuck n) =
      (some ⟨n, 8, 0⟩, .go (stuck (n + 1))) := by
  have hscan : ipcPayloadLen (unknownTable.drop (stuck n).off) = some ((0 : Nat) : Int) :=
    rfl
  rw [filterStep_record _ (show 8 < unknownTable.length by decide) hn hscan,
    if_neg (by simp)]
  rfl

theorem filterLoop_stuck {max_count : Nat} (n : Nat) :
    forall {k : Nat}, k + n = max_count ->
      (filterLoop unknownTable max_count (fun seen _ => (0, seen)) (n + 1)
        (stuck k)).1.length = n := by
  induction n with
  | zero =>
      intro k hk
      rw [filterLoop, filterStep_end _ (fun hrun => absurd hrun.right (by
        simp only [stuck]
        omega))]
      rfl
  | succ n ih =>
      intro k hk
      rw [filterLoop, filterStep_stuck (by omega)]
      simp only [Option.toList_some, List.length_append, List.length_singleton]
      rw [ih (by omega), Nat.add_comm]

/--
On this file the scan never leaves its first record: it reports as many messages as
it is allowed to.
-/
theorem filterMsgs_unknownTable :
    filterStep unknownTable (2 ^ 64 - 1) (fun seen _ => (0, seen)) (filterStart ()) =
        (some ⟨0, 8, 0⟩, .go (stuck 1)) ∧ (stuck 1).off = (filterStart ()).off ∧
      (filterMsgs unknownTable (2 ^ 64 - 1) (fun seen _ => (0, seen)) ()).1.length =
        2 ^ 64 - 1 ∧
      unknownTable.length - 8 = 3 ∧
      ¬ (forall st, Reaches unknownTable (2 ^ 64 - 1) (fun seen _ => (0, seen))
          (filterStart ()) st ->
        Advances unknownTable (2 ^ 64 - 1) (fun seen _ => (0, seen)) st) := by
  have hstep : filterStep unknownTable (2 ^ 64 - 1) (fun seen _ => (0, seen))
      (filterStart ()) = (some ⟨0, 8, 0⟩, .go (stuck 1)) :=
    filterStep_stuck (by decide)
  refine ⟨hstep, rfl, ?_, rfl, ?_⟩
  · exact filterLoop_stuck (2 ^ 64 - 1) (Nat.zero_add _)
  · intro hadv
    have hlt := (hadv _ .refl).right _ (congrArg Prod.snd hstep)
    exact absurd hlt (Nat.lt_irrefl 8)

end MgKdb
