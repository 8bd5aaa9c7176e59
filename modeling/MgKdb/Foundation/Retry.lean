import Mathlib.Data.List.Infix

/-!
# Transfers that are tried again

A number of items is transferred in attempts.  An attempt gains some of the items that are
missing, or it may be made again, unless that has happened too often in a row, or it ends
the transfer.
-/

namespace MgKdb
namespace Foundation

universe u v w

inductive Attempt (err : Type u) where
  | gained (n : Nat)
  /-- It may be made again; the error is for the last one. -/
  | again (e : err)
  | stopped
  | failed (e : err)

/-- A transfer of `tot` items after `tries` attempts in a row that gained nothing,
or its outcome. -/
inductive Transfer (err : Type u) (data : Type v) where
  | going (tot tries : Nat) (d : data)
  | ended (out : Except err Nat) (d : data)

namespace Transfer

variable {err : Type u} {data : Type v} {sig : Type w}

/-- What an attempt makes of a transfer, which gains items by `move`. -/
def attempt (limit : Nat) (move : Nat -> Nat -> data -> data) (tot tries : Nat) (d : data) :
    Attempt err -> Transfer err data
  | .gained n => .going (tot + n) 0 (move tot n d)
  | .again e => if tries + 1 < limit then .going tot (tries + 1) d else .ended (.error e) d
  | .stopped => .ended (.ok tot) d
  | .failed e => .ended (.error e) d

/--
The schedule of the attempts: what each comes to, when it is made for a number of items, as
a signal that stands for an `Attempt`.
-/
structure Schedule (err : Type u) (sig : Type w) where
  signal : Nat -> Nat -> sig
  meaning : sig -> Attempt err
  /-- An attempt gains something, and not more than it is made for. -/
  gains : forall i req n, meaning (signal i req) = .gained n -> 0 < n ∧ n <= req

section Turns

variable (limit goal : Nat) (sched : Schedule err sig) (move : Nat -> Nat -> data -> data)

def turn (i : Nat) : Transfer err data -> Transfer err data
  | going tot tries d =>
      if tot < goal then
        attempt limit move tot tries d (sched.meaning (sched.signal i (goal - tot)))
      else ended (.ok tot) d
  | ended out d => ended out d

def turns (d : data) : Nat -> Transfer err data
  | 0 => going 0 0 d
  | n + 1 => turn limit goal sched move n (turns d n)

/-- The signal of the attempt that the next turn makes, if it makes one. -/
def nextSignal (i : Nat) : Transfer err data -> List sig
  | going tot _ _ => if tot < goal then [sched.signal i (goal - tot)] else []
  | ended _ _ => []

def signals (d : data) : Nat -> List sig
  | 0 => []
  | n + 1 => signals d n ++ nextSignal goal sched n (turns limit goal sched move d n)

end Turns

/-!
## Failures
-/

def Repeats (meaning : sig -> Attempt err) (s : sig) : Prop :=
  exists e, meaning s = .again e

def Fails (limit : Nat) (meaning : sig -> Attempt err) (made : List sig) : Prop :=
  (exists s, s ∈ made ∧ exists e, meaning s = .failed e) ∨
    exists run, run <:+: made ∧ run.length = limit ∧ forall s, s ∈ run -> Repeats meaning s

/--
The attempts of a transfer that is going on: none of them ends it, `tries` of them
gained nothing since the last one that did, and fewer than `limit` in a row ever did.
-/
structure Pending (limit : Nat) (meaning : sig -> Attempt err) (tries : Nat)
    (made : List sig) : Prop where
  goes : forall s, s ∈ made -> Repeats meaning s ∨ exists n, meaning s = .gained n
  row : exists run, run <:+ made ∧ run.length = tries ∧ forall s, s ∈ run -> Repeats meaning s
  longest : forall run, run <:+ made -> (forall s, s ∈ run -> Repeats meaning s) ->
    run.length <= tries
  rows : forall run, run <:+: made -> (forall s, s ∈ run -> Repeats meaning s) ->
    run.length < limit

section Pending

variable {limit tries : Nat} {meaning : sig -> Attempt err} {made : List sig} {s : sig}

theorem pending_nil (hlimit : 0 < limit) : Pending limit meaning 0 [] where
  goes := by simp
  row := ⟨[], List.suffix_rfl, rfl, by simp⟩
  longest := by
    intro run hrun _
    rw [List.suffix_nil.mp hrun, List.length_nil]
  rows := by
    intro run hrun _
    rw [List.infix_nil.mp hrun]
    exact hlimit

theorem row_eq_nil {run : List sig} (hnot : ¬ Repeats meaning s) (hrun : run <:+ made ++ [s])
    (hall : forall r, r ∈ run -> Repeats meaning r) : run = [] := by
  rcases List.suffix_concat_iff.mp hrun with hnil | ⟨init, hinit, _⟩
  · exact hnil
  · refine absurd (hall s ?_) hnot
    rw [hinit]
    exact List.mem_concat_self

namespace Pending

theorem tries_lt (h : Pending limit meaning tries made) : tries < limit := by
  rcases h.row with ⟨run, hrun, hlen, hall⟩
  rw [<- hlen]
  exact h.rows run hrun.isInfix hall

theorem rows_of_not (h : Pending limit meaning tries made)
    (hnot : ¬ Repeats meaning s) (run : List sig)
    (hrun : run <:+: made ++ [s]) (hall : forall r, r ∈ run -> Repeats meaning r) :
    run.length < limit := by
  rcases List.infix_concat_iff.mp hrun with hsuffix | hinfix
  · rw [row_eq_nil hnot hsuffix hall, List.length_nil]
    exact Nat.lt_of_le_of_lt (Nat.zero_le _) h.tries_lt
  · exact h.rows run hinfix hall

theorem row_again (h : Pending limit meaning tries made) (hs : Repeats meaning s) :
    exists run, run <:+ made ++ [s] ∧ run.length = tries + 1 ∧
      forall r, r ∈ run -> Repeats meaning r := by
  rcases h.row with ⟨run, hrun, hlen, hall⟩
  refine ⟨run ++ [s], ?_, ?_, ?_⟩
  · rcases hrun with ⟨init, rfl⟩
    exact ⟨init, (List.append_assoc init run [s]).symm⟩
  · rw [List.length_append, List.length_singleton, hlen]
  · intro r hr
    rcases List.mem_append.mp hr with hr | hr
    · exact hall r hr
    · rw [List.mem_singleton.mp hr]
      exact hs

theorem longest_again (h : Pending limit meaning tries made)
    (run : List sig) (hrun : run <:+ made ++ [s])
    (hall : forall r, r ∈ run -> Repeats meaning r) : run.length <= tries + 1 := by
  rcases List.suffix_concat_iff.mp hrun with hnil | ⟨init, hinit, hsuffix⟩
  · rw [hnil, List.length_nil]
    exact Nat.zero_le _
  · have hshort := h.longest init hsuffix
      (fun r hr => hall r (hinit ▸ List.mem_append_left _ hr))
    rw [hinit, List.length_append, List.length_singleton]
    omega

theorem gained (h : Pending limit meaning tries made) {n : Nat} (hs : meaning s = .gained n) :
    Pending limit meaning 0 (made ++ [s]) := by
  have hnot : ¬ Repeats meaning s := by
    rintro ⟨e, he⟩
    rw [hs] at he
    cases he
  constructor
  · intro r hr
    rcases List.mem_append.mp hr with hr | hr
    · exact h.goes r hr
    · rw [List.mem_singleton.mp hr]
      exact Or.inr ⟨n, hs⟩
  · exact ⟨[], List.nil_suffix, rfl, by simp⟩
  · intro run hrun hall
    rw [row_eq_nil hnot hrun hall, List.length_nil]
  · exact h.rows_of_not hnot

theorem again (h : Pending limit meaning tries made)
    (hs : Repeats meaning s) (hless : tries + 1 < limit) :
    Pending limit meaning (tries + 1) (made ++ [s]) := by
  constructor
  · intro r hr
    rcases List.mem_append.mp hr with hr | hr
    · exact h.goes r hr
    · rw [List.mem_singleton.mp hr]
      exact Or.inl hs
  · exact h.row_again hs
  · exact h.longest_again
  · intro run hrun hall
    rcases List.infix_concat_iff.mp hrun with hsuffix | hinfix
    · exact Nat.lt_of_le_of_lt (h.longest_again run hsuffix hall) hless
    · exact h.rows run hinfix hall

theorem not_failed (h : Pending limit meaning tries made)
    (r : sig) (hr : r ∈ made) (e : err) : meaning r ≠ .failed e := by
  intro hfailed
  rcases h.goes r hr with ⟨e', he⟩ | ⟨n, hn⟩
  · rw [he] at hfailed
    cases hfailed
  · rw [hn] at hfailed
    cases hfailed

theorem not_fails (h : Pending limit meaning tries made) : ¬ Fails limit meaning made := by
  rintro (⟨r, hr, e, he⟩ | ⟨run, hrun, hlen, hall⟩)
  · exact h.not_failed r hr e he
  · exact absurd hlen (Nat.ne_of_lt (h.rows run hrun hall))

theorem not_fails_stopped (h : Pending limit meaning tries made) (hs : meaning s = .stopped) :
    ¬ Fails limit meaning (made ++ [s]) := by
  rintro (⟨r, hr, e, he⟩ | ⟨run, hrun, hlen, hall⟩)
  · rcases List.mem_append.mp hr with hr | hr
    · exact h.not_failed r hr e he
    · rw [List.mem_singleton.mp hr, hs] at he
      cases he
  · have hnot : ¬ Repeats meaning s := by
      rintro ⟨e, he⟩
      rw [hs] at he
      cases he
    exact absurd hlen (Nat.ne_of_lt (h.rows_of_not hnot run hrun hall))

theorem fails_again (h : Pending limit meaning tries made)
    (hs : Repeats meaning s) (hless : ¬ tries + 1 < limit) :
    Fails limit meaning (made ++ [s]) := by
  rcases h.row_again hs with ⟨run, hrun, hlen, hall⟩
  have hlt := h.tries_lt
  exact Or.inr ⟨run, hrun.isInfix, by omega, hall⟩

end Pending

end Pending

/-!
## Every transfer ends
-/

section Ends

variable (limit goal : Nat) (sched : Schedule err sig) (move : Nat -> Nat -> data -> data)
  (Moved : Nat -> data -> Prop)

structure Underway (made : List sig) (n tot tries : Nat) (d : data) : Prop where
  pending : Pending limit sched.meaning tries made
  turns_le : n <= limit * tot + tries
  tot_le : tot <= goal
  moved : Moved tot d

structure Over (made : List sig) (out : Except err Nat) (d : data) : Prop where
  moved : exists tot, tot <= goal ∧ Moved tot d ∧ forall k, out = .ok k -> k = tot
  whole : forall k, out = .ok k -> k = goal ∨ exists s, s ∈ made ∧ sched.meaning s = .stopped
  failed : (exists e, out = .error e) <-> Fails limit sched.meaning made

def Sound (made : List sig) (n : Nat) : Transfer err data -> Prop
  | going tot tries d => Underway limit goal sched Moved made n tot tries d
  | ended out d => Over limit goal sched Moved made out d

variable {limit goal sched move Moved}

theorem Underway.attempt {made : List sig} {n tot tries : Nat} {d : data}
    (h : Underway limit goal sched Moved made n tot tries d) {s : sig}
    (hgains : forall k, sched.meaning s = .gained k -> 0 < k ∧ k <= goal - tot)
    (hmove : forall tot n d, Moved tot d -> Moved (tot + n) (move tot n d)) :
    Sound limit goal sched Moved (made ++ [s]) (n + 1)
      (attempt limit move tot tries d (sched.meaning s)) := by
  have hlt := h.pending.tries_lt
  have hturns := h.turns_le
  have htot := h.tot_le
  cases hs : sched.meaning s with
  | gained k =>
      rcases hgains k hs with ⟨hpos, hle⟩
      refine ⟨h.pending.gained hs, ?_, by omega, hmove tot k d h.moved⟩
      calc n + 1 <= limit * tot + limit := by omega
        _ = limit * (tot + 1) := by rw [Nat.mul_add, Nat.mul_one]
        _ <= limit * (tot + k) + 0 := Nat.mul_le_mul_left limit (by omega)
  | again e =>
      rw [Transfer.attempt]
      split
      next hless => exact ⟨h.pending.again ⟨e, hs⟩ hless, by omega, htot, h.moved⟩
      next hless =>
        refine ⟨⟨tot, htot, h.moved, fun k hk => (by cases hk)⟩,
          fun k hk => (by cases hk), ?_⟩
        exact ⟨fun _ => h.pending.fails_again ⟨e, hs⟩ hless, fun _ => ⟨e, rfl⟩⟩
  | stopped =>
      refine ⟨⟨tot, htot, h.moved, fun k hk => by cases hk; rfl⟩, fun k _ => ?_, ?_⟩
      · exact Or.inr ⟨s, List.mem_concat_self, hs⟩
      · refine ⟨fun hex => hex.elim fun e he => (by cases he), fun hfails => ?_⟩
        exact absurd hfails (h.pending.not_fails_stopped hs)
  | failed e =>
      refine ⟨⟨tot, htot, h.moved, fun k hk => (by cases hk)⟩,
        fun k hk => (by cases hk), ?_⟩
      exact ⟨fun _ => Or.inl ⟨s, List.mem_concat_self, e, hs⟩, fun _ => ⟨e, rfl⟩⟩

theorem turns_sound (hlimit : 0 < limit)
    (hmove : forall tot n d, Moved tot d -> Moved (tot + n) (move tot n d)) {d : data}
    (hd : Moved 0 d) (n : Nat) :
    Sound limit goal sched Moved (signals limit goal sched move d n) n
      (turns limit goal sched move d n) := by
  induction n with
  | zero => exact ⟨pending_nil hlimit, Nat.zero_le _, Nat.zero_le _, hd⟩
  | succ n ih =>
      rw [turns, signals]
      cases hat : turns limit goal sched move d n with
      | going tot tries d' =>
          rw [hat] at ih
          by_cases hmore : tot < goal
          · rw [turn, if_pos hmore, nextSignal, if_pos hmore]
            exact Underway.attempt ih (fun k => sched.gains n (goal - tot) k) hmove
          · rw [turn, if_neg hmore, nextSignal, if_neg hmore, List.append_nil]
            have htot := ih.tot_le
            refine ⟨⟨tot, htot, ih.moved, fun k hk => by cases hk; rfl⟩, fun k hk => ?_, ?_⟩
            · cases hk
              exact Or.inl (by omega)
            · refine ⟨fun hex => hex.elim fun e he => (by cases he), fun hfails => ?_⟩
              exact absurd hfails ih.pending.not_fails
      | ended out d' =>
          rw [hat] at ih
          rw [turn, nextSignal, List.append_nil]
          exact ih

theorem turns_end (hlimit : 0 < limit)
    (hmove : forall tot n d, Moved tot d -> Moved (tot + n) (move tot n d)) {d : data}
    (hd : Moved 0 d) :
    exists out d', turns limit goal sched move d (limit * (goal + 1)) = ended out d' ∧
      Over limit goal sched Moved
        (signals limit goal sched move d (limit * (goal + 1))) out d' := by
  have hsound : Sound limit goal sched Moved _ _ _ :=
    turns_sound hlimit hmove hd (limit * (goal + 1))
  cases hat : turns limit goal sched move d (limit * (goal + 1)) with
  | ended out d' =>
      rw [hat] at hsound
      exact ⟨out, d', rfl, hsound⟩
  | going tot tries d' =>
      rw [hat] at hsound
      have hlt := hsound.pending.tries_lt
      have htot := Nat.mul_le_mul_left limit hsound.tot_le
      have hturns := hsound.turns_le
      rw [Nat.mul_add, Nat.mul_one] at hturns
      omega

end Ends

end Transfer
end Foundation
end MgKdb
