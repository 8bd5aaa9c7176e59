import Mathlib.Data.List.Infix

/-!
# Delivering a stream in pieces

A consumer is a state machine that is called with a window of a symbol stream.
It decides for itself how much of the window it takes, and every later call
shows it the symbols it has not taken yet, followed by new ones.  A producer is
the dual: it is called with the room of a buffer and decides how many symbols of
its stream it puts there.

The two run rules turn a statement about one call into a statement about every
way of cutting the stream into calls.
-/

namespace MgKdb
namespace Foundation

universe u

/-!
## Consumers
-/

structure Consumer (arg sym state reply : Type u) where
  /-- One call: an extra argument and the window shown to the consumer. -/
  call : state -> arg -> List sym -> reply × state
  /-- How many symbols of the stream have been taken so far. -/
  used : state -> Nat

namespace Consumer

variable {arg sym state reply : Type u}

/--
Feed the pieces of a stream one call each.  `got` holds everything that was
delivered before; each call sees what the consumer has not taken, then the new
piece.
-/
def deliver (C : Consumer arg sym state reply) :
    state -> List sym -> List (arg × List sym) -> List reply × state
  | s, _, [] => ([], s)
  | s, got, piece :: rest =>
      let out := C.call s piece.1 ((got ++ piece.2).drop (C.used s))
      let more := deliver C out.2 (got ++ piece.2) rest
      (out.1 :: more.1, more.2)

@[simp] theorem deliver_nil (C : Consumer arg sym state reply) (s : state)
    (got : List sym) : C.deliver s got [] = ([], s) := rfl

theorem deliver_cons (C : Consumer arg sym state reply) (s : state)
    (got : List sym) (piece : arg × List sym) (rest : List (arg × List sym)) :
    C.deliver s got (piece :: rest) =
      ((C.call s piece.1 ((got ++ piece.2).drop (C.used s))).1 ::
          (C.deliver (C.call s piece.1 ((got ++ piece.2).drop (C.used s))).2
            (got ++ piece.2) rest).1,
        (C.deliver (C.call s piece.1 ((got ++ piece.2).drop (C.used s))).2
          (got ++ piece.2) rest).2) := rfl

/-- What every call of a delivery is given: the state, the argument, the window. -/
def calls (C : Consumer arg sym state reply) :
    state -> List sym -> List (arg × List sym) -> List (state × arg × List sym)
  | _, _, [] => []
  | s, got, piece :: rest =>
      (s, piece.1, (got ++ piece.2).drop (C.used s)) ::
        calls C (C.call s piece.1 ((got ++ piece.2).drop (C.used s))).2
          (got ++ piece.2) rest

def delivered (pieces : List (arg × List sym)) : List sym :=
  (pieces.map Prod.snd).flatten

@[simp] theorem delivered_nil :
    delivered ([] : List (arg × List sym)) = [] := rfl

@[simp] theorem delivered_cons (piece : arg × List sym)
    (rest : List (arg × List sym)) :
    delivered (piece :: rest) = piece.2 ++ delivered rest := rfl

/--
`Keeps C msg Inv Pending` says that a call which shows less than the whole
message replies `Pending`, takes no more than it is shown, and preserves the
invariant.
-/
structure Keeps (C : Consumer arg sym state reply) (msg : List sym)
    (Inv : state -> Prop) (Pending : reply -> Prop) : Prop where
  pending : forall {s : state} (a : arg) {m : Nat},
    Inv s -> C.used s <= m -> m < msg.length ->
      Pending (C.call s a ((msg.take m).drop (C.used s))).1
  step : forall {s : state} (a : arg) {m : Nat},
    Inv s -> C.used s <= m -> m < msg.length ->
      Inv (C.call s a ((msg.take m).drop (C.used s))).2 ∧
        C.used (C.call s a ((msg.take m).drop (C.used s))).2 <= m

/--
Run rule: as long as the message is not delivered completely, every reply is
pending and the invariant holds after the calls.
-/
theorem deliver_of_keeps {C : Consumer arg sym state reply} {msg : List sym}
    {Inv : state -> Prop} {Pending : reply -> Prop}
    (hkeeps : C.Keeps msg Inv Pending) :
    forall (pieces : List (arg × List sym)) {s : state} {got : List sym},
      Inv s -> C.used s <= got.length ->
      got ++ delivered pieces <+: msg ->
      (got ++ delivered pieces).length < msg.length ->
        (forall r, r ∈ (C.deliver s got pieces).1 -> Pending r) ∧
          Inv (C.deliver s got pieces).2 ∧
          C.used (C.deliver s got pieces).2 <=
            (got ++ delivered pieces).length := by
  intro pieces
  induction pieces with
  | nil =>
      intro s got hinv hused _hpre _hlt
      refine ⟨?_, hinv, by simpa using hused⟩
      intro r hr
      cases hr
  | cons piece rest ih =>
      intro s got hinv hused hpre hlt
      rw [delivered_cons, ← List.append_assoc] at hpre hlt
      have hgot : got ++ piece.2 <+: msg :=
        (List.prefix_append _ _).trans hpre
      have hm : (got ++ piece.2).length < msg.length := by
        rw [List.length_append] at hlt
        omega
      have hwin : got ++ piece.2 = msg.take (got ++ piece.2).length :=
        List.prefix_iff_eq_take.mp hgot
      have hused' : C.used s <= (got ++ piece.2).length := by
        rw [List.length_append]
        omega
      have hpend := hkeeps.pending piece.1 hinv hused' hm
      have hstep := hkeeps.step piece.1 hinv hused' hm
      rw [← hwin] at hpend hstep
      rcases ih hstep.left hstep.right hpre hlt with ⟨hall, hinv', hle⟩
      rw [delivered_cons, ← List.append_assoc]
      refine ⟨?_, hinv', hle⟩
      intro r hr
      rw [deliver_cons] at hr
      rcases List.mem_cons.mp hr with hhead | htail
      · rw [hhead]
        exact hpend
      · exact hall r htail

/-- The run rule for a stream that is delivered from its first symbol on. -/
theorem deliver_from_start {C : Consumer arg sym state reply} {msg : List sym}
    {Inv : state -> Prop} {Pending : reply -> Prop}
    (hkeeps : C.Keeps msg Inv Pending) (pieces : List (arg × List sym)) {s : state}
    (hinv : Inv s) (hused : C.used s = 0) (hpre : delivered pieces <+: msg)
    (hlt : (delivered pieces).length < msg.length) :
    (forall r, r ∈ (C.deliver s [] pieces).1 -> Pending r) ∧
      Inv (C.deliver s [] pieces).2 ∧
      C.used (C.deliver s [] pieces).2 <= (delivered pieces).length :=
  deliver_of_keeps hkeeps pieces hinv (by rw [hused]; exact Nat.zero_le _) hpre hlt

/--
Run rule for an invariant that speaks about what was delivered.  What a call may assume
of everything delivered so far has to hold of every front of it.
-/
theorem deliver_of_step {C : Consumer arg sym state reply}
    {Inv : List sym -> state -> Prop} {Pending : reply -> Prop} (Early : List sym -> Prop)
    (hfront : forall {got xs : List sym}, Early (got ++ xs) -> Early got)
    (hstep : forall {s : state} {got xs : List sym} (a : arg), Inv got s ->
      Early (got ++ xs) ->
        Pending (C.call s a ((got ++ xs).drop (C.used s))).1 ∧
          Inv (got ++ xs) (C.call s a ((got ++ xs).drop (C.used s))).2) :
    forall (pieces : List (arg × List sym)) {s : state} {got : List sym},
      Inv got s -> Early (got ++ delivered pieces) ->
        (forall r, r ∈ (C.deliver s got pieces).1 -> Pending r) ∧
          Inv (got ++ delivered pieces) (C.deliver s got pieces).2 := by
  intro pieces
  induction pieces with
  | nil =>
      intro s got hinv _hearly
      refine ⟨?_, by simpa using hinv⟩
      intro r hr
      cases hr
  | cons piece rest ih =>
      intro s got hinv hearly
      rw [delivered_cons, ← List.append_assoc] at hearly ⊢
      rcases hstep piece.1 hinv (hfront hearly) with ⟨hpending, hinv'⟩
      rcases ih hinv' hearly with ⟨hall, hfinal⟩
      refine ⟨?_, hfinal⟩
      intro r hr
      rcases List.mem_cons.mp hr with hhead | htail
      · rw [hhead]
        exact hpending
      · exact hall r htail

theorem deliver_append (C : Consumer arg sym state reply)
    (xs ys : List (arg × List sym)) (s : state) (got : List sym) :
    C.deliver s got (xs ++ ys) =
      ((C.deliver s got xs).1 ++
          (C.deliver (C.deliver s got xs).2 (got ++ delivered xs) ys).1,
        (C.deliver (C.deliver s got xs).2 (got ++ delivered xs) ys).2) := by
  induction xs generalizing s got with
  | nil => simp
  | cons x xs ih =>
      rw [List.cons_append, deliver_cons, ih, deliver_cons, delivered_cons]
      simp only [List.append_assoc, List.cons_append]

theorem deliver_concat (C : Consumer arg sym state reply)
    (xs : List (arg × List sym)) (x : arg × List sym) (s : state) (got : List sym) :
    C.deliver s got (xs ++ [x]) =
      ((C.deliver s got xs).1 ++ [(C.call (C.deliver s got xs).2 x.1
          ((got ++ delivered xs ++ x.2).drop (C.used (C.deliver s got xs).2))).1],
        (C.call (C.deliver s got xs).2 x.1
          ((got ++ delivered xs ++ x.2).drop (C.used (C.deliver s got xs).2))).2) := by
  rw [deliver_append, deliver_cons, deliver_nil]

theorem calls_append (C : Consumer arg sym state reply)
    (xs ys : List (arg × List sym)) (s : state) (got : List sym) :
    C.calls s got (xs ++ ys) =
      C.calls s got xs ++
        C.calls (C.deliver s got xs).2 (got ++ delivered xs) ys := by
  induction xs generalizing s got with
  | nil => simp [calls]
  | cons x xs ih =>
      rw [List.cons_append, calls, ih, calls, deliver_cons, delivered_cons]
      simp only [List.append_assoc, List.cons_append]

end Consumer

/-!
## Producers
-/

structure Producer (sym state reply : Type u) where
  /-- One call: the room of the buffer; it answers with what it put there. -/
  call : state -> Nat -> reply × List sym × state
  /-- How many symbols of the stream are still to be written. -/
  left : state -> Nat

structure Producer.Call (sym reply : Type u) where
  room : Nat
  before : Nat
  after : Nat
  reply : reply
  buffer : List sym

namespace Producer

variable {sym state reply : Type u}

/-- The symbols a call contributes: as many as it says it has got rid of. -/
def Call.share (c : Call sym reply) : List sym :=
  c.buffer.take (c.before - c.after)

def run (P : Producer sym state reply) :
    state -> List Nat -> List (Call sym reply) × state
  | s, [] => ([], s)
  | s, room :: rooms =>
      let out := P.call s room
      let more := run P out.2.2 rooms
      (⟨room, P.left s, P.left out.2.2, out.1, out.2.1⟩ :: more.1, more.2)

def output (calls : List (Call sym reply)) : List sym :=
  (calls.map Call.share).flatten

/--
`Emits P msg Inv Good` says that in a state with `Inv` a call puts the
next symbols of the message in the buffer, counts them, and shows a call that
is `Good`.
-/
structure Emits (P : Producer sym state reply) (msg : List sym)
    (Inv : state -> Prop) (Good : Call sym reply -> Prop) : Prop where
  left_le : forall {s : state}, Inv s -> P.left s <= msg.length
  inv : forall {s : state} (room : Nat), Inv s -> Inv (P.call s room).2.2
  counts : forall {s : state} (room : Nat), Inv s ->
    P.left s = P.left (P.call s room).2.2 + (P.call s room).2.1.length
  next : forall {s : state} (room : Nat), Inv s ->
    (P.call s room).2.1 <+: msg.drop (msg.length - P.left s)
  good : forall {s : state} (room : Nat), Inv s ->
    Good ⟨room, P.left s, P.left (P.call s room).2.2,
      (P.call s room).1, (P.call s room).2.1⟩

/-- Run rule: the contributions continue the message from where it stood. -/
theorem run_of_emits {P : Producer sym state reply} {msg : List sym}
    {Inv : state -> Prop} {Good : Call sym reply -> Prop}
    (hemits : P.Emits msg Inv Good) :
    forall (rooms : List Nat) {s : state}, Inv s ->
      Inv (P.run s rooms).2 ∧
        (forall c, c ∈ (P.run s rooms).1 -> Good c) ∧
        msg.take (msg.length - P.left s) ++ output (P.run s rooms).1 =
          msg.take (msg.length - P.left (P.run s rooms).2) := by
  intro rooms
  induction rooms with
  | nil =>
      intro s hinv
      refine ⟨hinv, ?_, by simp [run, output]⟩
      intro c hc
      cases hc
  | cons room rooms ih =>
      intro s hinv
      have hinv' := hemits.inv room hinv
      have hcount := hemits.counts room hinv
      have hnext := hemits.next room hinv
      have hgood := hemits.good room hinv
      have hle := hemits.left_le hinv
      rcases ih hinv' with ⟨hfinal, hall, hout⟩
      refine ⟨hfinal, ?_, ?_⟩
      · intro c hc
        rcases List.mem_cons.mp hc with hhead | htail
        · rw [hhead]
          exact hgood
        · exact hall c htail
      · have hshare :
            (P.call s room).2.1.take
                (P.left s - P.left (P.call s room).2.2) =
              (P.call s room).2.1 := by
          rw [hcount, Nat.add_sub_cancel_left, List.take_length]
        have hstep :
            msg.take (msg.length - P.left s) ++ (P.call s room).2.1 =
              msg.take (msg.length - P.left (P.call s room).2.2) := by
          have hbuf := List.prefix_iff_eq_take.mp hnext
          have hsum : msg.length - P.left (P.call s room).2.2 =
              (msg.length - P.left s) + (P.call s room).2.1.length := by
            omega
          rw [hsum, List.take_add, ← hbuf]
        have hunfold : output (P.run s (room :: rooms)).1 =
            (P.call s room).2.1 ++
              output (P.run (P.call s room).2.2 rooms).1 := by
          simp only [run, output, List.map_cons, List.flatten_cons, Call.share,
            hshare]
        rw [hunfold, ← List.append_assoc, hstep]
        exact hout

/--
`Advances P Inv Wide` says that a call with a room that is wide enough gets rid of
something, if anything is left.
-/
structure Advances (P : Producer sym state reply) (Inv : state -> Prop)
    (Wide : Nat -> Prop) : Prop where
  inv : forall {s : state} {room : Nat}, Wide room -> Inv s -> Inv (P.call s room).2.2
  less : forall {s : state} {room : Nat}, Wide room -> Inv s ->
    P.left (P.call s room).2.2 <= P.left s - 1

/-- Run rule: every call makes progress, so that enough calls leave nothing. -/
theorem run_of_advances {P : Producer sym state reply} {Inv : state -> Prop}
    {Wide : Nat -> Prop} (hadvances : P.Advances Inv Wide) :
    forall (rooms : List Nat) {s : state}, (forall room, room ∈ rooms -> Wide room) ->
      Inv s ->
        (forall c, c ∈ (P.run s rooms).1 -> 0 < c.before -> c.after < c.before) ∧
          P.left (P.run s rooms).2 <= P.left s - rooms.length := by
  intro rooms
  induction rooms with
  | nil =>
      intro s _ _
      refine ⟨?_, Nat.le_refl _⟩
      intro c hc
      cases hc
  | cons room rooms ih =>
      intro s hwide hinv
      have hroom := hwide room List.mem_cons_self
      have hless := hadvances.less hroom hinv
      rcases ih (fun r hr => hwide r (List.mem_cons_of_mem room hr))
        (hadvances.inv hroom hinv) with ⟨hcalls, hleft⟩
      refine ⟨?_, ?_⟩
      · intro c hc
        rcases List.mem_cons.mp hc with hhead | htail
        · rw [hhead]
          simp only
          omega
        · exact hcalls c htail
      · simp only [run, List.length_cons]
        omega

theorem exists_last_of_run (P : Producer sym state reply) :
    forall (rooms : List Nat) {s : state}, 0 < P.left s -> P.left (P.run s rooms).2 = 0 ->
      exists c, c ∈ (P.run s rooms).1 ∧ c.after = 0 := by
  intro rooms
  induction rooms with
  | nil =>
      intro s hpos hdone
      exact absurd hdone (Nat.pos_iff_ne_zero.mp hpos)
  | cons room rooms ih =>
      intro s _ hdone
      rcases Nat.eq_zero_or_pos (P.left (P.call s room).2.2) with hzero | hmore
      · exact ⟨_, List.mem_cons_self, hzero⟩
      · rcases ih hmore hdone with ⟨c, hc, hlast⟩
        exact ⟨c, List.mem_cons_of_mem _ hc, hlast⟩

end Producer

end Foundation
end MgKdb
