import Mathlib.Init

/-!
# Coroutines

A coroutine runs by itself until it waits for an event, and every event lets it run on.
Its code is cut at the waits and at the heads of its loops.  Between two cuts it makes
calls, whose answers it does not know beforehand.

What a coroutine holds changes with its calls only.  A contract says what it holds at
every cut and at the end, and it is checked one piece of code at a time.
-/

namespace MgKdb
namespace Foundation

universe u v w

inductive Segment (op : Type u) (answer : op -> Type v) (state value : Type w) where
  | ret (a : value)
  | wait (s : state)
  | goto (s : state)
  /-- Nothing is known of what happens from here on. -/
  | undefined
  | call (c : op) (k : answer c -> Segment op answer state value)

structure Coroutine (op : Type u) (answer : op -> Type v) (event value : Type w) where
  State : Type w
  entry : Segment op answer State value
  label : State -> Segment op answer State value
  resume : State -> event -> Segment op answer State value

/-- What a call does to the resources, when it is in order to make it, and when a
coroutine with these resources can be woken. -/
structure Effects (op : Type u) (answer : op -> Type v) (res : Type w) where
  Allowed : res -> op -> Prop
  Possible : res -> (c : op) -> answer c -> Prop
  after : res -> (c : op) -> answer c -> res
  Wakes : res -> Prop

structure Contract (state value res : Type w) where
  ret : value -> res -> Prop
  wait : state -> res -> Prop
  goto : state -> res -> Prop
  stray : res -> Prop

variable {op : Type u} {answer : op -> Type v} {event value value' state state' res : Type w}

namespace Segment

def bind (inj : state -> state') (f : value -> Segment op answer state' value') :
    Segment op answer state value -> Segment op answer state' value'
  | ret a => f a
  | wait s => wait (inj s)
  | goto s => goto (inj s)
  | undefined => undefined
  | call c k => call c (fun ans => bind inj f (k ans))

/-- From these resources on the code keeps to the contract, whatever the answers. -/
def Meets (E : Effects op answer res) (P : Contract state value res) :
    Segment op answer state value -> res -> Prop
  | ret a, r => P.ret a r
  | wait s, r => P.wait s r
  | goto s, r => P.goto s r
  | undefined, _ => True
  | call c k, r =>
      (E.Allowed r c -> forall ans, E.Possible r c ans -> Meets E P (k ans) (E.after r c ans)) ∧
        (¬ E.Allowed r c -> P.stray r)

variable {E : Effects op answer res}

theorem meets_call {P : Contract state value res} {c : op}
    {k : answer c -> Segment op answer state value} {r : res} (hallowed : E.Allowed r c)
    (hk : forall ans, E.Possible r c ans -> (k ans).Meets E P (E.after r c ans)) :
    (Segment.call c k).Meets E P r :=
  ⟨fun _ => hk, fun hnot => absurd hallowed hnot⟩

theorem Meets.imp {P Q : Contract state value res} (hret : forall a r, P.ret a r -> Q.ret a r)
    (hwait : forall s r, P.wait s r -> Q.wait s r) (hgoto : forall s r, P.goto s r -> Q.goto s r)
    (hstray : forall r, P.stray r -> Q.stray r) (seg : Segment op answer state value) :
    forall r, seg.Meets E P r -> seg.Meets E Q r := by
  induction seg with
  | ret a => exact hret a
  | wait s => exact hwait s
  | goto s => exact hgoto s
  | undefined => exact fun _ _ => trivial
  | call c k ih =>
      intro r h
      exact ⟨fun hallowed ans hans => ih ans _ (h.left hallowed ans hans),
        fun hnot => hstray r (h.right hnot)⟩

/-- The rule of composition: the code behind starts with what the one before ends with. -/
theorem Meets.bind {P : Contract state value res} {Q : Contract state' value' res}
    {inj : state -> state'} {f : value -> Segment op answer state' value'}
    (hret : forall a r, P.ret a r -> (f a).Meets E Q r)
    (hwait : forall s r, P.wait s r -> Q.wait (inj s) r)
    (hgoto : forall s r, P.goto s r -> Q.goto (inj s) r)
    (hstray : forall r, P.stray r -> Q.stray r) (seg : Segment op answer state value) :
    forall r, seg.Meets E P r -> (seg.bind inj f).Meets E Q r := by
  induction seg with
  | ret a => exact hret a
  | wait s => exact hwait s
  | goto s => exact hgoto s
  | undefined => exact fun _ _ => trivial
  | call c k ih =>
      intro r h
      exact ⟨fun hallowed ans hans => ih ans _ (h.left hallowed ans hans),
        fun hnot => hstray r (h.right hnot)⟩

/-- A run to the end of code that does not wait, with what it holds then. -/
inductive Ends (E : Effects op answer res) :
    Segment op answer state value -> res -> value -> res -> Prop where
  | ret (a : value) (r : res) : Ends E (.ret a) r a r
  | call {c : op} {k : answer c -> Segment op answer state value} {r r' : res} {a : value}
      (ans : answer c) (hallowed : E.Allowed r c) (hans : E.Possible r c ans)
      (h : Ends E (k ans) (E.after r c ans) a r') : Ends E (.call c k) r a r'

theorem Meets.ends {P : Contract state value res} {seg : Segment op answer state value}
    {r r' : res} {a : value} (h : seg.Meets E P r) (hends : seg.Ends E r a r') : P.ret a r' := by
  induction hends with
  | ret a r => exact h
  | call ans hallowed hans _ ih => exact ih (h.left hallowed ans hans)

end Segment

namespace Coroutine

def straight (seg : Segment op answer PEmpty value) :
    Coroutine op answer event value where
  State := PEmpty
  entry := seg
  label := fun s => s.elim
  resume := fun s _ => s.elim

/-- One coroutine that awaits another and goes on with its result. -/
def bind (c : Coroutine op answer event value)
    (f : value -> Coroutine op answer event value') :
    Coroutine op answer event value' where
  State := c.State ⊕ ((a : value) × (f a).State)
  entry := c.entry.bind Sum.inl (fun a => (f a).entry.bind (fun s => Sum.inr ⟨a, s⟩) .ret)
  label
    | .inl s =>
        (c.label s).bind Sum.inl (fun a => (f a).entry.bind (fun s => Sum.inr ⟨a, s⟩) .ret)
    | .inr ⟨a, s⟩ => ((f a).label s).bind (fun s => Sum.inr ⟨a, s⟩) .ret
  resume
    | .inl s, e =>
        (c.resume s e).bind Sum.inl (fun a => (f a).entry.bind (fun s => Sum.inr ⟨a, s⟩) .ret)
    | .inr ⟨a, s⟩, e => ((f a).resume s e).bind (fun s => Sum.inr ⟨a, s⟩) .ret

structure Keeps (E : Effects op answer res) (c : Coroutine op answer event value)
    (Pre : res -> Prop) (P : Contract c.State value res) : Prop where
  entry : forall r, Pre r -> c.entry.Meets E P r
  label : forall s r, P.goto s r -> (c.label s).Meets E P r
  resume : forall s e r, P.wait s r -> E.Wakes r -> (c.resume s e).Meets E P r

/-- The contract of a composition, with what both parts say of its end and of calls that
are not in order. -/
def bindContract {c : Coroutine op answer event value}
    {f : value -> Coroutine op answer event value'} (P : Contract c.State value res)
    (Q : (a : value) -> Contract (f a).State value' res) (Ret : value' -> res -> Prop)
    (Stray : res -> Prop) : Contract (c.bind f).State value' res where
  ret := Ret
  wait
    | .inl s => P.wait s
    | .inr ⟨a, s⟩ => (Q a).wait s
  goto
    | .inl s => P.goto s
    | .inr ⟨a, s⟩ => (Q a).goto s
  stray := Stray

variable {E : Effects op answer res}

theorem keeps_straight {seg : Segment op answer PEmpty value} {Pre : res -> Prop}
    {P : Contract PEmpty value res} (h : forall r, Pre r -> seg.Meets E P r) :
    (straight seg : Coroutine op answer event value).Keeps E Pre P where
  entry := h
  label := fun s => s.elim
  resume := fun s => s.elim

theorem Keeps.imp {c : Coroutine op answer event value} {R R' : res -> Prop}
    {P : Contract c.State value res} (hpre : forall r, R' r -> R r) (h : c.Keeps E R P) :
    c.Keeps E R' P :=
  ⟨fun r hr => h.entry r (hpre r hr), h.label, h.resume⟩

theorem Keeps.bind {c : Coroutine op answer event value}
    {f : value -> Coroutine op answer event value'} {Pre : res -> Prop}
    {P : Contract c.State value res} {Q : (a : value) -> Contract (f a).State value' res}
    {Ret : value' -> res -> Prop} {Stray : res -> Prop} (hc : c.Keeps E Pre P)
    (hf : forall a, (f a).Keeps E (P.ret a) (Q a))
    (hret : forall a b r, (Q a).ret b r -> Ret b r) (hfirst : forall r, P.stray r -> Stray r)
    (hsecond : forall a r, (Q a).stray r -> Stray r) :
    (c.bind f).Keeps E Pre (bindContract P Q Ret Stray) := by
  have hbehind : forall a (seg : Segment op answer (f a).State value') r,
      seg.Meets E (Q a) r ->
        (seg.bind (fun s => (Sum.inr ⟨a, s⟩ : (c.bind f).State)) .ret).Meets E
          (bindContract P Q Ret Stray) r := by
    intro a seg r h
    refine Segment.Meets.bind (P := Q a) ?_ ?_ ?_ ?_ seg r h
    · exact hret a
    · exact fun _ _ hwait => hwait
    · exact fun _ _ hgoto => hgoto
    · exact hsecond a
  have hwhole : forall (seg : Segment op answer c.State value) r, seg.Meets E P r ->
      (seg.bind (fun s => (Sum.inl s : (c.bind f).State))
        (fun a => (f a).entry.bind (fun s => Sum.inr ⟨a, s⟩) .ret)).Meets E
          (bindContract P Q Ret Stray) r := by
    intro seg r h
    refine Segment.Meets.bind (P := P) ?_ ?_ ?_ ?_ seg r h
    · exact fun a r hend => hbehind a _ r ((hf a).entry r hend)
    · exact fun _ _ hwait => hwait
    · exact fun _ _ hgoto => hgoto
    · exact hfirst
  refine ⟨fun r h => hwhole _ r (hc.entry r h), ?_, ?_⟩
  · rintro (s | ⟨a, s⟩) r h
    · exact hwhole _ r (hc.label s r h)
    · exact hbehind a _ r ((hf a).label s r h)
  · rintro (s | ⟨a, s⟩) e r h hwakes
    · exact hwhole _ r (hc.resume s e r h hwakes)
    · exact hbehind a _ r ((hf a).resume s e r h hwakes)

theorem wait_bindContract {c : Coroutine op answer event value}
    {f : value -> Coroutine op answer event value'} {P : Contract c.State value res}
    {Q : (a : value) -> Contract (f a).State value' res} {Ret : value' -> res -> Prop}
    {Stray W : res -> Prop} (hfirst : forall s r, P.wait s r -> W r)
    (hsecond : forall a s r, (Q a).wait s r -> W r) (s : (c.bind f).State) (r : res)
    (h : (bindContract P Q Ret Stray).wait s r) : W r := by
  rcases s with s | ⟨a, s⟩
  · exact hfirst s r h
  · exact hsecond a s r h

end Coroutine

def Contract.some {ι : Type w} (P : ι -> Contract state value res) :
    Contract state value res where
  ret := fun a r => exists x, (P x).ret a r
  wait := fun s r => exists x, (P x).wait s r
  goto := fun s r => exists x, (P x).goto s r
  stray := fun r => exists x, (P x).stray r

theorem Coroutine.Keeps.some {E : Effects op answer res} {ι : Type w}
    {c : Coroutine op answer event value} {Pre : ι -> res -> Prop}
    {P : ι -> Contract c.State value res} (h : forall x, c.Keeps E (Pre x) (P x)) :
    c.Keeps E (fun r => exists x, Pre x r) (Contract.some P) := by
  have hweak : forall x (seg : Segment op answer c.State value) r, seg.Meets E (P x) r ->
      seg.Meets E (Contract.some P) r := by
    intro x
    refine Segment.Meets.imp ?_ ?_ ?_ ?_
    · exact fun _ _ hret => ⟨x, hret⟩
    · exact fun _ _ hwait => ⟨x, hwait⟩
    · exact fun _ _ hgoto => ⟨x, hgoto⟩
    · exact fun _ hstray => ⟨x, hstray⟩
  refine ⟨?_, ?_, ?_⟩
  · rintro r ⟨x, hpre⟩
    exact hweak x _ r ((h x).entry r hpre)
  · rintro s r ⟨x, hgoto⟩
    exact hweak x _ r ((h x).label s r hgoto)
  · rintro s e r ⟨x, hwait⟩ hwakes
    exact hweak x _ r ((h x).resume s e r hwait hwakes)

end Foundation
end MgKdb
