import Mathlib.Logic.Function.Basic
import MgKdb.Foundation.Coroutine

/-!
# Coroutines that take turns

Any number of coroutines makes calls to one world, in any order.  Each one is checked
against its own resources, as if it were alone.  The world puts no limit to the order of
the calls, so what the coroutines hold has to be separate, and calls have to leave it so.
-/

namespace MgKdb
namespace Foundation

universe u v w z

inductive Status (op : Type u) (answer : op -> Type v) (state value : Type w) where
  | running (seg : Segment op answer state value)
  | waiting (s : state)
  | ended (a : value)
  | undefined
  /-- It was about to make a call that is not in order. -/
  | strayed

structure Turns {op : Type u} {answer : op -> Type v} {event value : Type w} {ι : Type z}
    (co : ι -> Coroutine op answer event value) (res world : Type w) where
  status : (i : ι) -> Status op answer (co i).State value
  held : ι -> res
  world : world

variable {op : Type u} {answer : op -> Type v} {event value res world : Type w} {ι : Type z}

def Status.Meets {state : Type w} (E : Effects op answer res) (P : Contract state value res) :
    Status op answer state value -> res -> Prop
  | running seg, r => seg.Meets E P r
  | waiting s, r => P.wait s r
  | ended a, r => P.ret a r
  | undefined, _ => True
  | strayed, r => P.stray r

/--
The calls of a coroutine change the world as they change what it holds, and what the others
hold stays separate from it.
-/
structure Separate [DecidableEq ι] (E : Effects op answer res) (G : ι -> Effects op answer world)
    (Split : world -> (ι -> res) -> Prop) : Prop where
  possible : forall {w held i c ans}, Split w held -> E.Allowed (held i) c ->
    (G i).Possible w c ans -> E.Possible (held i) c ans
  after : forall {w held i c ans}, Split w held -> E.Allowed (held i) c ->
    (G i).Possible w c ans ->
      Split ((G i).after w c ans) (Function.update held i (E.after (held i) c ans))

namespace Turns

variable {co : ι -> Coroutine op answer event value} [DecidableEq ι]
  (E : Effects op answer res) (G : ι -> Effects op answer world)

inductive Step : Turns co res world -> Turns co res world -> Prop where
  | call (t : Turns co res world) (i : ι) (c : op)
      (k : answer c -> Segment op answer (co i).State value) (ans : answer c)
      (hi : t.status i = .running (.call c k)) (hallowed : E.Allowed (t.held i) c)
      (hans : (G i).Possible t.world c ans) :
      Step t
        { status := Function.update t.status i (.running (k ans))
          held := Function.update t.held i (E.after (t.held i) c ans)
          world := (G i).after t.world c ans }
  | stray (t : Turns co res world) (i : ι) (c : op)
      (k : answer c -> Segment op answer (co i).State value)
      (hi : t.status i = .running (.call c k)) (hnot : ¬ E.Allowed (t.held i) c) :
      Step t { t with status := Function.update t.status i .strayed }
  | goto (t : Turns co res world) (i : ι) (s : (co i).State)
      (hi : t.status i = .running (.goto s)) :
      Step t { t with status := Function.update t.status i (.running ((co i).label s)) }
  | wait (t : Turns co res world) (i : ι) (s : (co i).State)
      (hi : t.status i = .running (.wait s)) :
      Step t { t with status := Function.update t.status i (.waiting s) }
  | ret (t : Turns co res world) (i : ι) (a : value) (hi : t.status i = .running (.ret a)) :
      Step t { t with status := Function.update t.status i (.ended a) }
  | undefined (t : Turns co res world) (i : ι) (hi : t.status i = .running .undefined) :
      Step t { t with status := Function.update t.status i .undefined }
  /-- An event for a coroutine that waits. -/
  | event (t : Turns co res world) (i : ι) (s : (co i).State) (e : event)
      (hi : t.status i = .waiting s) (hwakes : E.Wakes (t.held i)) :
      Step t { t with status := Function.update t.status i (.running ((co i).resume s e)) }

inductive Reaches (t : Turns co res world) : Turns co res world -> Prop where
  | refl : Reaches t t
  | step {t' t'' : Turns co res world} (h : Reaches t t') (hstep : Step E G t' t'') :
      Reaches t t''

structure Orderly (Split : world -> (ι -> res) -> Prop)
    (P : (i : ι) -> Contract (co i).State value res) (t : Turns co res world) : Prop where
  split : Split t.world t.held
  meets : forall i, (t.status i).Meets E (P i) (t.held i)

variable {E G} {Split : world -> (ι -> res) -> Prop}
  {P : (i : ι) -> Contract (co i).State value res}

omit [DecidableEq ι] in
theorem Orderly.here {t : Turns co res world} (h : t.Orderly E Split P) {i : ι}
    {st : Status op answer (co i).State value} (hi : t.status i = st) :
    st.Meets E (P i) (t.held i) :=
  hi ▸ h.meets i

theorem Orderly.move {t : Turns co res world} (h : t.Orderly E Split P) (i : ι)
    (st : Status op answer (co i).State value) (hst : st.Meets E (P i) (t.held i)) :
    Orderly E Split P { t with status := Function.update t.status i st } := by
  refine ⟨h.split, fun j => ?_⟩
  by_cases hj : j = i
  · subst hj
    change (Function.update t.status j st j).Meets E (P j) (t.held j)
    rw [Function.update_self]
    exact hst
  · change (Function.update t.status i st j).Meets E (P j) (t.held j)
    rw [Function.update_of_ne hj]
    exact h.meets j

theorem Orderly.step {Pre : ι -> res -> Prop} (hseparate : Separate E G Split)
    (hkeeps : forall i, (co i).Keeps E (Pre i) (P i)) {t t' : Turns co res world}
    (h : t.Orderly E Split P) (hstep : Step E G t t') : t'.Orderly E Split P := by
  cases hstep with
  | call i c k ans hi hallowed hans =>
      refine ⟨hseparate.after h.split hallowed hans, fun j => ?_⟩
      by_cases hj : j = i
      · subst hj
        change (Function.update t.status j _ j).Meets E (P j) (Function.update t.held j _ j)
        rw [Function.update_self, Function.update_self]
        exact (h.here hi).left hallowed ans (hseparate.possible h.split hallowed hans)
      · change (Function.update t.status i _ j).Meets E (P j) (Function.update t.held i _ j)
        rw [Function.update_of_ne hj, Function.update_of_ne hj]
        exact h.meets j
  | stray i c k hi hnot => exact h.move i _ ((h.here hi).right hnot)
  | goto i s hi => exact h.move i _ ((hkeeps i).label s _ (h.here hi))
  | wait i s hi =>
      have hwait := h.here hi
      exact h.move i _ hwait
  | ret i a hi =>
      have hret := h.here hi
      exact h.move i _ hret
  | undefined i hi => exact h.move i _ trivial
  | event i s e hi hwakes => exact h.move i _ ((hkeeps i).resume s e _ (h.here hi) hwakes)

theorem Reaches.orderly {Pre : ι -> res -> Prop} (hseparate : Separate E G Split)
    (hkeeps : forall i, (co i).Keeps E (Pre i) (P i)) {t t' : Turns co res world}
    (h : t.Orderly E Split P) (hreaches : Reaches E G t t') : t'.Orderly E Split P := by
  induction hreaches with
  | refl => exact h
  | step _hbefore hstep ih => exact ih.step hseparate hkeeps hstep

theorem Step.place {t t' : Turns co res world} (hstep : Step E G t t') {i : ι}
    (hidle : forall seg, t.status i ≠ .running seg)
    (hasleep : forall s, t.status i = .waiting s -> ¬ E.Wakes (t.held i)) :
    t'.status i = t.status i ∧ t'.held i = t.held i := by
  have hrunning : forall j seg, t.status j = .running seg -> i ≠ j := by
    rintro j seg hj rfl
    exact hidle seg hj
  cases hstep with
  | call j c k ans hj hallowed hans =>
      have hne := hrunning j _ hj
      exact ⟨Function.update_of_ne hne _ _, Function.update_of_ne hne _ _⟩
  | stray j c k hj hnot => exact ⟨Function.update_of_ne (hrunning j _ hj) _ _, rfl⟩
  | goto j s hj => exact ⟨Function.update_of_ne (hrunning j _ hj) _ _, rfl⟩
  | wait j s hj => exact ⟨Function.update_of_ne (hrunning j _ hj) _ _, rfl⟩
  | ret j a hj => exact ⟨Function.update_of_ne (hrunning j _ hj) _ _, rfl⟩
  | undefined j hj => exact ⟨Function.update_of_ne (hrunning j _ hj) _ _, rfl⟩
  | event j s e hj hwakes =>
      refine ⟨Function.update_of_ne ?_ _ _, rfl⟩
      rintro rfl
      exact hasleep s hj hwakes

theorem Reaches.place {t t' : Turns co res world} (hreaches : Reaches E G t t') {i : ι}
    (hidle : forall seg, t.status i ≠ .running seg)
    (hasleep : forall s, t.status i = .waiting s -> ¬ E.Wakes (t.held i)) :
    t'.status i = t.status i ∧ t'.held i = t.held i := by
  induction hreaches with
  | refl => exact ⟨rfl, rfl⟩
  | step _hbefore hstep ih =>
      rcases ih with ⟨hstatus, hheld⟩
      rw [<- hstatus, <- hheld]
      refine hstep.place ?_ ?_
      · rw [hstatus]
        exact hidle
      · rw [hstatus, hheld]
        exact hasleep

/-!
## A single coroutine
-/

section Solo

variable {co : Unit -> Coroutine op answer event value} {E : Effects op answer res}
  {G : Unit -> Effects op answer world}

def solo (status : Status op answer (co ()).State value) (r : res) (w : world) :
    Turns co res world where
  status := fun _ => status
  held := fun _ => r
  world := w

variable {t : Turns co res world} {r : res} {w : world}

theorem update_solo {β : Unit -> Type z} (f : (i : Unit) -> β i) (b : β ()) :
    Function.update f () b = fun _ => b := by
  funext x
  exact Function.update_self () b f

theorem solo_call {c : op} {k : answer c -> Segment op answer (co ()).State value}
    (ans : answer c) (h : t.Reaches E G (solo (.running (.call c k)) r w))
    (hallowed : E.Allowed r c) (hans : (G ()).Possible w c ans) :
    t.Reaches E G
      (solo (.running (k ans)) (E.after r c ans) ((G ()).after w c ans)) := by
  have hstep := Step.call (E := E) (G := G) (solo (.running (.call c k)) r w : Turns co res world)
    () c k ans rfl hallowed hans
  rw [update_solo, update_solo] at hstep
  exact .step h hstep

theorem solo_goto {s : (co ()).State} {code : Segment op answer (co ()).State value}
    (h : t.Reaches E G (solo (.running (.goto s)) r w)) (hcode : (co ()).label s = code) :
    t.Reaches E G (solo (.running code) r w) := by
  have hstep := Step.goto (E := E) (G := G) (solo (.running (.goto s)) r w : Turns co res world)
    () s rfl
  rw [update_solo, hcode] at hstep
  exact .step h hstep

theorem solo_wait {s : (co ()).State} (h : t.Reaches E G (solo (.running (.wait s)) r w)) :
    t.Reaches E G (solo (.waiting s) r w) := by
  have hstep := Step.wait (E := E) (G := G) (solo (.running (.wait s)) r w : Turns co res world)
    () s rfl
  rw [update_solo] at hstep
  exact .step h hstep

theorem solo_event {s : (co ()).State} {code : Segment op answer (co ()).State value} (e : event)
    (h : t.Reaches E G (solo (.waiting s) r w)) (hwakes : E.Wakes r)
    (hcode : (co ()).resume s e = code) :
    t.Reaches E G (solo (.running code) r w) := by
  have hstep := Step.event (E := E) (G := G) (solo (.waiting s) r w : Turns co res world)
    () s e rfl hwakes
  rw [update_solo, hcode] at hstep
  exact .step h hstep

theorem solo_ret {a : value} (h : t.Reaches E G (solo (.running (.ret a)) r w)) :
    t.Reaches E G (solo (.ended a) r w) := by
  have hstep := Step.ret (E := E) (G := G) (solo (.running (.ret a)) r w : Turns co res world)
    () a rfl
  rw [update_solo] at hstep
  exact .step h hstep

end Solo

end Turns

end Foundation
end MgKdb
