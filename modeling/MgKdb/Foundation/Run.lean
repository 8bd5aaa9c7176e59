import Mathlib.Init

/-!
# Runs of a machine

A deterministic machine takes one input after the other.  What holds of every step of a
run follows from what one step does in the states that satisfy an invariant, and two
states that a step cannot tell apart look the same in every run.
-/

namespace MgKdb
namespace Foundation

universe u v w

variable {state : Type u} {input : Type v} {step : state -> input -> state}

/-- `P` holds of every step of a run, in the state that the step is taken in. -/
def Along (step : state -> input -> state) (P : state -> input -> Prop) :
    state -> List input -> Prop
  | _, [] => True
  | s, i :: is => P s i ∧ Along step P (step s i) is

theorem foldl_of_inv (Inv : state -> Prop) (hstep : forall s i, Inv s -> Inv (step s i))
    (is : List input) : forall s, Inv s -> Inv (is.foldl step s) := by
  induction is with
  | nil => exact fun _ hs => hs
  | cons i is ih => exact fun s hs => ih _ (hstep s i hs)

/--
A step rule makes a run rule: where every step from a state in the invariant is good
exactly when it is in order, and then stays in the invariant, every step of a run is good
exactly when every step is in order.
-/
theorem along_iff (Inv : state -> Prop) {Good Ordered : state -> input -> Prop}
    {is : List input}
    (hstep : forall s i, i ∈ is -> Inv s -> (Good s i <-> Ordered s i))
    (hinv : forall s i, i ∈ is -> Inv s -> Ordered s i -> Inv (step s i)) :
    forall s, Inv s -> (Along step Good s is <-> Along step Ordered s is) := by
  induction is with
  | nil => exact fun s _ => Iff.rfl
  | cons i is ih =>
      intro s hs
      have hmore := ih (fun s j hj => hstep s j (List.mem_cons_of_mem i hj))
        (fun s j hj => hinv s j (List.mem_cons_of_mem i hj))
      have hhead := hstep s i List.mem_cons_self hs
      constructor
      · rintro ⟨hgood, hrest⟩
        have hordered := hhead.mp hgood
        exact ⟨hordered, (hmore _ (hinv s i List.mem_cons_self hs hordered)).mp hrest⟩
      · rintro ⟨hordered, hrest⟩
        exact ⟨hhead.mpr hordered,
          (hmore _ (hinv s i List.mem_cons_self hs hordered)).mpr hrest⟩

theorem along_of_inv (Inv : state -> Prop) {Good Ordered : state -> input -> Prop}
    (hstep : forall s i, Inv s -> Ordered s i -> Good s i ∧ Inv (step s i))
    (is : List input) :
    forall s, Inv s -> Along step Ordered s is ->
      Along step Good s is ∧ Inv (is.foldl step s) := by
  induction is with
  | nil => exact fun s hs _ => ⟨trivial, hs⟩
  | cons i is ih =>
      rintro s hs ⟨hordered, hrest⟩
      rcases hstep s i hs hordered with ⟨hgood, hinv⟩
      rcases ih _ hinv hrest with ⟨hall, hfinal⟩
      exact ⟨⟨hgood, hall⟩, hfinal⟩

theorem along_iff_of_asked (Inv : state -> Prop) {Good Ordered Asked : state -> input -> Prop}
    (hstep : forall s i, Inv s -> Asked s i -> (Good s i <-> Ordered s i))
    (hinv : forall s i, Inv s -> Asked s i -> Ordered s i -> Inv (step s i))
    (is : List input) :
    forall s, Inv s -> Along step Asked s is ->
      (Along step Good s is <-> Along step Ordered s is) := by
  induction is with
  | nil => exact fun _ _ _ => Iff.rfl
  | cons i is ih =>
      rintro s hs ⟨hasked, hrest⟩
      have hhead := hstep s i hs hasked
      constructor
      · rintro ⟨hgood, hmore⟩
        have hordered := hhead.mp hgood
        exact ⟨hordered, (ih _ (hinv s i hs hasked hordered) hrest).mp hmore⟩
      · rintro ⟨hordered, hmore⟩
        exact ⟨hhead.mpr hordered, (ih _ (hinv s i hs hasked hordered) hrest).mpr hmore⟩

theorem along_append {P : state -> input -> Prop} (is js : List input) :
    forall s, Along step P s (is ++ js) <->
      Along step P s is ∧ Along step P (is.foldl step s) js := by
  induction is with
  | nil => exact fun s => by simp [Along]
  | cons i is ih =>
      intro s
      rw [List.cons_append, Along, Along, ih, and_assoc, List.foldl_cons]

section Observation

variable {obs : Type w} {react : state -> input -> obs × state}

def observe (react : state -> input -> obs × state) : state -> List input -> List obs
  | _, [] => []
  | s, i :: is => (react s i).1 :: observe react (react s i).2 is

/-- Related states show the same in every run, when a step shows the same and keeps them
related. -/
theorem observe_congr {R : state -> state -> Prop}
    (hstep : forall s t i, R s t ->
      (react s i).1 = (react t i).1 ∧ R (react s i).2 (react t i).2) (is : List input) :
    forall s t, R s t -> observe react s is = observe react t is := by
  induction is with
  | nil => exact fun _ _ _ => rfl
  | cons i is ih =>
      intro s t hst
      rcases hstep s t i hst with ⟨hshown, hnext⟩
      rw [observe, observe, hshown, ih _ _ hnext]

def settle (react : state -> input -> obs × state) (s : state) (is : List input) : state :=
  is.foldl (fun s i => (react s i).2) s

/--
A simulation: as long as the steps are in order, the machine shows what the one that it
implements shows, and the states stay related.
-/
theorem observe_simulates {spec : Type u} {act : spec -> input -> obs × spec}
    {R : state -> spec -> Prop} {Ordered : state -> input -> Prop}
    (hstep : forall s t i, R s t -> Ordered s i ->
      (react s i).1 = (act t i).1 ∧ R (react s i).2 (act t i).2) (is : List input) :
    forall s t, R s t -> Along (fun s i => (react s i).2) Ordered s is ->
      observe react s is = observe act t is ∧ R (settle react s is) (settle act t is) := by
  induction is with
  | nil => exact fun _ _ hst _ => ⟨rfl, hst⟩
  | cons i is ih =>
      rintro s t hst ⟨hordered, hrest⟩
      rcases hstep s t i hst hordered with ⟨hshown, hnext⟩
      rcases ih _ _ hnext hrest with ⟨hmore, hfinal⟩
      exact ⟨by rw [observe, observe, hshown, hmore], hfinal⟩

theorem along_simulates {spec : Type u} {act : spec -> input -> obs × spec}
    {R : state -> spec -> Prop} {Ordered : state -> input -> Prop}
    {Fits : spec -> input -> Prop}
    (hstep : forall s t i, R s t -> Ordered s i -> R (react s i).2 (act t i).2)
    (hfits : forall s t i, R s t -> Ordered s i -> Fits t i) (is : List input) :
    forall s t, R s t -> Along (fun s i => (react s i).2) Ordered s is ->
      Along (fun t i => (act t i).2) Fits t is := by
  induction is with
  | nil => exact fun _ _ _ _ => trivial
  | cons i is ih =>
      rintro s t hst ⟨hordered, hrest⟩
      exact ⟨hfits s t i hst hordered, ih _ _ (hstep s t i hst hordered) hrest⟩

end Observation

end Foundation
end MgKdb
