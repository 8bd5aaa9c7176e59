import Mathlib.Logic.Function.Basic
import MgKdb.Foundation.Run

/-!
# Bounded queues

A first-in first-out queue of limited size.  It refuses to hold more, and it refuses to
give out more than it holds.  A ring of cells holds one: it begins at some cell and goes
on at the first cell behind the last one.
-/

namespace MgKdb
namespace Foundation

universe u

inductive QueueOp (sym : Type u) where
  | append (xs : List sym)
  | consume (n : Nat)
  deriving Repr, DecidableEq

namespace QueueOp

variable {sym : Type u}

def brought : QueueOp sym -> List sym
  | append xs => xs
  | consume _ => []

/-- The queue holds no more than `cap` and no less than what is taken. -/
def Fits (cap : Nat) (q : List sym) : QueueOp sym -> Prop
  | append xs => q.length + xs.length <= cap
  | consume n => n <= q.length

instance (cap : Nat) (q : List sym) (op : QueueOp sym) : Decidable (Fits cap q op) :=
  match op with
  | append _ => inferInstanceAs (Decidable (_ <= _))
  | consume _ => inferInstanceAs (Decidable (_ <= _))

end QueueOp

section Queue

variable {sym : Type u}

def queueReact (cap : Nat) (q : List sym) (op : QueueOp sym) : Option (List sym) × List sym :=
  if op.Fits cap q then
    match op with
    | .append xs => (some [], q ++ xs)
    | .consume n => (some (q.take n), q.drop n)
  else (none, q)

variable {cap n : Nat} {q xs : List sym}

theorem queueReact_append (h : q.length + xs.length <= cap) :
    queueReact cap q (.append xs) = (some [], q ++ xs) :=
  if_pos h

theorem queueReact_consume (h : n <= q.length) :
    queueReact cap q (.consume n) = (some (q.take n), q.drop n) :=
  if_pos h

def given (outs : List (Option (List sym))) : List sym :=
  outs.flatMap (fun out => out.getD [])

theorem given_append_queue (cap : Nat) (ops : List (QueueOp sym)) :
    forall q : List sym,
      Along (fun q op => (queueReact cap q op).2) (fun q op => op.Fits cap q) q ops ->
        given (observe (queueReact cap) q ops) ++ settle (queueReact cap) q ops =
          q ++ ops.flatMap QueueOp.brought := by
  induction ops with
  | nil =>
      intro q _
      simp [given, observe, settle]
  | cons op ops ih =>
      rintro q ⟨hfits, hrest⟩
      have hmore := ih _ hrest
      rw [observe, given, List.flatMap_cons, settle, List.foldl_cons, List.flatMap_cons,
        List.append_assoc]
      rw [given, settle] at hmore
      rw [hmore]
      cases op with
      | append xs =>
          simp only [queueReact_append hfits, Option.getD_some, QueueOp.brought,
            List.nil_append, List.append_assoc]
      | consume n =>
          simp only [queueReact_consume hfits, Option.getD_some, QueueOp.brought,
            List.nil_append]
          rw [← List.append_assoc, List.take_append_drop]

end Queue

/-!
## Rings of cells
-/

section Ring

variable {sym : Type u} {size off pos n : Nat} {mem : Nat -> sym} {xs q : List sym}

/-- `n` symbols from the place `off` on, around the ring. -/
def ringLoad (size : Nat) (mem : Nat -> sym) (off n : Nat) : List sym :=
  (List.range n).map (fun i => mem ((off + i) % size))

/-- Store symbols from the place `off` on, one after the other. -/
def ringStore (size : Nat) : (Nat -> sym) -> Nat -> List sym -> Nat -> sym
  | mem, _, [] => mem
  | mem, off, x :: xs => ringStore size (Function.update mem (off % size) x) (off + 1) xs

theorem mod_ne_of_near {a b : Nat} (hlt : a < b) (hnear : b < a + size) :
    a % size ≠ b % size := by
  intro heq
  have hdvd : size ∣ b - a := Nat.dvd_of_mod_eq_zero (Nat.sub_mod_eq_zero_of_mod_eq heq.symm)
  have hle := Nat.le_of_dvd (by omega) hdvd
  omega

@[simp] theorem ringLoad_length (mem : Nat -> sym) (off n : Nat) :
    (ringLoad size mem off n).length = n := by
  simp [ringLoad]

variable (size) in
theorem ringLoad_add (mem : Nat -> sym) (off m n : Nat) :
    ringLoad size mem off (m + n) =
      ringLoad size mem off m ++ ringLoad size mem (off + m) n := by
  simp only [ringLoad, List.range_add, List.map_append, List.map_map]
  congr 2
  funext i
  simp only [Function.comp_apply, Nat.add_assoc]

theorem ringLoad_congr {mem' : Nat -> sym}
    (h : forall i, i < n -> mem' ((off + i) % size) = mem ((off + i) % size)) :
    ringLoad size mem' off n = ringLoad size mem off n :=
  List.map_congr_left (fun i hi => h i (List.mem_range.mp hi))

variable (size) in
theorem ringLoad_wrap (mem : Nat -> sym) (off n : Nat) :
    ringLoad size mem (off + size) n = ringLoad size mem off n := by
  refine List.map_congr_left (fun i _ => ?_)
  rw [Nat.add_right_comm, Nat.add_mod_right]

theorem ringStore_other {cell : Nat} (xs : List sym) :
    forall {mem : Nat -> sym} {off : Nat},
      (forall i, i < xs.length -> (off + i) % size ≠ cell) ->
        ringStore size mem off xs cell = mem cell := by
  induction xs with
  | nil => exact fun _ => rfl
  | cons x xs ih =>
      intro mem off hother
      have hmore : forall i, i < xs.length -> (off + 1 + i) % size ≠ cell := by
        intro i hi
        have hnext := hother (i + 1) (by rw [List.length_cons]; omega)
        rwa [show off + 1 + i = off + (i + 1) by omega]
      have hfirst := hother 0 (by rw [List.length_cons]; omega)
      rw [Nat.add_zero] at hfirst
      rw [ringStore, ih hmore, Function.update_of_ne hfirst.symm]

theorem ringLoad_ringStore (xs : List sym) :
    forall {mem : Nat -> sym} {off : Nat}, xs.length <= size ->
      ringLoad size (ringStore size mem off xs) off xs.length = xs := by
  induction xs with
  | nil => exact fun _ => rfl
  | cons x xs ih =>
      intro mem off hfits
      rw [List.length_cons] at hfits ⊢
      have hhead : ringStore size (Function.update mem (off % size) x) (off + 1) xs
          (off % size) = x := by
        rw [ringStore_other xs (fun i hi => ?_), Function.update_self]
        exact (mod_ne_of_near (by omega) (by omega)).symm
      rw [Nat.add_comm, ringLoad_add, ringStore, ih (by omega)]
      simp [ringLoad, hhead]

theorem ringLoad_of_store (hbefore : pos + n <= off) (hbehind : off + xs.length <= pos + size) :
    ringLoad size (ringStore size mem off xs) pos n = ringLoad size mem pos n := by
  refine ringLoad_congr (fun i hi => ringStore_other xs (fun j hj => ?_))
  exact (mod_ne_of_near (by omega) (by omega)).symm

/-- The queue `q` stands in the ring from `pos` on. -/
structure Rings (size : Nat) (mem : Nat -> sym) (pos : Nat) (q : List sym) : Prop where
  fits : q.length <= size
  holds : ringLoad size mem pos q.length = q

theorem Rings.append (h : Rings size mem pos q) (hroom : q.length + xs.length <= size) :
    Rings size (ringStore size mem (pos + q.length) xs) pos (q ++ xs) where
  fits := by
    rw [List.length_append]
    exact hroom
  holds := by
    rw [List.length_append, ringLoad_add, ringLoad_of_store (Nat.le_refl _) (by omega),
      h.holds, ringLoad_ringStore xs (by omega)]

theorem Rings.taken (h : Rings size mem pos q) (hn : n <= q.length) :
    ringLoad size mem pos n = q.take n := by
  have hsplit := ringLoad_add size mem pos n (q.length - n)
  rw [Nat.add_sub_cancel' hn, h.holds] at hsplit
  rw [hsplit, List.take_left' (ringLoad_length _ _ _)]

theorem Rings.consume (h : Rings size mem pos q) (hn : n <= q.length) :
    Rings size mem (pos + n) (q.drop n) where
  fits := by
    have hfits := h.fits
    rw [List.length_drop]
    omega
  holds := by
    have hsplit := ringLoad_add size mem pos n (q.length - n)
    rw [Nat.add_sub_cancel' hn, h.holds] at hsplit
    rw [List.length_drop]
    conv => rhs; rw [hsplit, List.drop_left' (ringLoad_length _ _ _)]

theorem Rings.unwrap (h : Rings size mem pos q) (hpos : size <= pos) :
    Rings size mem (pos - size) q where
  fits := h.fits
  holds := by
    have hwrap := ringLoad_wrap size mem (pos - size) q.length
    rw [Nat.sub_add_cancel hpos] at hwrap
    rw [← hwrap, h.holds]

end Ring

end Foundation
end MgKdb
