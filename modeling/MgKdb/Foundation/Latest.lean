import Mathlib.Data.List.Induction
import MgKdb.Foundation.Run

/-!
# What was written last

An input of a machine may write a cell, erase it, or leave it.  After a run the cell has
what the last input that did not leave it has written.
-/

namespace MgKdb
namespace Foundation

universe u v w

variable {state : Type u} {input : Type v} {α : Type w}

/-- `a` was written in the run, and the cell has been left alone since. -/
def Standing (step : state -> input -> state) (change : state -> input -> Option (Option α))
    (s : state) (is : List input) (a : α) : Prop :=
  exists before i after, is = before ++ i :: after ∧
    change (before.foldl step s) i = some (some a) ∧
    Along step (fun t j => change t j = none) (step (before.foldl step s) i) after

variable {step : state -> input -> state} {change : state -> input -> Option (Option α)}

theorem not_standing_nil (s : state) (a : α) : ¬ Standing step change s [] a := by
  rintro ⟨before, i, after, his, _hwrite, _hleft⟩
  exact List.append_ne_nil_of_right_ne_nil before (List.cons_ne_nil i after) his.symm

theorem standing_concat (s : state) (is : List input) (i : input) (a : α) :
    Standing step change s (is ++ [i]) a <->
      change (is.foldl step s) i = some (some a) ∨
        change (is.foldl step s) i = none ∧ Standing step change s is a := by
  constructor
  · rintro ⟨before, j, after, his, hwrite, hleft⟩
    rcases List.eq_nil_or_concat after with rfl | ⟨front, last, rfl⟩
    · rcases List.append_inj' his rfl with ⟨rfl, hlast⟩
      exact Or.inl (List.head_eq_of_cons_eq hlast ▸ hwrite)
    · rw [List.concat_eq_append] at his hleft
      rw [<- List.cons_append, <- List.append_assoc] at his
      rcases List.append_inj' his rfl with ⟨rfl, hlast⟩
      rcases (along_append front [last] _).mp hleft with ⟨hfront, hleft, _⟩
      refine Or.inr ⟨?_, before, j, front, rfl, hwrite, hfront⟩
      rw [List.foldl_append, List.foldl_cons, List.head_eq_of_cons_eq hlast]
      exact hleft
  · rintro (hwrite | ⟨hleft, before, j, after, rfl, hwrite, hafter⟩)
    · exact ⟨is, i, [], rfl, hwrite, trivial⟩
    · refine ⟨before, j, after ++ [i], by simp, hwrite, ?_⟩
      rw [List.foldl_append, List.foldl_cons] at hleft
      exact (along_append after [i] _).mpr ⟨hafter, hleft, trivial⟩

/--
What a cell has after a run, when every step changes it as `change` says, and it was empty at
first.
-/
theorem standing_iff (Inv : state -> Prop) (cell : state -> Option α)
    (hkeeps : forall s i, Inv s -> Inv (step s i))
    (hchange : forall s i, Inv s -> cell (step s i) = (change s i).getD (cell s))
    {s : state} (hs : Inv s) (hempty : cell s = none) (is : List input) (a : α) :
    cell (is.foldl step s) = some a <-> Standing step change s is a := by
  induction is using List.reverseRecOn with
  | nil =>
      have hnone : cell s ≠ some a := by simp [hempty]
      exact iff_of_false hnone (not_standing_nil s a)
  | append_singleton is i ih =>
      have hinv := foldl_of_inv Inv hkeeps is s hs
      rw [List.foldl_append, List.foldl_cons, List.foldl_nil, hchange _ i hinv, standing_concat]
      cases hc : change (is.foldl step s) i with
      | none => rw [Option.getD_none, ih, or_iff_right (by simp), and_iff_right rfl]
      | some o => rw [Option.getD_some, or_iff_left (by simp), Option.some.injEq]

end Foundation
end MgKdb
