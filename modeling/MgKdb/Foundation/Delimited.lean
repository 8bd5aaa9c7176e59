import Mathlib.Data.List.TakeWhile

/-!
# Text between separators

A list is cut at its first separator, or at all of them; the pieces hold no separator, and
joined with separators they are the list again.
-/

namespace MgKdb
namespace Foundation

/-!
## Joining
-/

section Joining

variable {α : Type} {sep : α}

theorem mem_intercalate {c : α} (hc : c ≠ sep) :
    forall {ws : List (List α)}, c ∈ [sep].intercalate ws <-> exists w, w ∈ ws ∧ c ∈ w := by
  intro ws
  induction ws with
  | nil => simp
  | cons w ws ih =>
      by_cases hws : ws = []
      · rw [hws]
        simp
      · rw [List.intercalate_cons_of_ne_nil hws]
        simp [ih, hc]

theorem intercalate_eq_nil {ws : List (List α)} (h : [sep].intercalate ws = []) :
    ws = [] ∨ ws = [[]] := by
  cases ws with
  | nil => exact Or.inl rfl
  | cons w ws =>
      by_cases hws : ws = []
      · rw [hws, List.intercalate_singleton] at h
        exact Or.inr (by rw [hws, h])
      · rw [List.intercalate_cons_of_ne_nil hws] at h
        simp at h

theorem intercalate_concat_append (ws : List (List α)) (w ys : List α) :
    [sep].intercalate (ws ++ [w]) ++ ys = [sep].intercalate (ws ++ [w ++ ys]) := by
  induction ws with
  | nil => simp
  | cons v ws ih =>
      rw [List.cons_append, List.cons_append, List.intercalate_cons_of_ne_nil (by simp),
        List.intercalate_cons_of_ne_nil (by simp), List.append_assoc, ih]

end Joining

section Separators

variable {α : Type} [DecidableEq α] {sep : α}

/-!
## The first separator
-/

theorem decide_ne_of_not_mem {xs : List α} (h : sep ∉ xs) :
    forall x, x ∈ xs -> decide (x ≠ sep) = true :=
  fun _x hx => decide_eq_true fun heq => h (heq ▸ hx)

theorem takeWhile_append_sep {xs : List α} (h : sep ∉ xs) (ys : List α) :
    (xs ++ sep :: ys).takeWhile (fun x => decide (x ≠ sep)) = xs := by
  rw [List.takeWhile_append_of_pos (decide_ne_of_not_mem h), List.takeWhile_cons_of_neg,
    List.append_nil]
  simp

theorem append_sep_inj {xs ys xs' ys' : List α}
    (hxs : sep ∉ xs) (hxs' : sep ∉ xs') (h : xs ++ sep :: ys = xs' ++ sep :: ys') :
    xs = xs' ∧ ys = ys' := by
  have hfront : xs = xs' := by
    rw [<- takeWhile_append_sep hxs ys, h, takeWhile_append_sep hxs']
  rw [hfront] at h
  exact ⟨hfront, (List.cons.inj (List.append_cancel_left h)).right⟩

def before (sep : α) (xs : List α) : List α :=
  xs.takeWhile (fun x => decide (x ≠ sep))

def behind (sep : α) (xs : List α) : List α :=
  (xs.dropWhile (fun x => decide (x ≠ sep))).drop 1

theorem before_append {xs : List α} (h : sep ∉ xs) (ys : List α) :
    before sep (xs ++ sep :: ys) = xs :=
  takeWhile_append_sep h ys

theorem behind_append {xs : List α} (h : sep ∉ xs) (ys : List α) :
    behind sep (xs ++ sep :: ys) = ys := by
  rw [behind, List.dropWhile_append_of_pos (decide_ne_of_not_mem h),
    List.dropWhile_cons_of_neg]
  · rfl
  · simp

theorem before_of_not_mem {xs : List α} (h : sep ∉ xs) : before sep xs = xs :=
  List.takeWhile_eq_self_iff.mpr (decide_ne_of_not_mem h)

theorem behind_of_not_mem {xs : List α} (h : sep ∉ xs) : behind sep xs = [] := by
  rw [behind, List.dropWhile_eq_nil_iff.mpr (decide_ne_of_not_mem h), List.drop_nil]

theorem eq_before_append_behind {xs : List α} (h : sep ∈ xs) :
    xs = before sep xs ++ sep :: behind sep xs := by
  rcases List.eq_append_cons_of_mem h with ⟨ys, zs, hsplit, hfront⟩
  rw [hsplit, before_append hfront, behind_append hfront]

theorem not_mem_before (sep : α) (xs : List α) : sep ∉ before sep xs := by
  intro hmem
  have hne : decide (sep ≠ sep) = true := by
    simpa only using List.mem_takeWhile_imp hmem
  exact of_decide_eq_true hne rfl

/-!
## All separators
-/

theorem not_mem_of_mem_splitOn {xs : List α} :
    forall {w : List α}, w ∈ xs.splitOn sep -> sep ∉ w := by
  induction xs with
  | nil =>
      intro w hw
      rw [List.splitOn_nil, List.mem_singleton] at hw
      rw [hw]
      exact List.not_mem_nil
  | cons x xs ih =>
      intro w hw
      rw [List.splitOn_cons_eq_if_modifyHead] at hw
      by_cases hx : (x == sep) = true
      · rw [if_pos hx] at hw
        rcases List.mem_cons.mp hw with rfl | hmore
        · exact List.not_mem_nil
        · exact ih hmore
      · rw [if_neg hx] at hw
        rcases List.exists_cons_of_ne_nil (List.splitOn_ne_nil sep xs) with ⟨v, vs, hvs⟩
        rw [hvs, List.modifyHead_cons] at hw
        rcases List.mem_cons.mp hw with rfl | hmore
        · intro hmem
          rcases List.mem_cons.mp hmem with rfl | hlater
          · exact hx (beq_self_eq_true _)
          · exact ih (hvs ▸ List.mem_cons_self) hlater
        · exact ih (hvs ▸ List.mem_cons_of_mem v hmore)

theorem mem_iff_of_splitOn {c : α} (hc : c ≠ sep) (xs : List α) :
    c ∈ xs <-> exists w, w ∈ xs.splitOn sep ∧ c ∈ w := by
  rw [← mem_intercalate hc, List.intercalate_splitOn]

theorem length_splitOn_eq_one {xs : List α} : (xs.splitOn sep).length = 1 <-> sep ∉ xs := by
  constructor
  · intro hone hmem
    rw [eq_before_append_behind hmem, List.splitOn_append_cons_self, List.length_append] at hone
    have hfront := List.length_pos_iff.mpr (List.splitOn_ne_nil sep (before sep xs))
    have hrest := List.length_pos_iff.mpr (List.splitOn_ne_nil sep (behind sep xs))
    omega
  · intro h
    rw [List.splitOn_eq_singleton h, List.length_singleton]

end Separators

end Foundation
end MgKdb
