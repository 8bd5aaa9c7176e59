import Mathlib.Data.List.Infix

/-!
# Blocks in a stream

A stream is a sequence of blocks, delivered in pieces that need not end where a block
ends.  The lemmas say which blocks are complete after so many symbols, and what a piece
adds when the one before it ended at a block.
-/

namespace MgKdb
namespace Foundation

universe u v

variable {α : Type u} {β : Type v}

/-- The blocks that lie in the first `n` symbols of a stream. -/
def whole (img : α -> List β) : List α -> Nat -> List α
  | [], _ => []
  | x :: xs, n => if (img x).length <= n then x :: whole img xs (n - (img x).length) else []

variable {img : α -> List β}

theorem whole_front (img : α -> List β) (xs : List α) : forall n, whole img xs n <+: xs := by
  induction xs with
  | nil => exact fun n => List.prefix_rfl
  | cons x xs ih =>
      intro n
      rw [whole]
      split
      · exact (List.cons_prefix_cons).mpr ⟨rfl, ih _⟩
      · exact List.nil_prefix

theorem whole_append (img : α -> List β) (ws xs : List α) (n : Nat) :
    whole img (ws ++ xs) ((ws.flatMap img).length + n) = ws ++ whole img xs n := by
  induction ws with
  | nil => simp
  | cons w ws ih =>
      rw [List.cons_append, whole, List.flatMap_cons, List.length_append, if_pos (by omega),
        show (img w).length + (ws.flatMap img).length + n - (img w).length =
          (ws.flatMap img).length + n by omega, ih, List.cons_append]

theorem whole_zero (hpos : forall x, 0 < (img x).length) (xs : List α) :
    whole img xs 0 = [] := by
  cases xs with
  | nil => rfl
  | cons x xs =>
      have := hpos x
      rw [whole, if_neg (by omega)]

theorem whole_exact (hpos : forall x, 0 < (img x).length) (ws xs : List α) :
    whole img (ws ++ xs) (ws.flatMap img).length = ws := by
  have h := whole_append img ws xs 0
  rwa [whole_zero hpos, List.append_nil] at h

theorem exists_part (xs : List α) :
    forall {piece : List β}, piece <+: xs.flatMap img ->
      exists part, piece = (whole img xs piece.length).flatMap img ++ part ∧
        (part = [] ∨ exists x more, xs = whole img xs piece.length ++ x :: more ∧
          part <+: img x ∧ part.length < (img x).length) := by
  induction xs with
  | nil =>
      intro piece hpre
      rw [List.flatMap_nil, List.prefix_nil] at hpre
      exact ⟨[], by rw [hpre]; rfl, Or.inl rfl⟩
  | cons x xs ih =>
      intro piece hpre
      rw [List.flatMap_cons] at hpre
      rw [whole]
      by_cases hlen : (img x).length <= piece.length
      · rw [if_pos hlen]
        have hx : img x <+: piece :=
          List.prefix_of_prefix_length_le (List.prefix_append _ _) hpre hlen
        rcases hx with ⟨tail, rfl⟩
        rw [List.prefix_append_right_inj] at hpre
        rcases ih hpre with ⟨part, hpart, hrest⟩
        rw [List.length_append, Nat.add_sub_cancel_left]
        refine ⟨part, ?_, ?_⟩
        · rw [List.flatMap_cons, List.append_assoc, ← hpart]
        · rcases hrest with hnil | ⟨y, more, hxs, hy⟩
          · exact Or.inl hnil
          · exact Or.inr ⟨y, more, by rw [List.cons_append, ← hxs], hy⟩
      · rw [if_neg hlen]
        refine ⟨piece, rfl, Or.inr ⟨x, xs, rfl, ?_, by omega⟩⟩
        exact List.prefix_of_prefix_length_le hpre (List.prefix_append _ _) (by omega)

end Foundation
end MgKdb
