import Mathlib.Data.Fintype.Card
import Mathlib.Data.List.Chain
import Mathlib.Data.Set.Finite.Basic
import Mathlib.Logic.Relation
import Mathlib.Order.WellFounded

/-!
# Walks

Walks along a relation are lists whose neighbours are related.  Without a cycle a walk
visits nothing twice, so that it is short when only finitely many symbols can be left.
-/

namespace MgKdb
namespace Foundation

universe u

open Relation

variable {α : Type u} {R : α -> α -> Prop}

def Cyclic (R : α -> α -> Prop) : Prop :=
  exists x, TransGen R x x

theorem Cyclic.mono {S : α -> α -> Prop} (hsub : forall x y, R x y -> S x y)
    (h : Cyclic R) : Cyclic S := by
  rcases h with ⟨x, hx⟩
  exact ⟨x, TransGen.mono hsub x x hx⟩

theorem cyclic_of_succ (xs : List α) (hne : xs ≠ [])
    (hsucc : forall x, x ∈ xs -> exists y, y ∈ xs ∧ R x y) : Cyclic R := by
  by_contra hacyclic
  let S : {x // x ∈ xs} -> {x // x ∈ xs} -> Prop := fun x y => TransGen R y x
  have htrans : IsTrans _ S := ⟨fun _ _ _ hxy hyz => hyz.trans hxy⟩
  have hirrefl : Std.Irrefl S := ⟨fun x hx => hacyclic ⟨x.1, hx⟩⟩
  have hfinite : Finite {x // x ∈ xs} := (List.finite_toSet xs).to_subtype
  have hwf := Finite.wellFounded_of_trans_of_irrefl S
  rcases List.exists_mem_of_ne_nil xs hne with ⟨x0, hx0⟩
  rcases hwf.has_min Set.univ ⟨⟨x0, hx0⟩, trivial⟩ with ⟨x, _, hmin⟩
  rcases hsucc x.1 x.2 with ⟨y, hy, hxy⟩
  exact hmin ⟨y, hy⟩ trivial (TransGen.single hxy)

theorem nodup_of_isChain (hacyclic : ¬ Cyclic R) {p : List α} (hp : p.IsChain R) :
    p.Nodup := by
  have htrans : p.IsChain (TransGen R) := hp.imp (fun _ _ h => TransGen.single h)
  refine (List.isChain_iff_pairwise.mp htrans).imp ?_
  intro x y hxy heq
  rw [← heq] at hxy
  exact hacyclic ⟨x, hxy⟩

theorem mem_dropLast_of_isChain {p : List α} (hp : p.IsChain R) :
    forall x, x ∈ p.dropLast -> exists y, R x y := by
  induction p with
  | nil =>
      intro x hx
      cases hx
  | cons a p ih =>
      intro x hx
      cases p with
      | nil => cases hx
      | cons b p =>
          rw [List.isChain_cons_cons] at hp
          rcases List.mem_cons.mp hx with rfl | hmem
          · exact ⟨b, hp.left⟩
          · exact ih hp.right x hmem

theorem length_le_of_nodup {sources : List α} (hsrc : forall x y, R x y -> x ∈ sources)
    {p : List α} (hp : p.IsChain R) (hnodup : p.Nodup) :
    p.length <= sources.length + 1 := by
  have hsub : p.dropLast ⊆ sources := by
    intro x hx
    rcases mem_dropLast_of_isChain hp x hx with ⟨y, hxy⟩
    exact hsrc x y hxy
  have hle := (hnodup.sublist (List.dropLast_sublist p)).subperm hsub |>.length_le
  rw [List.length_dropLast] at hle
  omega

theorem Cyclic.exists_walk (h : Cyclic R) (n : Nat) :
    exists p : List α, p.length = n ∧ p.IsChain R := by
  rcases h with ⟨x, hx⟩
  have hfrom : forall n y, ReflTransGen R y x ->
      exists p : List α, p.length = n ∧ (y :: p).IsChain R := by
    intro n
    induction n with
    | zero => exact fun y _ => ⟨[], rfl, List.isChain_singleton y⟩
    | succ n ih =>
        intro y hy
        rcases TransGen.head'_iff.mp (hx.trans_right hy) with ⟨z, hyz, hz⟩
        rcases ih z hz with ⟨p, hlen, hp⟩
        exact ⟨z :: p, by rw [List.length_cons, hlen],
          List.isChain_cons_cons.mpr ⟨hyz, hp⟩⟩
  rcases hfrom n x ReflTransGen.refl with ⟨p, hlen, hp⟩
  exact ⟨p, hlen, hp.tail⟩

theorem isChain_join {p q : List α} {x : α} (hp : (p ++ [x]).IsChain R)
    (hq : (x :: q).IsChain R) : (p ++ [x] ++ q).IsChain R :=
  hp.append_overlap hq (List.cons_ne_nil x [])

end Foundation
end MgKdb
