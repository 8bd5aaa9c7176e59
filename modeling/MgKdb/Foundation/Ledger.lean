import Mathlib.Data.List.Nodup
import Mathlib.Logic.Function.Basic

/-!
# Requests that wait for an answer

Each request takes a key of its own and is entered in a table, and the answer removes it.
The ledger keeps what the table forgets: all keys, all requests and all answers.
-/

namespace MgKdb
namespace Foundation

universe u v

structure Ledger (κ : Type u) (γ : Type v) where
  issued : List κ
  registered : List (κ × γ)
  answered : List (κ × γ)

namespace Ledger

variable {κ : Type u} {γ : Type v}

def empty : Ledger κ γ := ⟨[], [], []⟩

/-- The table has the requests that are not answered, under keys of their own. -/
structure Orderly (l : Ledger κ γ) (table : κ -> Option γ) : Prop where
  issued : l.issued.Nodup
  known : forall e, e ∈ l.registered -> e.1 ∈ l.issued
  keys : (l.registered.map Prod.fst).Nodup
  own : forall e, e ∈ l.answered -> e ∈ l.registered
  once : (l.answered.map Prod.fst).Nodup
  waiting : forall k c,
    table k = some c <-> (k, c) ∈ l.registered ∧ k ∉ l.answered.map Prod.fst

theorem orderly_empty : (empty : Ledger κ γ).Orderly (fun _ => none) where
  issued := List.nodup_nil
  known := by
    intro e he
    cases he
  keys := List.nodup_nil
  own := by
    intro e he
    cases he
  once := List.nodup_nil
  waiting := by
    intro k c
    exact iff_of_false (fun h => by cases h) (fun h => by cases h.left)

variable {l : Ledger κ γ} {table : κ -> Option γ}

theorem Orderly.fresh (h : l.Orderly table) {k : κ} (hk : k ∉ l.issued) :
    k ∉ l.registered.map Prod.fst ∧ k ∉ l.answered.map Prod.fst := by
  have hregistered : k ∉ l.registered.map Prod.fst := by
    intro hmem
    rcases List.mem_map.mp hmem with ⟨e, he, rfl⟩
    exact hk (h.known e he)
  refine ⟨hregistered, fun hmem => ?_⟩
  rcases List.mem_map.mp hmem with ⟨e, he, rfl⟩
  exact hregistered (List.mem_map_of_mem (h.own e he))

theorem Orderly.issue (h : l.Orderly table) {k : κ} (hk : k ∉ l.issued) :
    Orderly { l with issued := k :: l.issued } table where
  issued := List.nodup_cons.mpr ⟨hk, h.issued⟩
  known := fun e he => List.mem_cons_of_mem k (h.known e he)
  keys := h.keys
  own := h.own
  once := h.once
  waiting := h.waiting

theorem Orderly.closed (h : l.Orderly table) {k : κ}
    (hk : k ∉ l.registered.map Prod.fst ∨ k ∈ l.answered.map Prod.fst) : table k = none := by
  cases hc : table k with
  | none => rfl
  | some c =>
      rcases (h.waiting k c).mp hc with ⟨hin, hopen⟩
      rcases hk with hout | hclosed
      · exact absurd (List.mem_map_of_mem hin) hout
      · exact absurd hclosed hopen

variable [DecidableEq κ]

theorem Orderly.register (h : l.Orderly table) {k : κ} (c : γ) (hissued : k ∈ l.issued)
    (hnew : k ∉ l.registered.map Prod.fst) :
    Orderly { l with registered := (k, c) :: l.registered }
      (Function.update table k (some c)) where
  issued := h.issued
  known := List.forall_mem_cons.mpr ⟨hissued, h.known⟩
  keys := List.nodup_cons.mpr ⟨hnew, h.keys⟩
  own := fun e he => List.mem_cons_of_mem _ (h.own e he)
  once := h.once
  waiting := by
    have hopen : k ∉ l.answered.map Prod.fst := by
      intro hmem
      rcases List.mem_map.mp hmem with ⟨e, he, rfl⟩
      exact hnew (List.mem_map_of_mem (h.own e he))
    intro k' c'
    by_cases hk : k' = k
    · subst hk
      have hother : (k', c') ∉ l.registered := fun hmem => hnew (List.mem_map_of_mem hmem)
      rw [Function.update_self, Option.some.injEq, List.mem_cons, Prod.mk.injEq,
        and_iff_left hopen, or_iff_left hother]
      exact ⟨fun heq => ⟨rfl, heq.symm⟩, fun heq => heq.right.symm⟩
    · rw [Function.update_of_ne hk, h.waiting, List.mem_cons, Prod.mk.injEq,
        or_iff_right (fun heq => hk heq.left)]

theorem Orderly.answer (h : l.Orderly table) {k : κ} {c : γ} (hk : table k = some c) :
    Orderly { l with answered := (k, c) :: l.answered } (Function.update table k none) where
  issued := h.issued
  known := h.known
  keys := h.keys
  own := List.forall_mem_cons.mpr ⟨((h.waiting k c).mp hk).left, h.own⟩
  once := List.nodup_cons.mpr ⟨((h.waiting k c).mp hk).right, h.once⟩
  waiting := by
    intro k' c'
    rw [List.map_cons, List.mem_cons, not_or]
    by_cases heq : k' = k
    · subst heq
      rw [Function.update_self]
      exact iff_of_false (fun hnone => by cases hnone) (fun hopen => hopen.right.left rfl)
    · rw [Function.update_of_ne heq, h.waiting, and_iff_right heq]

end Ledger

end Foundation
end MgKdb
