import Mathlib.Data.List.Nodup

/-!
# Keyed tables

A row is replaced when there is one with its key, and appended otherwise.
-/

namespace MgKdb
namespace Foundation

universe u v

structure Keyed (κ : Type u) (α : Type v) where
  rows : List (κ × α)
  keyed : (rows.map Prod.fst).Nodup

namespace Keyed

variable {κ : Type u} {α : Type v} [DecidableEq κ]

def upsertRows (rows : List (κ × α)) (k : κ) (a : α) : List (κ × α) :=
  if k ∈ rows.map Prod.fst then rows.map (fun r => if r.1 = k then (k, a) else r)
  else rows ++ [(k, a)]

def deleteRows (rows : List (κ × α)) (k : κ) : List (κ × α) :=
  rows.filter (fun r => decide (r.1 ≠ k))

theorem keys_upsertRows (rows : List (κ × α)) (k : κ) (a : α) :
    (upsertRows rows k a).map Prod.fst =
      if k ∈ rows.map Prod.fst then rows.map Prod.fst else rows.map Prod.fst ++ [k] := by
  unfold upsertRows
  split
  · rw [List.map_map]
    refine List.map_congr_left fun r _hr => ?_
    by_cases hk : r.1 = k
    · simp [hk]
    · simp [hk]
  · rw [List.map_append]
    rfl

theorem nodup_upsertRows {rows : List (κ × α)} (h : (rows.map Prod.fst).Nodup) (k : κ) (a : α) :
    ((upsertRows rows k a).map Prod.fst).Nodup := by
  rw [keys_upsertRows]
  split
  · exact h
  · rename_i hnew
    exact List.concat_eq_append ▸ h.concat hnew

theorem mem_keys_deleteRows {rows : List (κ × α)} {k k' : κ} :
    k' ∈ (deleteRows rows k).map Prod.fst <-> k' ≠ k ∧ k' ∈ rows.map Prod.fst := by
  constructor
  · intro h
    rcases List.mem_map.mp h with ⟨r, hr, rfl⟩
    rcases List.mem_filter.mp hr with ⟨hmem, hne⟩
    exact ⟨of_decide_eq_true hne, List.mem_map_of_mem hmem⟩
  · rintro ⟨hne, h⟩
    rcases List.mem_map.mp h with ⟨r, hr, rfl⟩
    exact List.mem_map_of_mem (List.mem_filter.mpr ⟨hr, decide_eq_true hne⟩)

theorem nodup_deleteRows {rows : List (κ × α)} (h : (rows.map Prod.fst).Nodup) (k : κ) :
    ((deleteRows rows k).map Prod.fst).Nodup :=
  h.sublist (List.filter_sublist.map Prod.fst)

def upsert (t : Keyed κ α) (k : κ) (a : α) : Keyed κ α where
  rows := upsertRows t.rows k a
  keyed := nodup_upsertRows t.keyed k a

def lookup (t : Keyed κ α) (k : κ) : Option α :=
  (t.rows.find? (fun r => decide (r.1 = k))).map Prod.snd

theorem lookup_upsert (t : Keyed κ α) (k k' : κ) (a : α) :
    (t.upsert k a).lookup k' = if k' = k then some a else t.lookup k' := by
  change ((upsertRows t.rows k a).find? _).map Prod.snd = _
  unfold upsertRows lookup
  by_cases hmem : k ∈ t.rows.map Prod.fst
  · rw [if_pos hmem, List.find?_map]
    have hkey : (fun r : κ × α => decide (r.1 = k')) ∘ (fun r => if r.1 = k then (k, a) else r) =
        fun r => decide (r.1 = k') := by
      funext r
      by_cases hr : r.1 = k
      · simp [hr]
      · simp [hr]
    rw [hkey, Option.map_map]
    rcases hfind : t.rows.find? (fun r => decide (r.1 = k')) with _ | r
    · rw [if_neg, hfind]
      · rfl
      · rintro rfl
        rcases List.mem_map.mp hmem with ⟨r, hr, hrk⟩
        exact absurd (decide_eq_true hrk) (List.find?_eq_none.mp hfind r hr)
    · have hdec := List.find?_some hfind
      have hr : r.1 = k' := of_decide_eq_true hdec
      rw [hfind, Option.map_some, Option.map_some, Function.comp_apply, hr]
      by_cases hk : k' = k
      · rw [if_pos hk, if_pos hk]
      · rw [if_neg hk, if_neg hk]
  · rw [if_neg hmem, List.find?_append]
    by_cases hk : k' = k
    · have hnone : t.rows.find? (fun r => decide (r.1 = k')) = none := by
        refine List.find?_eq_none.mpr fun r hr hdec => hmem ?_
        rw [<- hk, <- of_decide_eq_true hdec]
        exact List.mem_map_of_mem hr
      rw [hnone, if_pos hk, Option.none_or, List.find?_singleton, if_pos (decide_eq_true hk.symm)]
      rfl
    · rw [if_neg hk, List.find?_singleton, if_neg (by simpa using fun h => hk h.symm),
        Option.or_none]

def delete (t : Keyed κ α) (k : κ) : Keyed κ α where
  rows := deleteRows t.rows k
  keyed := nodup_deleteRows t.keyed k

theorem lookup_delete (t : Keyed κ α) (k k' : κ) :
    (t.delete k).lookup k' = if k' = k then none else t.lookup k' := by
  change ((deleteRows t.rows k).find? _).map Prod.snd = _
  unfold deleteRows lookup
  rw [List.find?_filter]
  by_cases hk : k' = k
  · rw [if_pos hk, List.find?_eq_none.mpr]
    · rfl
    · intro r _
      simp [hk]
  · rw [if_neg hk]
    congr 2
    funext r
    by_cases hr : r.1 = k'
    · simp [hr, hk]
    · simp [hr]

theorem filter_key (t : Keyed κ α) (k : κ) (p : α -> Bool) :
    t.rows.filter (fun r => decide (r.1 = k) && p r.2) =
      match t.lookup k with
      | none => []
      | some a => if p a then [(k, a)] else [] := by
  rcases t with ⟨rows, hkeyed⟩
  unfold lookup
  dsimp only
  induction rows with
  | nil => rfl
  | cons r rows ih =>
      rw [List.map_cons, List.nodup_cons] at hkeyed
      rw [List.filter_cons, List.find?_cons]
      by_cases hr : r.1 = k
      · have hnone : rows.filter (fun r => decide (r.1 = k) && p r.2) = [] := by
          refine List.filter_eq_nil_iff.mpr fun r' hr' hand => hkeyed.left ?_
          rw [hr, <- of_decide_eq_true (Bool.and_eq_true_iff.mp hand).left]
          exact List.mem_map_of_mem hr'
        rw [hnone, decide_eq_true hr, Bool.true_and]
        simp only [Option.map_some]
        split
        · rw [<- hr]
        · rfl
      · rw [decide_eq_false hr, Bool.false_and]
        exact ih hkeyed.right

end Keyed

end Foundation
end MgKdb
