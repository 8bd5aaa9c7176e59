import MgKdb.Foundation.Walk
import MgKdb.Mgq.Boot

/-!
# What is required, and its cycles

The services kept are those the root depends on, directly or not.  Joining paths doubles
their length, so that a cycle shows up as a repetition.
-/

namespace MgKdb
namespace Boot

open Foundation Relation

/-- The namespace `d` is listed among the dependencies of `n`. -/
def DependsOn (svcs : List Service) (n d : Sym) : Prop :=
  exists s, s ∈ svcs ∧ s.nspace = n ∧ d ∈ s.deps

/-!
## The closure of the root
-/

theorem mem_depsOf {T : List Service} {S : List Sym} {d : Sym} :
    d ∈ depsOf T S <-> exists n, n ∈ S ∧ DependsOn T n d := by
  rw [depsOf, List.mem_eraseDups, List.mem_flatMap]
  constructor
  · rintro ⟨s, hs, hd⟩
    rcases List.mem_filter.mp hs with ⟨hs, hin⟩
    exact ⟨s.nspace, List.contains_iff_mem.mp hin, s, hs, rfl, hd⟩
  · rintro ⟨n, hn, s, hs, rfl, hd⟩
    exact ⟨s, List.mem_filter.mpr ⟨hs, List.contains_iff_mem.mpr hn⟩, hd⟩

theorem dependsOn_deleteIn {T : List Service} {S : List Sym} {n d : Sym} :
    DependsOn (deleteIn T S) n d <-> DependsOn T n d ∧ n ∉ S := by
  constructor
  · rintro ⟨s, hs, rfl, hd⟩
    rcases List.mem_filter.mp hs with ⟨hs, hout⟩
    exact ⟨⟨s, hs, rfl, hd⟩, by simpa using hout⟩
  · rintro ⟨⟨s, hs, rfl, hd⟩, hout⟩
    exact ⟨s, List.mem_filter.mpr ⟨hs, by simpa using hout⟩, rfl, hd⟩

theorem transGen_leaves {T : List Service} {S : List Sym} {n d : Sym}
    (h : TransGen (DependsOn T) n d) :
    (n ∉ S ∧ TransGen (DependsOn (deleteIn T S)) n d) ∨ d ∈ depsOf T S ∨
      exists m, m ∈ depsOf T S ∧ TransGen (DependsOn (deleteIn T S)) m d := by
  induction h using TransGen.head_induction_on with
  | @single n hnd =>
      by_cases hn : n ∈ S
      · exact Or.inr (Or.inl (mem_depsOf.mpr ⟨n, hn, hnd⟩))
      · exact Or.inl ⟨hn, .single (dependsOn_deleteIn.mpr ⟨hnd, hn⟩)⟩
  | @head n m hnm _ ih =>
      rcases ih with ⟨_, hm⟩ | hmore
      · by_cases hn : n ∈ S
        · exact Or.inr (Or.inr ⟨m, mem_depsOf.mpr ⟨n, hn, hnm⟩, hm⟩)
        · exact Or.inl ⟨hn, .head (dependsOn_deleteIn.mpr ⟨hnm, hn⟩) hm⟩
      · exact Or.inr hmore

theorem mem_plot (T : List Service) (S : List Sym) (d : Sym) :
    d ∈ plot T S <-> exists n, n ∈ S ∧ TransGen (DependsOn T) n d := by
  induction T, S using plot.induct with
  | case1 T S hnone =>
      rw [plot, if_pos hnone]
      constructor
      · exact fun h => absurd h List.not_mem_nil
      · rintro ⟨n, hn, hnd⟩
        rcases TransGen.head'_iff.mp hnd with ⟨m, hnm, _⟩
        have hm := mem_depsOf.mpr ⟨n, hn, hnm⟩
        rw [hnone] at hm
        exact absurd hm List.not_mem_nil
  | case2 T S hsome ih =>
      rw [plot, if_neg hsome, List.mem_eraseDups, List.mem_append, ih]
      constructor
      · rintro (hd | ⟨m, hm, hmd⟩)
        · rcases mem_depsOf.mp hd with ⟨n, hn, hnd⟩
          exact ⟨n, hn, .single hnd⟩
        · rcases mem_depsOf.mp hm with ⟨n, hn, hnm⟩
          refine ⟨n, hn, .head hnm (TransGen.mono ?_ m d hmd)⟩
          exact fun a b hab => (dependsOn_deleteIn.mp hab).left
      · rintro ⟨n, hn, hnd⟩
        rcases transGen_leaves (S := S) hnd with ⟨hout, _⟩ | hd
        · exact absurd hn hout
        · exact hd

/-!
## Walks
-/

def Edge (rows : List Row) (n d : Sym) : Prop :=
  (n, d) ∈ rows

/-- The given paths are the walks of `n` edges. -/
def Walks (rows : List Row) (n : Nat) (E : List (List Sym)) : Prop :=
  forall p, p ∈ E <-> p.length = n + 1 ∧ p.IsChain (Edge rows)

theorem walks_pairs (rows : List Row) : Walks rows 1 (rows.map fun e => [e.1, e.2]) := by
  intro p
  constructor
  · intro hp
    rcases List.mem_map.mp hp with ⟨e, he, rfl⟩
    exact ⟨rfl, List.isChain_pair.mpr he⟩
  · rintro ⟨hlen, hchain⟩
    rcases List.length_eq_two.mp hlen with ⟨a, b, rfl⟩
    exact List.mem_map.mpr ⟨(a, b), List.isChain_pair.mp hchain, rfl⟩

theorem mem_joinPaths {E : List (List Sym)} {r : List Sym} :
    r ∈ joinPaths E <-> exists p q, p ∈ E ∧ q ∈ E ∧ last p = first q ∧ r = p ++ q.drop 1 := by
  rw [joinPaths, List.mem_flatMap]
  constructor
  · rintro ⟨p, hp, hr⟩
    rcases List.mem_map.mp hr with ⟨q, hq, rfl⟩
    rcases List.mem_filter.mp hq with ⟨hq, hmeet⟩
    exact ⟨p, q, (List.mem_filter.mp hp).left, hq, beq_iff_eq.mp hmeet, rfl⟩
  · rintro ⟨p, q, hp, hq, hmeet, rfl⟩
    have hmeets : (last p == first q) = true := beq_iff_eq.mpr hmeet
    refine ⟨p, List.mem_filter.mpr ⟨hp, List.any_eq_true.mpr ⟨q, hq, hmeets⟩⟩, ?_⟩
    exact List.mem_map.mpr ⟨q, List.mem_filter.mpr ⟨hq, hmeets⟩, rfl⟩

theorem Walks.join {rows : List Row} {n : Nat} {E : List (List Sym)} (h : Walks rows n E) :
    Walks rows (n + n) (joinPaths E) := by
  intro r
  rw [mem_joinPaths]
  constructor
  · rintro ⟨p, q, hp, hq, hmeet, rfl⟩
    rcases (h p).mp hp with ⟨hplen, hpchain⟩
    rcases (h q).mp hq with ⟨hqlen, hqchain⟩
    rcases List.eq_nil_or_concat' p with rfl | ⟨front, x, rfl⟩
    · cases hplen
    · cases q with
      | nil => cases hqlen
      | cons y back =>
          rw [last, first, List.getLastD_concat, List.headD_cons] at hmeet
          subst hmeet
          refine ⟨?_, isChain_join hpchain hqchain⟩
          rw [List.length_cons] at hqlen
          rw [List.length_append, hplen, List.drop_one, List.tail_cons]
          omega
  · rintro ⟨hlen, hchain⟩
    -- the middle symbol ends the first half and starts the second
    cases hback : r.drop n with
    | nil =>
        rw [List.drop_eq_nil_iff] at hback
        omega
    | cons x back =>
        have hsplit := List.take_append_drop n r
        rw [hback] at hsplit
        have hfront : (r.take n).length = n := by
          rw [List.length_take]
          omega
        have hbacklen : back.length = n := by
          have hdrop := congrArg List.length hback
          rw [List.length_drop, List.length_cons] at hdrop
          omega
        rw [← hsplit] at hchain
        refine ⟨r.take n ++ [x], x :: back, (h _).mpr ⟨?_, ?_⟩, (h _).mpr ⟨?_, ?_⟩, ?_, ?_⟩
        · rw [List.length_append, hfront, List.length_singleton]
        · exact hchain.prefix ⟨back, by rw [List.append_assoc, List.singleton_append]⟩
        · rw [List.length_cons, hbacklen]
        · exact hchain.right_of_append
        · rw [last, first, List.getLastD_concat, List.headD_cons]
        · rw [List.drop_one, List.tail_cons, List.append_assoc, List.singleton_append, hsplit]

/-!
## The check
-/

theorem length_eraseDups_le (P : List Sym) : P.eraseDups.length <= P.length := by
  induction hn : P.length using Nat.strong_induction_on generalizing P with
  | h n ih =>
      cases P with
      | nil => simp
      | cons a P =>
          rw [List.length_cons] at hn
          have hle := List.length_filter_le (fun b => !b == a) P
          have hmore := ih _ (by omega) (P.filter fun b => !b == a) rfl
          rw [List.eraseDups_cons, List.length_cons]
          omega

theorem length_eraseDups_eq {P : List Sym} : P.length = P.eraseDups.length <-> P.Nodup := by
  induction P with
  | nil => simp
  | cons a P ih =>
      have hle := length_eraseDups_le (P.filter fun b => !b == a)
      have hfilter := List.length_filter_le (fun b => !b == a) P
      rw [List.eraseDups_cons, List.length_cons, List.length_cons, List.nodup_cons]
      constructor
      · intro h
        have hall : (P.filter fun b => !b == a) = P := by
          apply List.filter_eq_self.mpr
          apply List.length_filter_eq_length_iff.mp
          omega
        rw [hall] at h
        refine ⟨?_, ih.mp (by omega)⟩
        intro ha
        rw [← hall] at ha
        simpa using (List.mem_filter.mp ha).right
      · rintro ⟨ha, hnodup⟩
        have hall : (P.filter fun b => !b == a) = P := by
          apply List.filter_eq_self.mpr
          intro b hb
          have hne : b ≠ a := fun heq => ha (by rw [← heq]; exact hb)
          simpa using hne
        rw [hall, ih.mpr hnodup]

theorem forM_uniqChk (E : List (List Sym)) :
    forM E uniqChk =
      if forall p, p ∈ E -> p.Nodup then .ok () else .error .dependencyCycle := by
  induction E with
  | nil => simp [List.forM_nil]; rfl
  | cons p E ih =>
      rw [List.forM_cons, ih, uniqChk]
      by_cases hp : p.Nodup
      · rw [if_neg (by rw [ne_eq, not_not]; exact length_eraseDups_eq.mpr hp)]
        by_cases hE : forall q, q ∈ E -> q.Nodup
        · rw [if_pos hE, if_pos (List.forall_mem_cons.mpr ⟨hp, hE⟩)]
          rfl
        · rw [if_neg hE, if_neg (fun h => hE (List.forall_mem_cons.mp h).right)]
          rfl
      · rw [if_pos (fun h => hp (length_eraseDups_eq.mp h)),
          if_neg (fun h => hp (List.forall_mem_cons.mp h).left)]
        rfl

theorem cycleChk_eq (E : List (List Sym)) :
    cycleChk E = if forall p, p ∈ joinPaths E -> p.Nodup then .ok (joinPaths E)
      else .error .dependencyCycle := by
  rw [cycleChk, forM_uniqChk]
  split <;> rfl

theorem checkRound_eq (E : List (List Sym)) : checkRound E () =
    if forall p, p ∈ joinPaths E -> p.Nodup then .ok (joinPaths E, ())
      else .error .dependencyCycle := by
  rw [checkRound, cycleChk_eq]
  split <;> rfl

section Check

variable {rows : List Row}

theorem Edge.mem_sources {n d : Sym} (h : Edge rows n d) : n ∈ rows.map Prod.fst :=
  List.mem_map.mpr ⟨(n, d), h, rfl⟩

theorem Walks.le_length {n : Nat} {E : List (List Sym)} (h : Walks rows n E)
    {p : List Sym} (hp : p ∈ E) (hnodup : p.Nodup) : n <= rows.length := by
  rcases (h p).mp hp with ⟨hlen, hchain⟩
  have hle := length_le_of_nodup (fun _ _ he => he.mem_sources) hchain hnodup
  rw [List.length_map] at hle
  omega

theorem converge_of_acyclic (hacyclic : ¬ Cyclic (Edge rows)) (E0 : List (List Sym))
    (fuel : Nat) :
    forall {n : Nat} {E : List (List Sym)}, Walks rows n E -> 1 <= n -> 1 <= fuel ->
      (n <= rows.length -> rows.length + 2 <= fuel + n) ->
      exists out, converge checkRound E0 fuel E () = .ok out := by
  induction fuel with
  | zero =>
      intro n E _ _ hfuel
      cases hfuel
  | succ fuel ih =>
      intro n E hE hn _ hroom
      have hall : forall p, p ∈ joinPaths E -> p.Nodup :=
        fun p hp => nodup_of_isChain hacyclic ((hE.join p).mp hp).right
      rw [converge, checkRound_eq, if_pos hall]
      simp only
      split
      · exact ⟨_, rfl⟩
      · rename_i hgoes
        have hne : E ≠ [] := by
          rintro rfl
          exact hgoes (Or.inl rfl)
        rcases List.exists_mem_of_ne_nil E hne with ⟨p, hp⟩
        have hle := hE.le_length hp (nodup_of_isChain hacyclic ((hE p).mp hp).right)
        have hfuel := hroom hle
        exact ih hE.join (by omega) (by omega) (by omega)

theorem converge_of_cyclic (hcyclic : Cyclic (Edge rows)) {E0 : List (List Sym)}
    (hE0 : Walks rows 1 E0) (fuel : Nat) :
    forall {n : Nat} {E : List (List Sym)}, Walks rows n E -> 1 <= n ->
      n <= rows.length -> rows.length + 1 <= fuel + n ->
      converge checkRound E0 fuel E () = .error .dependencyCycle := by
  induction fuel with
  | zero =>
      intro n E _ _ hle hfuel
      omega
  | succ fuel ih =>
      intro n E hE hn _ hfuel
      rw [converge, checkRound_eq]
      by_cases hall : forall p, p ∈ joinPaths E -> p.Nodup
      · rcases hcyclic.exists_walk (n + n + 1) with ⟨p, hlen, hchain⟩
        have hp : p ∈ joinPaths E := (hE.join p).mpr ⟨hlen, hchain⟩
        have hle := hE.join.le_length hp (hall p hp)
        have hgoes : ¬ (joinPaths E = E ∨ joinPaths E = E0) := by
          rintro (heq | heq)
          · rw [heq] at hp
            have hshort := ((hE p).mp hp).left
            omega
          · rw [heq] at hp
            have hshort := ((hE0 p).mp hp).left
            omega
        rw [if_pos hall]
        simp only
        rw [if_neg hgoes]
        exact ih hE.join (by omega) hle (by omega)
      · rw [if_neg hall]

end Check

theorem checkCycles_of_acyclic {svcs : List Service}
    (h : ¬ Cyclic (Edge (edges svcs))) : checkCycles svcs = .ok () := by
  rcases converge_of_acyclic h ((edges svcs).map fun e => [e.1, e.2])
    ((edges svcs).length + 2) (walks_pairs _) (Nat.le_refl 1) (by omega) (by omega) with
    ⟨out, hout⟩
  simp only [checkCycles, List.length_map, hout]

theorem checkCycles_of_cyclic {svcs : List Service}
    (h : Cyclic (Edge (edges svcs))) : checkCycles svcs = .error .dependencyCycle := by
  have hpos : 1 <= (edges svcs).length := by
    rcases h with ⟨x, hx⟩
    rcases TransGen.head'_iff.mp hx with ⟨y, hxy, _⟩
    exact List.length_pos_of_mem hxy
  have hout := converge_of_cyclic h (walks_pairs _) ((edges svcs).length + 2)
    (walks_pairs _) (Nat.le_refl 1) hpos (by omega)
  simp only [checkCycles, List.length_map, hout]

end Boot
end MgKdb
