import MgKdb.Mgq.Cycles

/-!
# The order of starting

Rows of started namespaces are deleted, so that a namespace becomes a leaf when all that it
depends on is started.  When no leaf is left nothing is, unless a dependency was never
registered.
-/

namespace MgKdb
namespace Boot

open Foundation Relation

def Before (d n : Sym) (called : List Sym) : Prop :=
  exists pre post, called = pre ++ n :: post ∧ d ∈ pre

theorem Before.append {d n : Sym} {called : List Sym} (h : Before d n called)
    (more : List Sym) : Before d n (called ++ more) := by
  rcases h with ⟨pre, post, rfl, hd⟩
  exact ⟨pre, post ++ more, by rw [List.append_assoc, List.cons_append], hd⟩

theorem before_of_append {d n : Sym} {called more : List Sym} (hd : d ∈ called)
    (hn : n ∈ more) : Before d n (called ++ more) := by
  rcases List.append_of_mem hn with ⟨pre, post, rfl⟩
  exact ⟨called ++ pre, post, by rw [List.append_assoc], List.mem_append_left pre hd⟩

/-!
## One round
-/

def left (T : List Row) : List Row :=
  T.filter fun row => !((leaves T).contains row.1 || (leaves T).contains row.2)

theorem mem_left {T : List Row} {row : Row} :
    row ∈ left T <-> row ∈ T ∧ row.1 ∉ leaves T ∧ row.2 ∉ leaves T := by
  rw [left, List.mem_filter]
  simp

theorem mem_leaves {T : List Row} {n : Sym} :
    n ∈ leaves T <-> (exists d, (n, d) ∈ T) ∧ forall d, (n, d) ∈ T -> d = null := by
  rw [leaves, List.mem_map]
  constructor
  · rintro ⟨row, hrow, rfl⟩
    rcases List.mem_filter.mp hrow with ⟨hmem, hall⟩
    refine ⟨⟨row.2, hmem⟩, ?_⟩
    intro d hd
    simpa using List.all_eq_true.mp hall (row.1, d) hd
  · rintro ⟨⟨d, hd⟩, hall⟩
    refine ⟨(n, d), List.mem_filter.mpr ⟨hd, ?_⟩, rfl⟩
    refine List.all_eq_true.mpr ?_
    rintro ⟨m, e⟩ hrow
    by_cases hm : m = n
    · subst hm
      simp [hall e hrow]
    · simp [hm]

theorem startEach_ok {ini : Sym -> Bool} (hini : forall N, ini N = true) (nsp : List Sym) :
    forall called, startEach ini nsp called = .ok (called ++ nsp) := by
  induction nsp with
  | nil =>
      intro called
      rw [startEach, List.append_nil]
  | cons N nsp ih =>
      intro called
      rw [startEach, start, if_pos (hini N)]
      simp only
      rw [ih, List.append_assoc, List.singleton_append]

theorem startLeaves_ok {ini : Sym -> Bool} (hini : forall N, ini N = true) (T : List Row)
    (called : List Sym) :
    startLeaves ini T called = .ok (left T, called ++ leaves T) := by
  rw [startLeaves, startEach_ok hini]
  rfl

theorem converge_startLeaves {ini : Sym -> Bool} (hini : forall N, ini N = true)
    (T0 : List Row) (fuel : Nat) :
    forall {T : List Row} (called : List Sym), T.length < fuel ->
      exists out, converge (startLeaves ini) T0 fuel T called = .ok out := by
  induction fuel with
  | zero =>
      intro T called h
      cases h
  | succ fuel ih =>
      intro T called h
      rw [converge, startLeaves_ok hini]
      simp only
      split
      · exact ⟨_, rfl⟩
      · rename_i hgoes
        refine ih _ ?_
        have hle : (left T).length <= T.length := List.length_filter_le _ _
        have hne : (left T).length ≠ T.length := by
          intro heq
          have hall := List.length_filter_eq_length_iff.mp heq
          exact hgoes (Or.inl (List.filter_eq_self.mpr hall))
        omega

theorem startAll_ok {ini : Sym -> Bool} (hini : forall N, ini N = true)
    (svcs : List Service) : exists called, startAll ini svcs = .ok called := by
  rcases converge_startLeaves hini (startRows svcs) ((startRows svcs).length + 1) []
    (Nat.lt_succ_self _) with ⟨out, hout⟩
  rw [startAll]
  simp only [hout]
  exact ⟨_, rfl⟩

/-!
## Rounds when every dependency is registered
-/

def Registered (svcs : List Service) (n : Sym) : Prop :=
  n ∈ svcs.map Service.nspace

theorem mem_startRows {svcs : List Service} {n d : Sym} :
    (n, d) ∈ startRows svcs <-> DependsOn svcs n d ∨ (Registered svcs n ∧ d = null) := by
  rw [startRows, ungroup, List.mem_flatMap]
  constructor
  · rintro ⟨s', hs', hrow⟩
    rcases List.mem_map.mp hs' with ⟨s, hs, rfl⟩
    rcases List.mem_map.mp hrow with ⟨e, he, heq⟩
    cases heq
    rcases List.mem_append.mp he with he | he
    · exact Or.inl ⟨s, hs, rfl, he⟩
    · exact Or.inr ⟨List.mem_map.mpr ⟨s, hs, rfl⟩, List.mem_singleton.mp he⟩
  · rintro (⟨s, hs, rfl, hd⟩ | ⟨hn, rfl⟩)
    · exact ⟨_, List.mem_map.mpr ⟨s, hs, rfl⟩,
        List.mem_map.mpr ⟨d, List.mem_append_left _ hd, rfl⟩⟩
    · rcases List.mem_map.mp hn with ⟨s, hs, rfl⟩
      exact ⟨_, List.mem_map.mpr ⟨s, hs, rfl⟩,
        List.mem_map.mpr ⟨null, List.mem_append_right _ (List.mem_singleton_self _), rfl⟩⟩

/-- Services that can be started: each once, and all that they depend on is there. -/
structure Closed (svcs : List Service) : Prop where
  nodup : (svcs.map Service.nspace).Nodup
  registered : forall n d, DependsOn svcs n d -> Registered svcs d
  named : ¬ Registered svcs null
  acyclic : ¬ Cyclic (DependsOn svcs)

section Rounds

variable {svcs : List Service}

theorem Closed.ne_null (h : Closed svcs) {n d : Sym} (hd : DependsOn svcs n d) :
    d ≠ null := by
  rintro rfl
  exact h.named (h.registered n null hd)

theorem Closed.null_rows (h : Closed svcs) :
    ((startRows svcs).filter fun row => row.2 == null).map Prod.fst =
      svcs.map Service.nspace := by
  have hdeps : forall s, s ∈ svcs -> null ∉ s.deps :=
    fun s hs hnull => h.ne_null ⟨s, hs, rfl, hnull⟩ rfl
  clear h
  induction svcs with
  | nil => rfl
  | cons s svcs ih =>
      have hnone : (s.deps.map fun d => (s.nspace, d)).filter (fun row => row.2 == null) =
          [] := by
        refine List.filter_eq_nil_iff.mpr ?_
        intro row hrow
        rcases List.mem_map.mp hrow with ⟨d, hd, rfl⟩
        have hne : d ≠ null := fun heq => hdeps s List.mem_cons_self (by rw [← heq]; exact hd)
        simpa using hne
      have hrows : startRows (s :: svcs) =
          (s.deps.map fun d => (s.nspace, d)) ++ (s.nspace, null) :: startRows svcs := by
        simp [startRows, ungroup]
      rw [hrows, List.filter_append, hnone, List.nil_append,
        List.filter_cons_of_pos (by simp), List.map_cons, List.map_cons,
        ih (fun t ht => hdeps t (List.mem_cons_of_mem s ht))]

structure Underway (svcs : List Service) (T : List Row) (called : List Sym) : Prop where
  rows : forall row, row ∈ T <->
    row ∈ startRows svcs ∧ row.1 ∉ called ∧ row.2 ∉ called
  sublist : T.Sublist (startRows svcs)
  once : called.Nodup
  known : forall n, n ∈ called -> Registered svcs n
  ordered : forall n d, n ∈ called -> DependsOn svcs n d -> Before d n called

theorem underway_start (svcs : List Service) : Underway svcs (startRows svcs) [] where
  rows := by simp
  sublist := List.Sublist.refl _
  once := List.nodup_nil
  known := by simp
  ordered := by simp

variable {T : List Row} {called : List Sym}

theorem Underway.leaf (h : Underway svcs T called) (hclosed : Closed svcs) {n : Sym}
    (hn : n ∈ leaves T) :
    n ∉ called ∧ Registered svcs n ∧ forall d, DependsOn svcs n d -> d ∈ called := by
  rcases mem_leaves.mp hn with ⟨⟨d, hd⟩, hall⟩
  rcases (h.rows _).mp hd with ⟨hrow, hout, _⟩
  refine ⟨hout, ?_, ?_⟩
  · rcases mem_startRows.mp hrow with ⟨s, hs, rfl, _⟩ | ⟨hreg, _⟩
    · exact List.mem_map.mpr ⟨s, hs, rfl⟩
    · exact hreg
  · intro e he
    by_contra hnot
    refine hclosed.ne_null he (hall e ?_)
    exact (h.rows _).mpr ⟨mem_startRows.mpr (Or.inl he), hout, hnot⟩

theorem Underway.leaves_nodup (h : Underway svcs T called) (hclosed : Closed svcs) :
    (leaves T).Nodup := by
  have hnull : forall row, row ∈ leafRows T -> (row.2 == null) = true := by
    intro row hrow
    rcases List.mem_filter.mp hrow with ⟨hmem, hall⟩
    simpa using List.all_eq_true.mp hall row hmem
  have hrows : (leafRows T).Sublist (startRows svcs) := List.filter_sublist.trans h.sublist
  have hsub := hrows.filter fun row => row.2 == null
  rw [List.filter_eq_self.mpr hnull] at hsub
  have hmap := hsub.map Prod.fst
  rw [hclosed.null_rows] at hmap
  exact hclosed.nodup.sublist hmap

theorem Underway.step (h : Underway svcs T called) (hclosed : Closed svcs) :
    Underway svcs (left T) (called ++ leaves T) where
  rows := by
    intro row
    rw [mem_left, h.rows, List.mem_append, List.mem_append]
    tauto
  sublist := List.filter_sublist.trans h.sublist
  once := by
    refine List.nodup_append.mpr ⟨h.once, h.leaves_nodup hclosed, ?_⟩
    rintro n hn m hm rfl
    exact (h.leaf hclosed hm).left hn
  known := by
    intro n hn
    rcases List.mem_append.mp hn with hn | hn
    · exact h.known n hn
    · exact (h.leaf hclosed hn).right.left
  ordered := by
    intro n d hn hd
    rcases List.mem_append.mp hn with hn | hn
    · exact (h.ordered n d hn hd).append _
    · exact before_of_append ((h.leaf hclosed hn).right.right d hd) hn

theorem Underway.exists_leaf (h : Underway svcs T called) (hclosed : Closed svcs)
    (hne : T ≠ []) : leaves T ≠ [] := by
  intro hnone
  refine hclosed.acyclic (cyclic_of_succ (T.map Prod.fst) ?_ ?_)
  · simpa using hne
  · intro n hn
    have hnull : null ∉ called := fun hmem => hclosed.named (h.known null hmem)
    have hleaf : n ∉ leaves T := by
      rw [hnone]
      exact List.not_mem_nil
    rcases List.mem_map.mp hn with ⟨⟨n', e⟩, hrow, rfl⟩
    have hexists : exists d, (n', d) ∈ T ∧ d ≠ null := by
      by_contra hall
      push Not at hall
      exact hleaf (mem_leaves.mpr ⟨⟨e, hrow⟩, hall⟩)
    rcases hexists with ⟨d, hd, hdnull⟩
    rcases (h.rows _).mp hd with ⟨hstart, _, hdout⟩
    rcases mem_startRows.mp hstart with hdep | ⟨_, heq⟩
    · refine ⟨d, List.mem_map.mpr ⟨(d, null), ?_, rfl⟩, hdep⟩
      exact (h.rows _).mpr
        ⟨mem_startRows.mpr (Or.inr ⟨hclosed.registered _ _ hdep, rfl⟩), hdout, hnull⟩
    · exact absurd heq hdnull

theorem Underway.complete (h : Underway svcs T called) (hclosed : Closed svcs)
    (hstop : left T = T) : forall n, Registered svcs n -> n ∈ called := by
  have hnone : T = [] := by
    by_contra hne
    rcases List.exists_mem_of_ne_nil _ (h.exists_leaf hclosed hne) with ⟨n, hn⟩
    rcases mem_leaves.mp hn with ⟨⟨d, hd⟩, _⟩
    rw [← hstop] at hd
    exact (mem_left.mp hd).right.left hn
  intro n hn
  by_contra hout
  have hnull : null ∉ called := fun hmem => hclosed.named (h.known null hmem)
  have hrow := (h.rows (n, null)).mpr ⟨mem_startRows.mpr (Or.inr ⟨hn, rfl⟩), hout, hnull⟩
  rw [hnone] at hrow
  cases hrow

theorem Underway.run {ini : Sym -> Bool} (hini : forall N, ini N = true)
    (hclosed : Closed svcs) (fuel : Nat) :
    forall {T : List Row} {called : List Sym} {out : List Row × List Sym},
      Underway svcs T called ->
      converge (startLeaves ini) (startRows svcs) fuel T called = .ok out ->
      Underway svcs out.1 out.2 ∧ forall n, Registered svcs n -> n ∈ out.2 := by
  induction fuel with
  | zero =>
      intro T called out _ hout
      cases hout
  | succ fuel ih =>
      intro T called out h hout
      have hstep := h.step hclosed
      rw [converge, startLeaves_ok hini] at hout
      simp only at hout
      split at hout
      · rename_i hstop
        cases hout
        have hsame : left T = T := by
          rcases hstop with hstop | hstop
          · exact hstop
          · -- back at the first table nothing was ever deleted
            have hsub : (left T).Sublist T := List.filter_sublist
            have hall := h.sublist
            rw [← hstop] at hall
            exact hsub.antisymm hall
        refine ⟨hstep, ?_⟩
        exact fun n hn => List.mem_append_left _ (h.complete hclosed hsame n hn)
      · exact ih hstep hout

end Rounds

theorem startAll_order {ini : Sym -> Bool} (hini : forall N, ini N = true)
    {svcs : List Service} (hclosed : Closed svcs) {called : List Sym}
    (h : startAll ini svcs = .ok called) :
    called.Nodup ∧ (forall n, Registered svcs n -> n ∈ called) ∧
      forall n d, n ∈ called -> DependsOn svcs n d -> Before d n called := by
  obtain ⟨out, hout⟩ := converge_startLeaves hini (startRows svcs)
    ((startRows svcs).length + 1) [] (Nat.lt_succ_self _)
  rw [startAll] at h
  simp only [hout] at h
  cases h
  rcases (underway_start svcs).run hini hclosed _ hout with ⟨hunder, hall⟩
  exact ⟨hunder.once, hall, hunder.ordered⟩

/-!
## The services that the root requires
-/

def Required (svcs : List Service) (nsp n : Sym) : Prop :=
  ReflTransGen (DependsOn svcs) nsp n

structure Distinct (svcs : List Service) : Prop where
  names : (svcs.map Service.name).Nodup
  nspaces : (svcs.map Service.nspace).Nodup

theorem distinct_nil : Distinct [] where
  names := List.nodup_nil
  nspaces := List.nodup_nil

theorem registerAll_distinct (regs : List Service) :
    forall {svcs svcs' : List Service}, Distinct svcs ->
      registerAll svcs regs = .ok svcs' -> Distinct svcs' := by
  induction regs with
  | nil =>
      intro svcs svcs' h hreg
      cases hreg
      exact h
  | cons s regs ih =>
      intro svcs svcs' h hreg
      rw [registerAll, register1] at hreg
      by_cases hdup : svcs.any (fun r => r.name == s.name || r.nspace == s.nspace) = true
      · rw [if_pos hdup] at hreg
        cases hreg
      · rw [if_neg hdup] at hreg
        have hnew : forall r, r ∈ svcs -> r.name ≠ s.name ∧ r.nspace ≠ s.nspace := by
          simpa using hdup
        refine ih ⟨?_, ?_⟩ hreg
        · rw [List.map_append, List.nodup_append]
          refine ⟨h.names, List.nodup_singleton _, ?_⟩
          intro n hn m hm
          rcases List.mem_map.mp hn with ⟨r, hr, rfl⟩
          rw [List.mem_singleton.mp hm]
          exact (hnew r hr).left
        · rw [List.map_append, List.nodup_append]
          refine ⟨h.nspaces, List.nodup_singleton _, ?_⟩
          intro n hn m hm
          rcases List.mem_map.mp hn with ⟨r, hr, rfl⟩
          rw [List.mem_singleton.mp hm]
          exact (hnew r hr).right

theorem Distinct.find {svcs : List Service} (h : Distinct svcs) {s : Service}
    (hs : s ∈ svcs) : svcs.find? (fun r => r.name == s.name) = some s := by
  rcases List.append_of_mem hs with ⟨pre, post, rfl⟩
  have hnames := h.names
  rw [List.map_append, List.nodup_append] at hnames
  rw [List.find?_append, List.find?_eq_none.mpr, Option.none_or, List.find?_cons_of_pos]
  · simp
  · intro r hr
    have hne := hnames.right.right r.name (List.mem_map_of_mem hr) s.name (by simp)
    simpa using hne

section Closure

variable {svcs : List Service} {nsp : Sym}

theorem required_iff {n : Sym} : (nsp :: plot svcs [nsp]).contains n = true <->
    Required svcs nsp n := by
  rw [List.contains_iff_mem, List.mem_cons, mem_plot, Required,
    reflTransGen_iff_eq_or_transGen]
  simp

theorem mem_required {s : Service} :
    s ∈ required svcs nsp <-> s ∈ svcs ∧ Required svcs nsp s.nspace := by
  rw [required, List.mem_filter, required_iff]

theorem dependsOn_required {n d : Sym} :
    DependsOn (required svcs nsp) n d <-> DependsOn svcs n d ∧ Required svcs nsp n := by
  constructor
  · rintro ⟨s, hs, rfl, hd⟩
    rcases mem_required.mp hs with ⟨hs, hreq⟩
    exact ⟨⟨s, hs, rfl, hd⟩, hreq⟩
  · rintro ⟨⟨s, hs, rfl, hd⟩, hreq⟩
    exact ⟨s, mem_required.mpr ⟨hs, hreq⟩, rfl, hd⟩

theorem transGen_required {n d : Sym} (hreq : Required svcs nsp n)
    (h : TransGen (DependsOn svcs) n d) : TransGen (DependsOn (required svcs nsp)) n d := by
  induction h with
  | single hd => exact .single (dependsOn_required.mpr ⟨hd, hreq⟩)
  | tail hnb hd ih =>
      exact ih.tail (dependsOn_required.mpr ⟨hd, hreq.trans hnb.to_reflTransGen⟩)

theorem registered_required {n : Sym} : Registered (required svcs nsp) n <->
    Registered svcs n ∧ Required svcs nsp n := by
  rw [Registered, Registered, List.mem_map, List.mem_map]
  constructor
  · rintro ⟨s, hs, rfl⟩
    rcases mem_required.mp hs with ⟨hs, hreq⟩
    exact ⟨⟨s, hs, rfl⟩, hreq⟩
  · rintro ⟨⟨s, hs, rfl⟩, hreq⟩
    exact ⟨s, mem_required.mpr ⟨hs, hreq⟩, rfl⟩

theorem mem_edges {n d : Sym} : Edge (edges svcs) n d <->
    DependsOn svcs n d ∨
      d = null ∧ exists s, s ∈ svcs ∧ s.nspace = n ∧ s.deps = [] := by
  rw [Edge, edges, ungroup, List.mem_flatMap]
  constructor
  · rintro ⟨s', hs', hrow⟩
    rcases List.mem_map.mp hs' with ⟨s, hs, rfl⟩
    rcases List.mem_map.mp hrow with ⟨e, he, heq⟩
    cases heq
    by_cases hdeps : s.deps = []
    · rw [if_pos (by rw [hdeps]; rfl), hdeps] at he
      exact Or.inr ⟨List.mem_singleton.mp he, s, hs, rfl, hdeps⟩
    · rw [if_neg (by rwa [List.length_eq_zero_iff])] at he
      exact Or.inl ⟨s, hs, rfl, he⟩
  · rintro (⟨s, hs, rfl, hd⟩ | ⟨rfl, s, hs, rfl, hdeps⟩)
    · refine ⟨_, List.mem_map.mpr ⟨s, hs, rfl⟩, List.mem_map.mpr ⟨d, ?_, rfl⟩⟩
      rwa [if_neg (List.length_pos_of_mem hd).ne']
    · refine ⟨_, List.mem_map.mpr ⟨s, hs, rfl⟩, List.mem_map.mpr ⟨null, ?_, rfl⟩⟩
      rw [if_pos (by rw [hdeps]; rfl), hdeps]
      exact List.mem_singleton_self _

end Closure

/-!
## Booting
-/

/-- The init function is called once, and after those of the dependencies. -/
def StartedInOrder (svcs : List Service) (n : Sym) (called : List Sym) : Prop :=
  called.count n = 1 ∧ forall d, DependsOn svcs n d -> Before d n called

/-- Everything that is required is registered, and no requirement is circular. -/
def Startable (svcs : List Service) (nsp : Sym) : Prop :=
  (forall n, Required svcs nsp n -> Registered svcs n) ∧
    ¬ exists n, Required svcs nsp n ∧ TransGen (DependsOn svcs) n n

/-- Booting starts everything required, in order, and fails when this cannot be done. -/
def Boots (svcs : List Service) (nsp : Sym) (out : Except BootError (List Sym)) : Prop :=
  (forall called, out = .ok called ->
      forall n, Required svcs nsp n -> StartedInOrder svcs n called) ∧
    (¬ Startable svcs nsp -> exists e, out = .error e)

section Booting

variable {svcs : List Service} {nsp : Sym}

theorem closed_required (h : Distinct svcs)
    (hreg : forall n, Required svcs nsp n -> Registered svcs n)
    (hacyclic : ¬ Cyclic (Edge (edges (required svcs nsp)))) :
    Closed (required svcs nsp) := by
  have hall : forall n d, DependsOn (required svcs nsp) n d ->
      Registered (required svcs nsp) d := by
    intro n d hd
    rcases dependsOn_required.mp hd with ⟨hd, hreq⟩
    have hd' : Required svcs nsp d := hreq.tail hd
    exact registered_required.mpr ⟨hreg d hd', hd'⟩
  refine ⟨?_, hall, ?_, ?_⟩
  · exact h.nspaces.sublist (List.filter_sublist.map _)
  · -- a null namespace would stand behind every service without dependencies
    intro hnull
    refine hacyclic (cyclic_of_succ _ (List.ne_nil_of_mem hnull) ?_)
    intro n hn
    rcases List.mem_map.mp hn with ⟨s, hs, rfl⟩
    cases hdeps : s.deps with
    | nil => exact ⟨null, hnull, mem_edges.mpr (Or.inr ⟨rfl, s, hs, rfl, hdeps⟩)⟩
    | cons d deps =>
        have hd : DependsOn (required svcs nsp) s.nspace d :=
          ⟨s, hs, rfl, by rw [hdeps]; exact List.mem_cons_self⟩
        exact ⟨d, hall _ _ hd, mem_edges.mpr (Or.inl hd)⟩
  · exact fun hcyclic => hacyclic (hcyclic.mono fun n d hd => mem_edges.mpr (Or.inl hd))

theorem init_eq {ini : Sym -> Bool} {regs : List Service}
    (hregs : registerAll [] regs = .ok svcs) {s : Service} (hs : s ∈ svcs)
    (args : List Sym) : init ini (s.name :: args) regs =
      match checkCycles (required svcs s.nspace) with
      | .error e => .error e
      | .ok () => startAll ini (required svcs s.nspace) := by
  have hdistinct := registerAll_distinct regs distinct_nil hregs
  have hkept : (required svcs s.nspace).length ≠ 0 :=
    (List.length_pos_of_mem (mem_required.mpr ⟨hs, ReflTransGen.refl⟩)).ne'
  have hfind := hdistinct.find hs
  rw [init, hregs]
  dsimp only
  rw [hfind]
  exact if_neg hkept

/--
A registered root is booted properly exactly when the edges of what it requires have a
cycle, which is an error, or all that it requires is registered.
-/
theorem init_exact {ini : Sym -> Bool} (hini : forall N, ini N = true)
    {regs : List Service} (hregs : registerAll [] regs = .ok svcs) {s : Service}
    (hs : s ∈ svcs) (args : List Sym) :
    Boots svcs s.nspace (init ini (s.name :: args) regs) <->
      (Cyclic (Edge (edges (required svcs s.nspace))) ∨
        forall n, Required svcs s.nspace n -> Registered svcs n) := by
  have hdistinct := registerAll_distinct regs distinct_nil hregs
  rw [init_eq hregs hs]
  by_cases hcyclic : Cyclic (Edge (edges (required svcs s.nspace)))
  · rw [checkCycles_of_cyclic hcyclic]
    refine ⟨fun _ => Or.inl hcyclic, fun _ => ⟨?_, fun _ => ⟨_, rfl⟩⟩⟩
    intro called hout
    cases hout
  · rw [checkCycles_of_acyclic hcyclic]
    obtain ⟨called, hcalled⟩ := startAll_ok hini (required svcs s.nspace)
    simp only [hcalled]
    constructor
    · intro hboots
      refine Or.inr ?_
      by_contra hmissing
      rcases hboots.right (fun h => hmissing h.left) with ⟨e, he⟩
      cases he
    · intro h
      have hreg := h.resolve_left hcyclic
      have hclosed := closed_required hdistinct hreg hcyclic
      rcases startAll_order hini hclosed hcalled with ⟨honce, hall, horder⟩
      refine ⟨?_, ?_⟩
      · intro called' hout n hn
        cases hout
        have hmem := hall n (registered_required.mpr ⟨hreg n hn, hn⟩)
        refine ⟨List.count_eq_one_of_mem honce hmem, ?_⟩
        exact fun d hd => horder n d hmem (dependsOn_required.mpr ⟨hd, hn⟩)
      · intro hnot
        refine absurd ⟨hreg, ?_⟩ hnot
        rintro ⟨n, hn, hcycle⟩
        exact hclosed.acyclic ⟨n, transGen_required hn hcycle⟩

end Booting

def utlAndWeb : List Service :=
  [⟨"util", "util.q", ".utl", []⟩, ⟨"web", "web.q", ".web", [".utl"]⟩]

theorem init_exact_web :
    Boots utlAndWeb ".web" (init (fun _ => true) ["web"] utlAndWeb) <->
      (Cyclic (Edge (edges (required utlAndWeb ".web"))) ∨
        forall n, Required utlAndWeb ".web" n -> Registered utlAndWeb n) :=
  init_exact (fun _ => rfl) (by rfl) (List.mem_cons_of_mem _ List.mem_cons_self) []

def webAlone : List Service :=
  [⟨"web", "web.q", ".web", [".utl"]⟩]

/-- Booting succeeds without having called any init function. -/
theorem init_exact_alone :
    init (fun _ => true) ["web"] webAlone = .ok [] ∧
      ¬ Startable webAlone ".web" ∧
      ¬ Boots webAlone ".web" (init (fun _ => true) ["web"] webAlone) := by
  have hout : init (fun _ => true) ["web"] webAlone = .ok [] := by
    decide +kernel
  have hmissing : ¬ Startable webAlone ".web" := by
    intro h
    have hdep : DependsOn webAlone ".web" ".utl" :=
      ⟨_, List.mem_cons_self, rfl, List.mem_cons_self⟩
    have hreg := h.left ".utl" (ReflTransGen.single hdep)
    exact absurd hreg (show ".utl" ∉ webAlone.map Service.nspace by decide)
  refine ⟨hout, hmissing, ?_⟩
  intro h
  rcases h.right hmissing with ⟨e, he⟩
  rw [hout] at he
  cases he

end Boot
end MgKdb
