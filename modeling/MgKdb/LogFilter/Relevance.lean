import MgKdb.LogFilter.Check

/-!
# What makes a message relevant

A message is of interest when its second element is the name of one of the tables.  The
filter passes the level and the number of an element down as it descends, and uses the
numbers of the elements of a list for the two parts of a dict as well.
-/

namespace MgKdb

open Foundation

namespace LogVal

variable {tbl_names : List NulText}

def IsName (tbl_names : List NulText) (p : LogVal) : Prop :=
  exists val, p = symbolAtom val ∧ val ∈ tbl_names

def NamesTable (tbl_names : List NulText) (parts : List LogVal) : Prop :=
  exists p, parts[1]? = some p ∧ p.IsName tbl_names

theorem markAll_deep {level : Int} (ps : List LogVal)
    (h : forall p, p ∈ ps -> forall level index relevant : Int, 0 < level ->
      p.mark tbl_names level index relevant = relevant) (hlevel : 0 < level) :
    forall i relevant : Int, markAll tbl_names level i ps relevant = relevant := by
  induction ps with
  | nil => exact fun i relevant => by rw [markAll]
  | cons p ps ih =>
      intro i relevant
      rw [markAll, h p List.mem_cons_self level i relevant hlevel]
      exact ih (fun q hq => h q (List.mem_cons_of_mem p hq)) (i + 1) relevant

theorem mark_deep (p : LogVal) : forall level index relevant : Int, 0 < level ->
    p.mark tbl_names level index relevant = relevant := by
  induction p with
  | symbolAtom val =>
      intro level index relevant hlevel
      rw [mark, if_neg (fun h => by omega)]
  | list attr parts ih =>
      intro level index relevant hlevel
      rw [mark]
      exact markAll_deep parts ih (by omega) 0 relevant
  | dict keys vals ihk ihv =>
      intro level index relevant hlevel
      rw [mark, ihk _ _ _ (by omega), ihv _ _ _ (by omega)]
  | table attr cols vals ihc ihv =>
      intro level index relevant hlevel
      rw [mark, ihc _ _ _ (by omega), ihv _ _ _ (by omega)]
  | atom e val => exact fun _ _ _ _ => rfl
  | vector e attr vec => exact fun _ _ _ _ => rfl
  | symbolVector attr syms => exact fun _ _ _ _ => rfl
  | other typ h body => exact fun _ _ _ _ => rfl

theorem not_isName {p : LogVal} {index : Int} (h : forall val, p ≠ symbolAtom val) :
    ¬ (index = 1 ∧ p.IsName tbl_names) := by
  rintro ⟨_, val, heq, _⟩
  exact h val heq

theorem isName_symbolAtom {val : NulText} :
    (symbolAtom val).IsName tbl_names <-> val ∈ tbl_names := by
  constructor
  · rintro ⟨val', heq, hmem⟩
    cases heq
    exact hmem
  · intro hmem
    exact ⟨val, rfl, hmem⟩

open Classical in
theorem mark_element (p : LogVal) (index relevant : Int) :
    p.mark tbl_names 0 index relevant =
      if index = 1 ∧ p.IsName tbl_names then 1 else relevant := by
  cases p with
  | symbolAtom val =>
      simp [mark, isName_symbolAtom]
  | list attr parts =>
      rw [mark, if_neg (not_isName fun _ heq => by cases heq)]
      exact markAll_deep parts (fun p _ => mark_deep p) (by omega) 0 relevant
  | dict keys vals =>
      rw [mark, if_neg (not_isName fun _ heq => by cases heq), mark_deep keys _ _ _ (by omega),
        mark_deep vals _ _ _ (by omega)]
  | table attr cols vals =>
      rw [mark, if_neg (not_isName fun _ heq => by cases heq), mark_deep cols _ _ _ (by omega),
        mark_deep vals _ _ _ (by omega)]
  | atom e val => rw [if_neg (not_isName fun _ heq => by cases heq)]; simp only [mark]
  | vector e attr vec => rw [if_neg (not_isName fun _ heq => by cases heq)]; simp only [mark]
  | symbolVector attr syms =>
      rw [if_neg (not_isName fun _ heq => by cases heq)]; simp only [mark]
  | other typ h body => rw [if_neg (not_isName fun _ heq => by cases heq)]; simp only [mark]

theorem markAll_later (ps : List LogVal) : forall i relevant : Int, 1 < i ->
    markAll tbl_names 0 i ps relevant = relevant := by
  induction ps with
  | nil => exact fun i relevant _ => by rw [markAll]
  | cons p ps ih =>
      intro i relevant hi
      rw [markAll, mark_element, if_neg (fun h => by omega)]
      exact ih (i + 1) relevant (by omega)

open Classical in
theorem mark_list (attr : UInt8) (parts : List LogVal) (index relevant : Int) :
    (list attr parts).mark tbl_names (-1) index relevant =
      if NamesTable tbl_names parts then 1 else relevant := by
  rw [mark, Int.add_left_neg]
  cases parts with
  | nil =>
      rw [markAll, if_neg]
      rintro ⟨p, hp, _⟩
      cases hp
  | cons first parts =>
      rw [markAll, mark_element, if_neg (fun h => absurd h.left (by omega))]
      cases parts with
      | nil =>
          rw [markAll, if_neg]
          rintro ⟨p, hp, _⟩
          cases hp
      | cons second more =>
          rw [markAll, markAll_later more _ _ (by omega), mark_element]
          have hiff : NamesTable tbl_names (first :: second :: more) <->
              second.IsName tbl_names := by
            constructor
            · rintro ⟨p, hp, hname⟩
              cases hp
              exact hname
            · intro hname
              exact ⟨second, rfl, hname⟩
          simp [hiff]

end LogVal

theorem mgChkMsg_value (p : LogVal) (hwf : p.WellFormed) (tbl_names : List NulText)
    (relevant : Int) (rest : List UInt8) :
    GivesWhen p.Accepted (p.bytes.length, p.mark tbl_names (-1) 0 relevant)
      (mgChkMsg (p.bytes ++ rest) tbl_names relevant) := by
  refine (LogVal.checks p hwf _ (-1) 0 (p.bytes ++ rest) rest relevant List.prefix_rfl
    (Nat.lt_succ_self _)).of_iff ⟨fun h => ⟨h, ?_⟩, fun h => h.left⟩
  show p.bytes.length <= (p.bytes ++ rest).length + p.unread
  rw [List.length_append]
  omega

def NotesRelevance (tbl_names : List NulText) (attr : UInt8) (parts : List LogVal)
    (rest : List UInt8) : Prop :=
  exists relevant : Int,
    mgChkMsg ((LogVal.list attr parts).bytes ++ rest) tbl_names 0 =
        some ((LogVal.list attr parts).bytes.length, relevant) ∧
      (relevant = 1 <-> LogVal.NamesTable tbl_names parts)

theorem not_notesRelevance {tbl_names : List NulText} {attr : UInt8} {parts : List LogVal}
    (hwf : (LogVal.list attr parts).WellFormed) (hno : ¬ (LogVal.list attr parts).DataFits)
    (rest : List UInt8) : ¬ NotesRelevance tbl_names attr parts rest := by
  rintro ⟨relevant, hchk, _⟩
  rw [(mgChkMsg_value _ hwf tbl_names 0 rest).denies (fun h => hno h.right)] at hchk
  cases hchk

/--
A list of supported types is relevant exactly when its second element is the name of a table;
but the filter gets that far exactly when the data of every vector are shorter than 2^31
bytes.
-/
theorem mgChkMsg_relevant (tbl_names : List NulText) (attr : UInt8) (parts : List LogVal)
    (hwf : (LogVal.list attr parts).WellFormed) (hhandled : (LogVal.list attr parts).Handled)
    (rest : List UInt8) :
    NotesRelevance tbl_names attr parts rest <-> (LogVal.list attr parts).DataFits := by
  have hvalue := mgChkMsg_value _ hwf tbl_names 0 rest
  constructor
  · intro hnotes
    by_contra hno
    exact not_notesRelevance hwf hno rest hnotes
  · intro hfits
    refine ⟨_, hvalue.gives ⟨hhandled, hfits⟩, ?_⟩
    rw [LogVal.mark_list]
    split
    next h => exact ⟨fun _ => h, fun _ => rfl⟩
    next h => exact ⟨fun hone => absurd hone (by decide), fun hname => absurd hname h⟩

/-- `(`t;`t)`, for a set with `t` in it. -/
theorem mgChkMsg_relevant_pair :
    NotesRelevance [⟨[116], nulFree_tblName⟩] 0
        [.symbolAtom ⟨[116], nulFree_tblName⟩, .symbolAtom ⟨[116], nulFree_tblName⟩] [] <->
      (LogVal.list 0 [.symbolAtom ⟨[116], nulFree_tblName⟩,
        .symbolAtom ⟨[116], nulFree_tblName⟩]).DataFits :=
  mgChkMsg_relevant [⟨[116], nulFree_tblName⟩] 0
    [.symbolAtom ⟨[116], nulFree_tblName⟩, .symbolAtom ⟨[116], nulFree_tblName⟩]
    (by simp [LogVal.WellFormed, LogVal.Everywhere, LogVal.EverywhereAll, LogVal.CountFits])
    (by simp [LogVal.Handled, LogVal.Everywhere, LogVal.EverywhereAll, LogVal.TypHandled]) []

def zeroLongs (n : Nat) : LogVal :=
  .vector (.elem .long) 0 (List.replicate n 0)

section ZeroLongs

variable {n : Nat}

theorem zeroLongs_wellFormed (hn : n < 2 ^ 31) : (zeroLongs n).WellFormed := by
  simpa only [zeroLongs, LogVal.WellFormed, LogVal.Everywhere, LogVal.CountFits,
    List.length_replicate] using hn

theorem zeroLongs_handled : (zeroLongs n).Handled := by
  simp [zeroLongs, LogVal.Handled, LogVal.Everywhere, LogVal.TypHandled]

theorem zeroLongs_not_dataFits (hn : 2 ^ 31 <= n * 8) : ¬ (zeroLongs n).DataFits := by
  have hwidth : (LogElem.elem .long).width = 8 := rfl
  simp only [zeroLongs, LogVal.DataFits, LogVal.Everywhere, LogVal.ElemsFit,
    List.length_replicate, hwidth]
  omega

theorem zeroLongs_named (hn : n < 2 ^ 31) (hbig : 2 ^ 31 <= n * 8) (val : NulText) :
    (LogVal.list 0 [zeroLongs n, .symbolAtom val]).WellFormed ∧
      (LogVal.list 0 [zeroLongs n, .symbolAtom val]).Handled ∧
      LogVal.NamesTable [val] [zeroLongs n, .symbolAtom val] ∧
      ¬ NotesRelevance [val] 0 [zeroLongs n, .symbolAtom val] [] := by
  have hwf : (LogVal.list 0 [zeroLongs n, .symbolAtom val]).WellFormed :=
    ⟨show 2 < 2 ^ 31 by decide, zeroLongs_wellFormed hn, trivial, trivial⟩
  refine ⟨hwf, ⟨trivial, zeroLongs_handled, trivial, trivial⟩,
    ⟨_, rfl, val, rfl, List.mem_singleton_self _⟩, not_notesRelevance hwf ?_ []⟩
  rintro ⟨_, hfits, _⟩
  exact zeroLongs_not_dataFits hbig hfits

end ZeroLongs

/-- 2^28 longs, of which the size in bytes is no `int`, before the name of a table. -/
theorem mgChkMsg_relevant_overflow :
    (LogVal.list 0 [zeroLongs (2 ^ 28), .symbolAtom ⟨[116], nulFree_tblName⟩]).WellFormed ∧
      (LogVal.list 0 [zeroLongs (2 ^ 28), .symbolAtom ⟨[116], nulFree_tblName⟩]).Handled ∧
      LogVal.NamesTable [⟨[116], nulFree_tblName⟩]
        [zeroLongs (2 ^ 28), .symbolAtom ⟨[116], nulFree_tblName⟩] ∧
      ¬ NotesRelevance [⟨[116], nulFree_tblName⟩] 0
        [zeroLongs (2 ^ 28), .symbolAtom ⟨[116], nulFree_tblName⟩] [] :=
  zeroLongs_named (by decide) (by decide) _

end MgKdb
