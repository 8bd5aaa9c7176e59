import MgKdb.Tpmux.Connect
import MgKdb.Tpmux.RecvTcpMsgs
import MgKdb.Wire.Format

/-!
# The answer to a subscription

`kdb_subscribe_and_replay` takes the number of messages and the path of the journal
from the answer to `.u.sub`, which is any K value that the other side likes to send.
An access to an element or a character that is not there ends the checks, and so does a
warning that cannot be printed.
-/

namespace MgKdb

inductive ResponseEnd where
  | rejected (err : ErrnoMsg)
  /-- The journal at the path is opened, to be read up to a number of messages. -/
  | opens (msg_count : Int) (src_path : List UInt8)
  /-- An element is asked for that the list, or the table of a formatter, does not have. -/
  | badIndex
  /-- An object is not of the class that it is taken for. -/
  | badCast
  /-- `std::string::at` has thrown, or a formatter. -/
  | threw
  /-- The path would start outside the symbol, or a null pointer is printed. -/
  | badPointer
  deriving DecidableEq, Repr

def badStructure : ResponseEnd :=
  .rejected ⟨0, "Bad repsonse struture"⟩

def typeAt (vals : List KdbBase) (idx : Nat) : Option KdbType :=
  vals[idx]?.map KdbBase.typ

/-- `find_first_not_of(":")`; `none` is `npos`, the greatest `size_t`. -/
def findFirstNotOf (val : List UInt8) : Option Nat :=
  val.findIdx? (fun c => c != 58)

/-- The offset of the path behind the leading colons, and the path up to its end. -/
def openPath (msg_count : Int) (path : List UInt8) : ResponseEnd :=
  match path[0]? with
  | none => .threw
  | some c =>
      match if c = 58 ∧ 1 < path.length then findFirstNotOf path else some 0 with
      | none => .badPointer
      | some pth_off =>
          .opens msg_count ((path.drop pth_off).takeWhile (fun c => c != 0))

def checkCount (vals : List KdbBase) (counts : TpMsgCounts) : ResponseEnd :=
  match vals[0]?, vals[1]? with
  | some (KdbBase.atom .long msg_count), some (KdbBase.symbolAtom path) =>
      if msg_count.toInt < 0 then
        .rejected ⟨0, "illegal .u.i value upon subscription"⟩
      else if msg_count.toInt < counts.numMsgTotal.toNat then
        .rejected
          ⟨0, "fewer messages in src-journal than we have apparently alread read"⟩
      else openPath msg_count.toInt path
  | _, _ => .badCast

/-- The checks of the elements; the number of elements comes second. -/
def checkList (vals : List KdbBase) (counts : TpMsgCounts) : ResponseEnd :=
  match typeAt vals 0 with
  | none => .badIndex
  | some typ0 =>
      if typ0 ≠ .longAtom then badStructure
      else if vals.length ≠ 3 then badStructure
      else
        match typeAt vals 1, typeAt vals 2 with
        | some typ1, some typ2 =>
            if typ1 ≠ .symbolAtom then badStructure
            else if typ2 ≠ .list then badStructure
            else checkCount vals counts
        | _, _ => .badIndex

/-- The warning about an answer that is no list shows the whole answer. -/
def notList (sub : KdbBase) : ResponseEnd :=
  match sub.format with
  | .ok _ => badStructure
  | .error .threw => .threw
  | .error .badIndex => .badIndex
  | .error .badPointer => .badPointer

def checkResponse (msg_typ : KdbMsgType) (sub : KdbBase) (counts : TpMsgCounts) :
    ResponseEnd :=
  if msg_typ ≠ .response then badStructure
  else
    match sub with
    | .list _ _ vals => checkList vals counts
    | sub => notList sub

def ResponseEnd.Regular : ResponseEnd -> Prop
  | .rejected _ => True
  | .opens _ _ => True
  | .badIndex => False
  | .badCast => False
  | .threw => False
  | .badPointer => False

/-- The answer passes every check and names the journal at `path`. -/
def NamesJournal (counts : TpMsgCounts) (sub : KdbBase) (path : List UInt8) : Prop :=
  exists cap attr msg_count third,
    sub = .list cap attr [.atom .long msg_count, .symbolAtom path, third] ∧
      third.typ = .list ∧ (counts.numMsgTotal.toNat : Int) <= msg_count.toInt

/-!
## The path
-/

theorem findFirstNotOf_eq_none {val : List UInt8} :
    findFirstNotOf val = none <-> forall c, c ∈ val -> c = 58 := by
  simp [findFirstNotOf, List.findIdx?_eq_none_iff]

theorem openPath_regular (msg_count : Int) (path : List UInt8) :
    (openPath msg_count path).Regular <->
      path ≠ [] ∧ (path.length <= 1 ∨ exists c, c ∈ path ∧ c ≠ 58) := by
  cases path with
  | nil => simp [openPath, ResponseEnd.Regular]
  | cons c path =>
      rw [openPath]
      simp only [List.getElem?_cons_zero]
      by_cases hcolon : c = 58 ∧ 1 < (c :: path).length
      · rw [if_pos hcolon]
        rcases hfind : findFirstNotOf (c :: path) with _ | pth_off
        · have hall := findFirstNotOf_eq_none.mp hfind
          constructor
          · intro hbad
            exact hbad.elim
          · rintro ⟨_, hshort | ⟨d, hd, hne⟩⟩
            · exact absurd hcolon.right (Nat.not_lt.mpr hshort)
            · exact absurd (hall d hd) hne
        · refine ⟨fun _ => ⟨List.cons_ne_nil _ _, Or.inr ?_⟩, fun _ => trivial⟩
          by_contra hnone
          have hall : findFirstNotOf (c :: path) = none := by
            rw [findFirstNotOf_eq_none]
            intro d hd
            by_contra hne
            exact hnone ⟨d, hd, hne⟩
          rw [hall] at hfind
          cases hfind
      · rw [if_neg hcolon]
        refine ⟨fun _ => ⟨List.cons_ne_nil _ _, ?_⟩, fun _ => trivial⟩
        by_cases hc : c = 58
        · exact Or.inl (Nat.not_lt.mp (fun hlong => hcolon ⟨hc, hlong⟩))
        · exact Or.inr ⟨c, List.mem_cons_self, hc⟩

/-!
## The elements
-/

theorem eq_long_of_typ {o : KdbBase} (h : o.typ = .longAtom) :
    exists val, o = .atom .long val := by
  cases o with
  | atom e val =>
      have he : e = .long := Elem.atomTyp_injective h
      subst he
      exact ⟨val, rfl⟩
  | vector e cap attr vec =>
      exfalso
      cases e <;> cases h
  | primitive arity val =>
      exfalso
      cases arity <;> cases h
  | _ => cases h

theorem eq_symbol_of_typ {o : KdbBase} (h : o.typ = .symbolAtom) :
    exists val, o = .symbolAtom val := by
  cases o with
  | symbolAtom val => exact ⟨val, rfl⟩
  | atom e val =>
      exfalso
      cases e <;> cases h
  | vector e cap attr vec =>
      exfalso
      cases e <;> cases h
  | primitive arity val =>
      exfalso
      cases arity <;> cases h
  | _ => cases h

theorem checkList_cases (vals : List KdbBase) (counts : TpMsgCounts) :
    (vals = [] ∧ checkList vals counts = .badIndex) ∨
      (exists err, checkList vals counts = .rejected err) ∨
      exists msg_count path third,
        vals = [.atom .long msg_count, .symbolAtom path, third] ∧ third.typ = .list ∧
          (counts.numMsgTotal.toNat : Int) <= msg_count.toInt ∧
          checkList vals counts = openPath msg_count.toInt path := by
  cases vals with
  | nil => exact Or.inl ⟨rfl, rfl⟩
  | cons a rest =>
      rw [checkList]
      simp only [typeAt, List.getElem?_cons_zero, Option.map_some]
      by_cases ha : a.typ = .longAtom
      · rw [if_neg (not_not.mpr ha)]
        by_cases hcount : (a :: rest).length = 3
        · rw [if_neg (not_not.mpr hcount)]
          obtain ⟨b, c, rfl⟩ : exists b c, rest = [b, c] := by
            rw [List.length_cons, Nat.succ_inj, List.length_eq_two] at hcount
            exact hcount
          simp only [List.getElem?_cons_succ, List.getElem?_cons_zero, Option.map_some]
          by_cases hb : b.typ = .symbolAtom
          · rw [if_neg (not_not.mpr hb)]
            by_cases hc : c.typ = .list
            · rw [if_neg (not_not.mpr hc)]
              rcases eq_long_of_typ ha with ⟨msg_count, rfl⟩
              rcases eq_symbol_of_typ hb with ⟨path, rfl⟩
              simp only [checkCount, List.getElem?_cons_succ, List.getElem?_cons_zero]
              by_cases hneg : msg_count.toInt < 0
              · rw [if_pos hneg]
                exact Or.inr (Or.inl ⟨_, rfl⟩)
              · rw [if_neg hneg]
                by_cases hfew : msg_count.toInt < counts.numMsgTotal.toNat
                · rw [if_pos hfew]
                  exact Or.inr (Or.inl ⟨_, rfl⟩)
                · rw [if_neg hfew]
                  exact Or.inr (Or.inr
                    ⟨msg_count, path, c, rfl, hc, Int.not_lt.mp hfew, rfl⟩)
            · rw [if_pos hc]
              exact Or.inr (Or.inl ⟨_, rfl⟩)
          · rw [if_pos hb]
            exact Or.inr (Or.inl ⟨_, rfl⟩)
        · rw [if_pos hcount]
          exact Or.inr (Or.inl ⟨_, rfl⟩)
      · rw [if_pos ha]
        exact Or.inr (Or.inl ⟨_, rfl⟩)

theorem checkResponse_list_cases (cap : Nat) (attr : UInt8) (vals : List KdbBase)
    (counts : TpMsgCounts) :
    (vals = [] ∧ checkResponse .response (.list cap attr vals) counts = .badIndex) ∨
      (vals ≠ [] ∧ exists err,
        checkResponse .response (.list cap attr vals) counts = .rejected err) ∨
      exists msg_count path, NamesJournal counts (.list cap attr vals) path ∧
        checkResponse .response (.list cap attr vals) counts = openPath msg_count path := by
  have hcheck : checkResponse .response (.list cap attr vals) counts =
      checkList vals counts := rfl
  rw [hcheck]
  rcases checkList_cases vals counts with ⟨rfl, hend⟩ | ⟨err, hend⟩ |
      ⟨msg_count, path, third, rfl, hthird, hle, hend⟩
  · exact Or.inl ⟨rfl, hend⟩
  · refine Or.inr (Or.inl ⟨?_, err, hend⟩)
    rintro rfl
    cases hend
  · exact Or.inr (Or.inr ⟨_, path, ⟨cap, attr, msg_count, third, rfl, hthird, hle⟩, hend⟩)

theorem checkResponse_cases (sub : KdbBase) (counts : TpMsgCounts) :
    (exists cap attr vals, sub = .list cap attr vals) ∨
      checkResponse .response sub counts = notList sub := by
  cases sub with
  | list cap attr vals => exact Or.inl ⟨cap, attr, vals, rfl⟩
  | _ => exact Or.inr rfl

theorem checkResponse_notList {sub : KdbBase} (h : sub.typ ≠ .list) (counts : TpMsgCounts) :
    checkResponse .response sub counts = notList sub := by
  rcases checkResponse_cases sub counts with ⟨cap, attr, vals, rfl⟩ | hnot
  · exact absurd rfl h
  · exact hnot

theorem notList_regular (sub : KdbBase) :
    (notList sub).Regular <-> sub.format = .ok () := by
  unfold notList
  split
  · rename_i hformat
    exact iff_of_true trivial hformat
  all_goals
    rename_i hformat
    exact iff_of_false (fun hbad => hbad) (fun hok => by rw [hformat] at hok; cases hok)

theorem openPath_opens {msg_count n : Int} {path src_path : List UInt8}
    (h : openPath msg_count path = .opens n src_path) : n = msg_count := by
  rw [openPath] at h
  split at h
  · cases h
  · split at h
    · cases h
    · cases h
      rfl

theorem notList_not_opens (sub : KdbBase) (n : Int) (src_path : List UInt8) :
    notList sub ≠ .opens n src_path := by
  unfold notList
  split <;> (intro h; cases h)

/-- No journal is opened that has fewer messages than were dealt with. -/
theorem checkResponse_opens {sub : KdbBase} {counts : TpMsgCounts} {n : Int}
    {src_path : List UInt8} (h : checkResponse .response sub counts = .opens n src_path) :
    (counts.numMsgTotal.toNat : Int) <= n := by
  rcases checkResponse_cases sub counts with ⟨cap, attr, vals, rfl⟩ | hnot
  · change checkList vals counts = .opens n src_path at h
    rcases checkList_cases vals counts with ⟨_, hend⟩ | ⟨err, hend⟩ |
        ⟨msg_count, path, third, _, _, hle, hend⟩
    · cases hend.symm.trans h
    · cases hend.symm.trans h
    · rw [openPath_opens (hend.symm.trans h)]
      exact hle
  · exact absurd (hnot.symm.trans h) (notList_not_opens sub n src_path)

theorem NamesJournal.unique {counts : TpMsgCounts} {sub : KdbBase} {path path' : List UInt8}
    (h : NamesJournal counts sub path) (h' : NamesJournal counts sub path') : path = path' := by
  rcases h with ⟨cap, attr, msg_count, third, rfl, _, _⟩
  rcases h' with ⟨cap', attr', msg_count', third', heq, _, _⟩
  cases heq
  rfl

theorem NamesJournal.not_rejected {counts : TpMsgCounts} {sub : KdbBase} {path : List UInt8}
    (h : NamesJournal counts sub path) (err : ErrnoMsg) :
    checkResponse .response sub counts ≠ .rejected err := by
  rcases h with ⟨cap, attr, msg_count, third, rfl, hthird, hle⟩
  have hcheck : checkResponse .response
      (.list cap attr [.atom .long msg_count, .symbolAtom path, third]) counts =
        checkList [.atom .long msg_count, .symbolAtom path, third] counts := rfl
  have hopen : checkList [.atom .long msg_count, .symbolAtom path, third] counts =
      openPath msg_count.toInt path := by
    have hlong : (KdbBase.atom .long msg_count).typ = .longAtom := rfl
    have hsymbol : (KdbBase.symbolAtom path).typ = .symbolAtom := rfl
    rw [checkList]
    simp only [typeAt, List.getElem?_cons_zero, List.getElem?_cons_succ, Option.map_some]
    rw [if_neg (not_not.mpr hlong), if_neg (fun hcount => hcount rfl),
      if_neg (not_not.mpr hsymbol), if_neg (not_not.mpr hthird), checkCount]
    simp only [List.getElem?_cons_zero, List.getElem?_cons_succ]
    rw [if_neg (by omega), if_neg (by omega)]
  rw [hcheck, hopen, openPath]
  split
  · intro hend
    cases hend
  · split <;> (intro hend; cases hend)

theorem NamesJournal.typ {counts : TpMsgCounts} {sub : KdbBase} {path : List UInt8}
    (h : NamesJournal counts sub path) : sub.typ = .list := by
  rcases h with ⟨cap, attr, msg_count, third, rfl, _, _⟩
  rfl

theorem checkResponse_list_regular (cap : Nat) (attr : UInt8) (vals : List KdbBase)
    (counts : TpMsgCounts) :
    (checkResponse .response (.list cap attr vals) counts).Regular <->
      vals ≠ [] ∧ forall path, NamesJournal counts (.list cap attr vals) path ->
        path ≠ [] ∧ (path.length <= 1 ∨ exists c, c ∈ path ∧ c ≠ 58) := by
  rcases checkResponse_list_cases cap attr vals counts with ⟨rfl, hend⟩ |
      ⟨hne, err, hend⟩ | ⟨msg_count, path, hnames, hend⟩
  · rw [hend]
    exact ⟨fun hbad => hbad.elim, fun h => h.left rfl⟩
  · rw [hend]
    refine ⟨fun _ => ⟨hne, ?_⟩, fun _ => trivial⟩
    intro path hnames
    exact absurd hend (hnames.not_rejected err)
  · rw [hend, openPath_regular]
    constructor
    · intro hpath
      refine ⟨?_, ?_⟩
      · rintro rfl
        rcases hnames with ⟨cap', attr', n, third, heq, _⟩
        cases heq
      · intro path' hnames'
        rw [← hnames.unique hnames']
        exact hpath
    · intro h
      exact h.right path hnames

/--
The checks come to an error or to the opening of the journal exactly when the answer is
not an empty list, can be printed if it is no list, and the path, if all else is in order, is
neither empty nor made of several colons.
-/
theorem checkResponse_regular {v : KVal} {sub : KdbBase} (h : v.Holds sub)
    (counts : TpMsgCounts) :
    (checkResponse .response sub counts).Regular <->
      (forall attr, v ≠ .list attr []) ∧
        ((forall attr vals, v ≠ .list attr vals) -> v.Printable) ∧
        forall path, NamesJournal counts sub path ->
          path ≠ [] ∧ (path.length <= 1 ∨ exists c, c ∈ path ∧ c ≠ 58) := by
  by_cases hlist : exists attr vals, v = .list attr vals
  · rcases hlist with ⟨attr, vals, rfl⟩
    rw [KVal.Holds] at h
    rcases h with ⟨cap, os, rfl, hos⟩
    rw [checkResponse_list_regular]
    have hempty : os ≠ [] <-> forall attr', KVal.list attr vals ≠ .list attr' [] := by
      have hlength := KVal.holdsAll_length hos
      constructor
      · rintro hne attr' heq
        injection heq with _ hnil
        rw [hnil] at hlength
        exact hne (List.length_eq_zero_iff.mp hlength)
      · rintro hne rfl
        exact hne attr (congrArg _ (List.length_eq_zero_iff.mp hlength.symm))
    rw [hempty]
    refine and_congr_right fun _ => (and_iff_right ?_).symm
    exact fun hother => absurd rfl (hother attr vals)
  · have hother : forall attr vals, v ≠ .list attr vals :=
      fun attr vals heq => hlist ⟨attr, vals, heq⟩
    have htyp : sub.typ ≠ .list := KVal.typ_ne_list h hother
    rw [checkResponse_notList htyp, notList_regular, KVal.format_eq_ok v h]
    constructor
    · exact fun hprint => ⟨fun attr => hother attr [], fun _ => hprint,
        fun path hnames => absurd hnames.typ htyp⟩
    · exact fun hall => hall.right.left hother

/-- A character that is none cannot be printed. -/
theorem checkResponse_regular_char :
    ¬ (checkResponse .response (KVal.obj (.atom .char 128)) ⟨0, 0⟩).Regular := by
  intro hregular
  have hprint := ((checkResponse_regular (KVal.holds_obj (.atom .char 128)) ⟨0, 0⟩).mp
    hregular).right.left (by intro attr vals heq; cases heq)
  rw [KVal.Printable] at hprint
  exact absurd (hprint rfl) (by decide)

/-- The first element of an empty list is asked for. -/
theorem checkResponse_regular_empty :
    ¬ forall (v : KVal) (counts : TpMsgCounts),
      (checkResponse .response v.obj counts).Regular :=
  fun hclaim => hclaim (.list 0 []) ⟨0, 0⟩

/-- A path of two colons, and an empty one. -/
example : checkResponse .response (KVal.obj (.list 0 [.atom .long 0,
      .symbolAtom ⟨[58, 58], by decide⟩, .list 0 []])) ⟨0, 0⟩ = .badPointer ∧
    checkResponse .response (KVal.obj (.list 0 [.atom .long 0,
      .symbolAtom ⟨[], by decide⟩, .list 0 []])) ⟨0, 0⟩ = .threw :=
  ⟨rfl, rfl⟩

end MgKdb
