import Mathlib.Data.List.Nodup
import Mathlib.Data.UInt
import MgKdb.Foundation.Run

/-!
# The free list

A stack of slot numbers in an array.  The index of its top is a 32-bit number that wraps
around: `UINT32_MAX` stands for an empty stack, both in the list that has handed out
everything and in the one that was moved from.
-/

namespace MgKdb

open Foundation

def uint32Max : UInt32 := 0xFFFFFFFF

/-- `idcs` is the array, if there is one. -/
structure FreeList where
  cap : UInt32
  next : UInt32
  idcs : Option (List UInt32)
  deriving DecidableEq, Repr

namespace FreeList

def new : FreeList :=
  ⟨0, 0, none⟩

def movedFrom : FreeList :=
  ⟨0, uint32Max, none⟩

/-- The slots of a new list; the first one to be handed out is on top. -/
def slots (cap : UInt32) : List UInt32 :=
  (List.range cap.toNat).map (fun i => cap - 1 - UInt32.ofNat i)

/-- `canAlloc` is the heap: whether `new uint32_t[cap]` succeeds. -/
def alloc (canAlloc : Nat -> Bool) (list : FreeList) (cap : UInt32) : Int × FreeList :=
  if cap = 0 then (-1, list)
  else if canAlloc (4 * cap.toNat) = false then (-1, list)
  else (0, ⟨cap, cap - 1, some (slots cap)⟩)

def size (list : FreeList) : UInt32 :=
  list.cap - list.next - 1

/-- `none` is an access outside the array, or without one. -/
def release (list : FreeList) (idx : UInt32) : Option (UInt32 × FreeList) :=
  if list.next = list.cap then some (uint32Max, list)
  else
    let next := list.next + 1
    match list.idcs with
    | none => none
    | some arr =>
        if next.toNat < arr.length then
          some (0, { list with next := next, idcs := some (arr.set next.toNat idx) })
        else none

def nextSlot (list : FreeList) : Option (UInt32 × FreeList) :=
  if list.next = uint32Max then some (uint32Max, list)
  else
    match list.idcs with
    | none => none
    | some arr =>
        match arr[list.next.toNat]? with
        | none => none
        | some idx =>
            some (idx, { list with
              next := list.next - 1
              idcs := some (arr.set list.next.toNat uint32Max) })

def free (list : FreeList) : List UInt32 :=
  (list.idcs.getD []).take (list.next + 1).toNat

end FreeList

/-!
## Disciplined use
-/

inductive SlotOp where
  | nextSlot
  | release (idx : UInt32)
  deriving DecidableEq, Repr

structure Slots where
  list : FreeList
  held : List UInt32

namespace Slots

/-- The result of a call, unless it leaves the array, and the state behind it. -/
def react (s : Slots) : SlotOp -> Option UInt32 × Slots
  | .nextSlot =>
      match s.list.nextSlot with
      | none => (none, s)
      | some (idx, list) =>
          (some idx, ⟨list, if idx = uint32Max then s.held else idx :: s.held⟩)
  | .release idx =>
      match s.list.release idx with
      | none => (none, s)
      | some (res, list) =>
          (some res, ⟨list, if res = 0 then s.held.erase idx else s.held⟩)

def next (s : Slots) (op : SlotOp) : Slots :=
  (s.react op).2

def Disciplined (s : Slots) : SlotOp -> Prop
  | .nextSlot => True
  | .release idx => idx ∈ s.held

/-- Free and held slots are those of a list of the given capacity, each of them once. -/
structure Tidy (cap : UInt32) (s : Slots) : Prop where
  all : forall i : UInt32, i ∈ s.list.free ++ s.held <-> i < cap
  nodup : (s.list.free ++ s.held).Nodup
  size : s.list.size.toNat = s.held.length

def Answers (cap : UInt32) (s : Slots) : SlotOp -> Prop
  | .nextSlot => exists idx, (s.react .nextSlot).1 = some idx ∧
      (idx = uint32Max <-> s.held.length = cap.toNat) ∧ idx ∉ s.held
  | .release idx => (s.react (.release idx)).1 = some 0

/-- Everything is held of a list of the largest capacity, and a slot is given back. -/
def HitsLimit (cap : UInt32) (s : Slots) : SlotOp -> Prop
  | .nextSlot => False
  | .release _ => cap = uint32Max ∧ s.held.length = cap.toNat

/-!
## The stack
-/

structure Stacked (cap : UInt32) (s : Slots) (arr : List UInt32) : Prop where
  cap_pos : 0 < cap.toNat
  cap_eq : s.list.cap = cap
  idcs : s.list.idcs = some arr
  length : arr.length = cap.toNat
  depth : (s.list.next + 1).toNat + s.held.length = cap.toNat
  perm : (arr.take (s.list.next + 1).toNat ++ s.held).Perm (FreeList.slots cap)

theorem toNat_slot {cap : UInt32} {i : Nat} (hi : i < cap.toNat) :
    (cap - 1 - UInt32.ofNat i).toNat = cap.toNat - 1 - i := by
  have hcap := cap.toNat_lt
  have hone : (1 : UInt32).toNat = 1 := rfl
  have hnat : (UInt32.ofNat i).toNat = i := by
    rw [UInt32.toNat_ofNat']
    omega
  have htop : (cap - 1).toNat = cap.toNat - 1 :=
    UInt32.toNat_sub_of_le _ _ (UInt32.le_iff_toNat_le.mpr (by omega))
  rw [UInt32.toNat_sub_of_le _ _ (UInt32.le_iff_toNat_le.mpr (by omega)), htop, hnat]

theorem mem_slots {cap i : UInt32} : i ∈ FreeList.slots cap <-> i < cap := by
  rw [FreeList.slots, List.mem_map, UInt32.lt_iff_toNat_lt]
  constructor
  · rintro ⟨j, hj, rfl⟩
    rw [List.mem_range] at hj
    rw [toNat_slot hj]
    omega
  · intro hi
    refine ⟨cap.toNat - 1 - i.toNat, List.mem_range.mpr (by omega), ?_⟩
    apply UInt32.toNat_inj.mp
    rw [toNat_slot (by omega)]
    omega

theorem nodup_slots (cap : UInt32) : (FreeList.slots cap).Nodup := by
  refine List.Nodup.map_on ?_ List.nodup_range
  intro i hi j hj heq
  rw [List.mem_range] at hi hj
  have hnat := congrArg UInt32.toNat heq
  rw [toNat_slot hi, toNat_slot hj] at hnat
  omega

theorem length_slots (cap : UInt32) : (FreeList.slots cap).length = cap.toNat := by
  rw [FreeList.slots, List.length_map, List.length_range]

section Steps

variable {cap : UInt32} {s : Slots} {arr : List UInt32}

theorem Stacked.free (h : Stacked cap s arr) :
    s.list.free = arr.take (s.list.next + 1).toNat := by
  rw [FreeList.free, h.idcs, Option.getD_some]

theorem toNat_next {next : UInt32} (h : next ≠ uint32Max) :
    (next + 1).toNat = next.toNat + 1 := by
  have hlt := next.toNat_lt
  have hne : next.toNat ≠ 2 ^ 32 - 1 := fun heq => h (UInt32.toNat_inj.mp heq)
  have hone : (1 : UInt32).toNat = 1 := rfl
  rw [UInt32.toNat_add, hone]
  omega

theorem Stacked.tidy (h : Stacked cap s arr) : s.Tidy cap where
  all := by
    intro i
    rw [h.free, h.perm.mem_iff, mem_slots]
  nodup := by
    rw [h.free, h.perm.nodup_iff]
    exact nodup_slots cap
  size := by
    have hnext := h.depth
    have hcap := cap.toNat_lt
    have hfree : s.list.size = cap - (s.list.next + 1) := by
      rw [FreeList.size, h.cap_eq, sub_sub]
    rw [hfree, UInt32.toNat_sub_of_le _ _ (UInt32.le_iff_toNat_le.mpr (by omega))]
    omega

theorem Stacked.next_eq_max (h : Stacked cap s arr) :
    s.list.next = uint32Max <-> s.held.length = cap.toNat := by
  have hnext := h.depth
  constructor
  · intro hmax
    have hzero : (s.list.next + 1).toNat = 0 := by rw [hmax]; rfl
    omega
  · intro hall
    by_contra hmax
    have htop := toNat_next hmax
    omega

theorem Stacked.nextSlot (h : Stacked cap s arr) :
    Answers cap s .nextSlot ∧ exists arr', Stacked cap (s.next .nextSlot) arr' := by
  by_cases hmax : s.list.next = uint32Max
  · have hcall : s.list.nextSlot = some (uint32Max, s.list) := if_pos hmax
    have hreact : s.react .nextSlot = (some uint32Max, s) := by
      simp only [react, hcall, if_true]
    refine ⟨⟨uint32Max, by rw [hreact], ?_, ?_⟩, arr, ?_⟩
    · rw [← h.next_eq_max]
      exact ⟨fun _ => hmax, fun _ => rfl⟩
    · intro hmem
      have hlt := (h.tidy.all uint32Max).mp (List.mem_append_right _ hmem)
      have hcap := cap.toNat_lt
      rw [UInt32.lt_iff_toNat_lt] at hlt
      have htop : uint32Max.toNat = 2 ^ 32 - 1 := rfl
      omega
    · rw [Slots.next, hreact]
      exact h
  · have htop := toNat_next hmax
    have hdepth := h.depth
    have hlen := h.length
    have hlt : s.list.next.toNat < arr.length := by omega
    obtain ⟨idx, hidx⟩ : exists idx, idx = arr[s.list.next.toNat] := ⟨_, rfl⟩
    have hcall : s.list.nextSlot = some (idx, { s.list with
        next := s.list.next - 1
        idcs := some (arr.set s.list.next.toNat uint32Max) }) := by
      rw [FreeList.nextSlot, if_neg hmax, h.idcs, hidx]
      simp only [List.getElem?_eq_getElem hlt]
    have htake : arr.take (s.list.next + 1).toNat = arr.take s.list.next.toNat ++ [idx] := by
      rw [htop, List.take_succ_eq_append_getElem hlt, hidx]
    have hmem : idx ∈ s.list.free := by
      rw [h.free, htake]
      exact List.mem_append_right _ (List.mem_singleton_self idx)
    have hfresh : idx ∉ s.held :=
      fun hheld => (List.nodup_append.mp h.tidy.nodup).right.right idx hmem idx hheld rfl
    have hbelow := (h.tidy.all idx).mp (List.mem_append_left _ hmem)
    have hne : idx ≠ uint32Max := by
      intro heq
      rw [heq, UInt32.lt_iff_toNat_lt] at hbelow
      have hcap := cap.toNat_lt
      have hmaxNat : uint32Max.toNat = 2 ^ 32 - 1 := rfl
      omega
    have hreact : s.react .nextSlot = (some idx, ⟨{ s.list with
        next := s.list.next - 1
        idcs := some (arr.set s.list.next.toNat uint32Max) }, idx :: s.held⟩) := by
      simp only [react, hcall, if_neg hne]
    have hback : s.list.next - 1 + 1 = s.list.next := sub_add_cancel _ _
    refine ⟨⟨idx, by rw [hreact], ?_, hfresh⟩, arr.set s.list.next.toNat uint32Max, ?_⟩
    · rw [← h.next_eq_max]
      exact ⟨fun heq => absurd heq hne, fun heq => absurd heq hmax⟩
    · rw [Slots.next, hreact]
      refine ⟨h.cap_pos, h.cap_eq, rfl, by rw [List.length_set, hlen], ?_, ?_⟩
      · simp only [hback, List.length_cons]
        omega
      · simp only [hback, List.take_set_of_le (Nat.le_refl _)]
        refine List.Perm.trans ?_ h.perm
        rw [htake, List.append_assoc, List.singleton_append]

theorem Stacked.release (h : Stacked cap s arr) {idx : UInt32} (hheld : idx ∈ s.held) :
    (Answers cap s (.release idx) <-> ¬ HitsLimit cap s (.release idx)) ∧
      (¬ HitsLimit cap s (.release idx) ->
        exists arr', Stacked cap (s.next (.release idx)) arr') := by
  have hdepth := h.depth
  have hcapLt := cap.toNat_lt
  have hlen := h.length
  have hpos : 0 < s.held.length := List.length_pos_of_mem hheld
  by_cases hguard : s.list.next = s.list.cap
  · -- the stack is empty and its index is the largest capacity
    rw [h.cap_eq] at hguard
    have hmax : s.list.next = uint32Max := by
      by_contra hmax
      have htop := toNat_next hmax
      rw [hguard] at htop hdepth
      omega
    have hlimit : HitsLimit cap s (.release idx) :=
      ⟨hguard.symm.trans hmax, h.next_eq_max.mp hmax⟩
    have hcall : s.list.release idx = some (uint32Max, s.list) :=
      if_pos (hguard.trans h.cap_eq.symm)
    refine ⟨⟨fun hans => ?_, fun hno => absurd hlimit hno⟩, fun hno => absurd hlimit hno⟩
    rw [Answers, react, hcall] at hans
    exact absurd (Option.some.inj hans) (by decide)
  · have hlt : (s.list.next + 1).toNat < arr.length := by omega
    have hcall : s.list.release idx = some (0, { s.list with
        next := s.list.next + 1
        idcs := some (arr.set (s.list.next + 1).toNat idx) }) := by
      rw [FreeList.release, if_neg hguard, h.idcs]
      exact if_pos hlt
    have hreact : s.react (.release idx) = (some 0, ⟨{ s.list with
        next := s.list.next + 1
        idcs := some (arr.set (s.list.next + 1).toNat idx) }, s.held.erase idx⟩) := by
      simp only [react, hcall, if_true]
    have hno : ¬ HitsLimit cap s (.release idx) := by
      rintro ⟨hcap, hall⟩
      refine hguard ?_
      rw [h.cap_eq, hcap]
      exact h.next_eq_max.mpr hall
    refine ⟨⟨fun _ => hno, fun _ => by rw [Answers, hreact]⟩, fun _ =>
      ⟨arr.set (s.list.next + 1).toNat idx, ?_⟩⟩
    have hnext : (s.list.next + 1 + 1).toNat = (s.list.next + 1).toNat + 1 := by
      refine toNat_next (fun heq => ?_)
      rw [heq] at hlt
      have hmaxNat : uint32Max.toNat = 2 ^ 32 - 1 := rfl
      omega
    rw [Slots.next, hreact]
    refine ⟨h.cap_pos, h.cap_eq, rfl, by rw [List.length_set, hlen], ?_, ?_⟩
    · simp only [hnext, List.length_erase_of_mem hheld]
      omega
    · simp only [hnext]
      rw [List.take_succ_eq_append_getElem (by rw [List.length_set]; exact hlt),
        List.getElem_set_self, List.take_set_of_le (Nat.le_refl _), List.append_assoc,
        List.singleton_append]
      exact (List.Perm.append_left _ (List.perm_cons_erase hheld).symm).trans h.perm

theorem Stacked.length_nextSlot (h : Stacked cap s arr) (hroom : s.held.length < cap.toNat) :
    (s.next .nextSlot).held.length = s.held.length + 1 := by
  rcases h.nextSlot.left with ⟨idx, hidx, hmax, _⟩
  have hne : idx ≠ uint32Max := fun heq => absurd (hmax.mp heq) (by omega)
  rw [Slots.next]
  cases hcall : s.list.nextSlot with
  | none =>
      simp only [react, hcall] at hidx
      cases hidx
  | some out =>
      simp only [react, hcall, Option.some.injEq] at hidx ⊢
      rw [hidx, if_neg hne, List.length_cons]

end Steps

/-!
## Runs
-/

def Sound (cap : UInt32) (s : Slots) (op : SlotOp) : Prop :=
  s.Tidy cap ∧ Answers cap s op ∧ (s.next op).Tidy cap

def SoundRun (cap : UInt32) (s : Slots) (ops : List SlotOp) : Prop :=
  s.Tidy cap ∧ Along Slots.next (Sound cap) s ops

theorem alloc_eq_zero {canAlloc : Nat -> Bool} {list list' : FreeList} {cap : UInt32}
    (h : FreeList.alloc canAlloc list cap = (0, list')) :
    cap ≠ 0 ∧ list' = ⟨cap, cap - 1, some (FreeList.slots cap)⟩ := by
  rw [FreeList.alloc] at h
  split at h
  · cases h
  · rename_i hcap
    split at h
    · cases h
    · cases h
      exact ⟨hcap, rfl⟩

theorem stacked_alloc {cap : UInt32} (hcap : cap ≠ 0) :
    Stacked cap ⟨⟨cap, cap - 1, some (FreeList.slots cap)⟩, []⟩ (FreeList.slots cap) := by
  have hback : cap - 1 + 1 = cap := sub_add_cancel _ _
  have hpos : cap.toNat ≠ 0 := fun hzero => hcap (UInt32.toNat_inj.mp hzero)
  refine ⟨by omega, rfl, rfl, length_slots cap, ?_, ?_⟩
  · simp only [hback, List.length_nil, Nat.add_zero]
  · simp only [hback, List.append_nil]
    rw [List.take_of_length_le (Nat.le_of_eq (length_slots cap))]

theorem sound_iff {cap : UInt32} {s : Slots} {op : SlotOp} (hs : exists arr, Stacked cap s arr)
    (hop : s.Disciplined op) :
    (Sound cap s op <-> ¬ HitsLimit cap s op) ∧
      (¬ HitsLimit cap s op -> exists arr, Stacked cap (s.next op) arr) := by
  rcases hs with ⟨arr, h⟩
  cases op with
  | nextSlot =>
      rcases h.nextSlot with ⟨hans, arr', hnext⟩
      exact ⟨⟨fun _ hno => hno, fun _ => ⟨h.tidy, hans, hnext.tidy⟩⟩, fun _ => ⟨arr', hnext⟩⟩
  | release idx =>
      rcases h.release hop with ⟨hiff, hnext⟩
      refine ⟨⟨fun hsound => hiff.mp hsound.right.left, fun hno => ?_⟩, hnext⟩
      rcases hnext hno with ⟨arr', hstacked⟩
      exact ⟨h.tidy, hiff.mpr hno, hstacked.tidy⟩

/--
A list is sound under disciplined use exactly as long as no slot of a list of the largest
capacity is given back when all of them are held.
-/
theorem freeList_soundRun {canAlloc : Nat -> Bool} {list list' : FreeList} {cap : UInt32}
    (halloc : FreeList.alloc canAlloc list cap = (0, list')) (ops : List SlotOp)
    (hops : Along Slots.next Disciplined ⟨list', []⟩ ops) :
    SoundRun cap ⟨list', []⟩ ops <->
      Along Slots.next (fun s op => ¬ HitsLimit cap s op) ⟨list', []⟩ ops := by
  rcases alloc_eq_zero halloc with ⟨hcap, rfl⟩
  have hstart := stacked_alloc hcap
  have hrun := along_iff_of_asked (fun s => exists arr, Stacked cap s arr)
    (fun s op hs hop => (sound_iff hs hop).left) (fun s op hs hop => (sound_iff hs hop).right)
    ops _ ⟨_, hstart⟩ hops
  exact ⟨fun h => hrun.mp h.right, fun h => ⟨hstart.tidy, hrun.mpr h⟩⟩

/-- Two slots, given back in the order of the test of the repository. -/
theorem freeList_soundRun_two :
    SoundRun 2 ⟨⟨2, 1, some [1, 0]⟩, []⟩
      [.nextSlot, .nextSlot, .nextSlot, .release 1, .nextSlot, .release 0, .release 1] :=
  (freeList_soundRun (show FreeList.alloc (fun _ => true) .new 2 =
      (0, ⟨2, 1, some [1, 0]⟩) from rfl) _
    (by
      refine ⟨trivial, trivial, trivial, ?_, trivial, ?_, ?_, trivial⟩
      all_goals
        rw [Disciplined]
        decide)).mpr
    (by
      refine ⟨id, id, id, ?_, id, ?_, ?_, trivial⟩
      all_goals exact fun h => absurd h.left (by decide))

theorem stacked_nextSlots {cap : UInt32} (n : Nat) :
    forall s : Slots, (exists arr, Stacked cap s arr) -> s.held.length + n <= cap.toNat ->
      Along Slots.next Disciplined s (List.replicate n .nextSlot) ∧
        exists s' arr, (List.replicate n .nextSlot).foldl Slots.next s = s' ∧
          Stacked cap s' arr ∧ s'.held.length = s.held.length + n := by
  induction n with
  | zero => exact fun s ⟨arr, h⟩ _ => ⟨trivial, s, arr, rfl, h, rfl⟩
  | succ n ih =>
      rintro s ⟨arr, h⟩ hroom
      have hlen := h.length_nextSlot (by omega)
      rcases ih _ h.nextSlot.right (by omega) with ⟨halong, s', arr', hfold, hstacked, hheld⟩
      exact ⟨⟨trivial, halong⟩, s', arr', hfold, hstacked, by omega⟩

/-- All slots of the longest list are handed out, and the first one is given back. -/
theorem freeList_soundRun_limit :
    exists list', FreeList.alloc (fun _ => true) .new uint32Max = (0, list') ∧
      Along Slots.next Disciplined ⟨list', []⟩
        (List.replicate (2 ^ 32 - 1) .nextSlot ++ [.release 0]) ∧
      ¬ SoundRun uint32Max ⟨list', []⟩
        (List.replicate (2 ^ 32 - 1) .nextSlot ++ [.release 0]) := by
  have hmax : uint32Max.toNat = 2 ^ 32 - 1 := rfl
  have hne : uint32Max ≠ 0 := by decide
  have hstart := stacked_alloc hne
  refine ⟨_, rfl, ?_⟩
  rcases stacked_nextSlots (2 ^ 32 - 1) _ ⟨_, hstart⟩ (by rw [hmax]; simp) with
    ⟨halong, s', arr', hfold, hstacked, hheld⟩
  have hall : s'.held.length = uint32Max.toNat := by
    rw [hheld, hmax]
    exact Nat.zero_add _
  have hmem : 0 ∈ s'.held := by
    have hdepth := hstacked.depth
    have hzero := (hstacked.tidy.all 0).mpr (by decide)
    rw [hstacked.free, show (s'.list.next + 1).toNat = 0 by omega, List.take_zero,
      List.nil_append] at hzero
    exact hzero
  rw [SoundRun, along_append, along_append, hfold]
  refine ⟨⟨halong, hmem, trivial⟩, ?_⟩
  rintro ⟨_, _, hsound, _⟩
  have hasked : s'.Disciplined (.release 0) := hmem
  exact (sound_iff ⟨arr', hstacked⟩ hasked).left.mp hsound ⟨rfl, hall⟩

end Slots

/-!
## Any use

Lists are allocated, moved and misused in any order.
-/

inductive ListOp where
  /-- `ok` says whether the heap has room. -/
  | alloc (i : Nat) (cap : UInt32) (ok : Bool)
  | nextSlot (i : Nat)
  | release (i : Nat) (idx : UInt32)
  | move (dst src : Nat)
  deriving DecidableEq, Repr

/-- The lists of a program; those that it does not use yet are default-constructed. -/
abbrev Lists := Nat -> FreeList

namespace Lists

def start : Lists :=
  fun _ => FreeList.new

def next (ls : Lists) : ListOp -> Lists
  | .alloc i cap ok => Function.update ls i (FreeList.alloc (fun _ => ok) (ls i) cap).2
  | .nextSlot i =>
      match (ls i).nextSlot with
      | none => ls
      | some out => Function.update ls i out.2
  | .release i idx =>
      match (ls i).release idx with
      | none => ls
      | some out => Function.update ls i out.2
  | .move dst src => Function.update (Function.update ls dst (ls src)) src FreeList.movedFrom

end Lists

namespace FreeList

def NoneHeld (list : FreeList) : Prop :=
  list.idcs = none ∨ list.size = 0

def NoneFree (list : FreeList) : Prop :=
  list.idcs = none ∨ list.size = list.cap

end FreeList

namespace Lists

/-- The call stays in the array, and is refused where there is nothing to take or give. -/
def StaysIn (ls : Lists) : ListOp -> Prop
  | .nextSlot i => exists out, (ls i).nextSlot = some out ∧
      ((ls i).NoneFree -> out.1 = uint32Max)
  | .release i idx => exists out, (ls i).release idx = some out ∧
      ((ls i).NoneHeld -> out = (uint32Max, ls i))
  | .alloc _ _ _ | .move _ _ => True

/--
No slot is asked for of a list that was only default-constructed, and none is given back to
another list that has handed out none.
-/
def Careful (ls : Lists) : ListOp -> Prop
  | .nextSlot i => ls i ≠ FreeList.new
  | .release i _ => ls i = FreeList.new ∨ ¬ (ls i).NoneHeld
  | .alloc _ _ _ | .move _ _ => True

end Lists

inductive FreeList.Shape : FreeList -> Prop where
  | new : Shape FreeList.new
  | movedFrom : Shape FreeList.movedFrom
  | allocated (cap next : UInt32) (arr : List UInt32) (hlen : arr.length = cap.toNat)
      (hcap : cap ≠ 0) (hnext : next = uint32Max ∨ next < cap) :
      Shape ⟨cap, next, some arr⟩

namespace FreeList

section Allocated

variable {cap next : UInt32} {arr : List UInt32}

theorem noneHeld_iff : NoneHeld ⟨cap, next, some arr⟩ <-> next + 1 = cap := by
  rw [NoneHeld, size, sub_sub, sub_eq_zero]
  exact ⟨fun h => h.elim (fun h => by cases h) Eq.symm, fun h => Or.inr h.symm⟩

theorem noneFree_iff : NoneFree ⟨cap, next, some arr⟩ <-> next = uint32Max := by
  rw [NoneFree, size, sub_sub, sub_eq_self]
  constructor
  · rintro (h | h)
    · cases h
    · exact eq_sub_of_add_eq h
  · rintro rfl
    exact Or.inr (show uint32Max + 1 = 0 by decide)

end Allocated

theorem Shape.nextSlot_iff {list : FreeList} (h : list.Shape) :
    ((exists out, list.nextSlot = some out ∧ (list.NoneFree -> out.1 = uint32Max)) <->
        list ≠ FreeList.new) ∧
      (forall out, list.nextSlot = some out -> out.2.Shape) := by
  cases h with
  | new =>
      have hcall : FreeList.new.nextSlot = none := rfl
      rw [hcall]
      refine ⟨⟨?_, fun hne => absurd rfl hne⟩, fun out hout => by cases hout⟩
      rintro ⟨out, hout, _⟩
      cases hout
  | movedFrom =>
      have hcall : FreeList.movedFrom.nextSlot = some (uint32Max, FreeList.movedFrom) := rfl
      rw [hcall]
      refine ⟨⟨fun _ => by decide, fun _ => ⟨_, rfl, fun _ => rfl⟩⟩, ?_⟩
      rintro out hout
      cases hout
      exact .movedFrom
  | allocated cap next arr hlen hcap hnext =>
      have hne : (⟨cap, next, some arr⟩ : FreeList) ≠ FreeList.new := by
        intro heq
        cases heq
      rw [noneFree_iff]
      by_cases hmax : next = uint32Max
      · have hcall : nextSlot ⟨cap, next, some arr⟩ = some (uint32Max, ⟨cap, next, some arr⟩) :=
          if_pos hmax
        rw [hcall]
        refine ⟨⟨fun _ => hne, fun _ => ⟨_, rfl, fun _ => rfl⟩⟩, ?_⟩
        rintro out hout
        cases hout
        exact .allocated cap next arr hlen hcap hnext
      · have hlt : next.toNat < arr.length := by
          rw [hlen, ← UInt32.lt_iff_toNat_lt]
          exact hnext.resolve_left hmax
        have hcall : nextSlot ⟨cap, next, some arr⟩ = some (arr[next.toNat],
            ⟨cap, next - 1, some (arr.set next.toNat uint32Max)⟩) := by
          rw [nextSlot, if_neg hmax]
          simp only [List.getElem?_eq_getElem hlt]
        rw [hcall]
        refine ⟨⟨fun _ => hne, fun _ => ⟨_, rfl, fun heq => absurd heq hmax⟩⟩, ?_⟩
        rintro out hout
        cases hout
        refine .allocated cap _ _ (by rw [List.length_set, hlen]) hcap ?_
        by_cases hzero : next = 0
        · rw [hzero]
          exact Or.inl (by decide)
        · right
          have hone : (1 : UInt32).toNat = 1 := rfl
          have hpos : next.toNat ≠ 0 := fun heq => hzero (UInt32.toNat_inj.mp heq)
          rw [UInt32.lt_iff_toNat_lt, UInt32.toNat_sub_of_le _ _
            (UInt32.le_iff_toNat_le.mpr (by omega))]
          omega

theorem Shape.release_iff {list : FreeList} (h : list.Shape) (idx : UInt32) :
    ((exists out, list.release idx = some out ∧
        (list.NoneHeld -> out = (uint32Max, list))) <->
        (list = FreeList.new ∨ ¬ list.NoneHeld)) ∧
      (forall out, list.release idx = some out -> out.2.Shape) := by
  cases h with
  | new =>
      have hcall : FreeList.new.release idx = some (uint32Max, FreeList.new) := rfl
      rw [hcall]
      refine ⟨⟨fun _ => Or.inl rfl, fun _ => ⟨_, rfl, fun _ => rfl⟩⟩, ?_⟩
      rintro out hout
      cases hout
      exact .new
  | movedFrom =>
      have hcall : FreeList.movedFrom.release idx = none := rfl
      rw [hcall]
      refine ⟨⟨?_, ?_⟩, fun out hout => by cases hout⟩
      · rintro ⟨out, hout, _⟩
        cases hout
      · rintro (hnew | hheld)
        · cases hnew
        · exact absurd (Or.inl rfl) hheld
  | allocated cap next arr hlen hcap hnext =>
      have hne : (⟨cap, next, some arr⟩ : FreeList) ≠ FreeList.new := by
        intro heq
        cases heq
      rw [noneHeld_iff]
      have hcapLt := cap.toNat_lt
      have hpos : cap.toNat ≠ 0 := fun heq => hcap (UInt32.toNat_inj.mp heq)
      by_cases hguard : next = cap
      · have hcall : release ⟨cap, next, some arr⟩ idx =
            some (uint32Max, ⟨cap, next, some arr⟩) := if_pos hguard
        have hheld : ¬ next + 1 = cap := by
          intro heq
          rw [hguard, add_eq_left] at heq
          exact absurd heq (by decide)
        rw [hcall]
        refine ⟨⟨fun _ => Or.inr hheld, fun _ => ⟨_, rfl, fun _ => rfl⟩⟩, ?_⟩
        rintro out hout
        cases hout
        exact .allocated cap next arr hlen hcap hnext
      · by_cases hheld : next + 1 = cap
        · -- the index is that of the entry behind the last one
          have hcall : release ⟨cap, next, some arr⟩ idx = none := by
            rw [release, if_neg hguard]
            simp only
            rw [if_neg (by rw [hheld]; omega)]
          rw [hcall]
          refine ⟨⟨?_, ?_⟩, fun out hout => by cases hout⟩
          · rintro ⟨out, hout, _⟩
            cases hout
          · rintro (hnew | hno)
            · exact absurd hnew hne
            · exact absurd hheld hno
        · have hlt : (next + 1).toNat < arr.length := by
            by_cases hmax : next = uint32Max
            · rw [hmax, hlen]
              exact Nat.pos_of_ne_zero hpos
            · have hbelow := UInt32.lt_iff_toNat_lt.mp (hnext.resolve_left hmax)
              have htop := Slots.toNat_next hmax
              have hdiffer : (next + 1).toNat ≠ cap.toNat :=
                fun heq => hheld (UInt32.toNat_inj.mp heq)
              omega
          have hcall : release ⟨cap, next, some arr⟩ idx = some (0,
              ⟨cap, next + 1, some (arr.set (next + 1).toNat idx)⟩) := by
            rw [release, if_neg hguard]
            exact if_pos hlt
          rw [hcall]
          refine ⟨⟨fun _ => Or.inr hheld, fun _ => ⟨_, rfl, fun heq => absurd heq hheld⟩⟩, ?_⟩
          rintro out hout
          cases hout
          refine .allocated cap _ _ (by rw [List.length_set, hlen]) hcap (Or.inr ?_)
          rw [UInt32.lt_iff_toNat_lt]
          omega

theorem Shape.alloc {list : FreeList} (h : list.Shape) (canAlloc : Nat -> Bool)
    (cap : UInt32) : (FreeList.alloc canAlloc list cap).2.Shape := by
  rw [FreeList.alloc]
  split
  · exact h
  · rename_i hcap
    split
    · exact h
    · refine .allocated cap _ _ (Slots.length_slots cap) hcap (Or.inr ?_)
      have hone : (1 : UInt32).toNat = 1 := rfl
      have hpos : cap.toNat ≠ 0 := fun heq => hcap (UInt32.toNat_inj.mp heq)
      rw [UInt32.lt_iff_toNat_lt, UInt32.toNat_sub_of_le _ _
        (UInt32.le_iff_toNat_le.mpr (by omega))]
      omega

end FreeList

namespace Lists

theorem shape_update {ls : Lists} (h : forall i, (ls i).Shape) (i : Nat) {list : FreeList}
    (hlist : list.Shape) : forall j, (Function.update ls i list j).Shape := by
  intro j
  by_cases hj : j = i
  · rw [hj, Function.update_self]
    exact hlist
  · rw [Function.update_of_ne hj]
    exact h j

theorem shape_next {ls : Lists} (h : forall i, (ls i).Shape) (op : ListOp) :
    forall i, (ls.next op i).Shape := by
  cases op with
  | alloc i cap ok => exact shape_update h i ((h i).alloc _ cap)
  | nextSlot i =>
      rw [next]
      cases hcall : (ls i).nextSlot with
      | none => exact h
      | some out => exact shape_update h i ((h i).nextSlot_iff.right out hcall)
  | release i idx =>
      rw [next]
      cases hcall : (ls i).release idx with
      | none => exact h
      | some out => exact shape_update h i (((h i).release_iff idx).right out hcall)
  | move dst src => exact shape_update (shape_update h dst (h src)) src .movedFrom

/--
No list leaves its array, and none hands out or takes back a slot that it has not, exactly
as long as the caller is careful.
-/
theorem freeList_staysIn (ops : List ListOp) :
    Along Lists.next StaysIn start ops <-> Along Lists.next Careful start ops := by
  refine along_iff (fun ls => forall i, (ls i).Shape) ?_ (fun ls op _ h _ => shape_next h op)
    start (fun _ => .new)
  intro ls op _ h
  cases op with
  | nextSlot i => exact (h i).nextSlot_iff.left
  | release i idx => exact ((h i).release_iff idx).left
  | alloc i cap ok => exact Iff.rfl
  | move dst src => exact Iff.rfl

/-- A slot too many is given back to a new list: the entry behind the last one is written. -/
theorem freeList_staysIn_excess :
    ¬ Along Lists.next StaysIn start [.alloc 0 4 true, .release 0 0] := by
  rintro ⟨_, ⟨out, hout, _⟩, _⟩
  have hnone : (Lists.next start (.alloc 0 4 true) 0).release 0 = none := by decide
  rw [hnone] at hout
  cases hout

/-- Taking a slot of a list that was never allocated loads through a null pointer. -/
example : FreeList.new.nextSlot = none := rfl

/-- So does giving one back to a list that was moved from. -/
example : FreeList.movedFrom.release 0 = none := rfl

end Lists

end MgKdb
