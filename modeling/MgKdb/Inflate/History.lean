import MgKdb.Inflate.Chunks

/-!
# What the table remembers

A back-reference names two bytes by their hash.  The table `m_lbh` finds
them when they are the first byte of an item's output and the byte behind it:
the bytes inside a run are never entered.
-/

namespace MgKdb
namespace KdbIpcDecompressor

/-- The hash of the bytes at `i` and `i + 1`, when both were stored. -/
def pairHash (dst : List UInt8) (i : Nat) : Option UInt8 :=
  match dst[i]?, dst[i + 1]? with
  | some lhs, some rhs => some (lhs ^^^ rhs)
  | _, _ => none

theorem pairHash_eq_some {dst : List UInt8} {i : Nat} {h : UInt8} :
    pairHash dst i = some h <->
      exists lhs rhs, dst[i]? = some lhs ∧ dst[i + 1]? = some rhs ∧
        lhs ^^^ rhs = h := by
  unfold pairHash
  cases dst[i]? <;> cases dst[i + 1]? <;> simp

theorem pairHash_lt {dst : List UInt8} {i : Nat} {h : UInt8}
    (hpair : pairHash dst i = some h) : i + 1 < dst.length := by
  rcases pairHash_eq_some.mp hpair with ⟨_, rhs, _, hrhs, _⟩
  exact (List.getElem?_eq_some_iff.mp hrhs).choose

theorem pairHash_of_lt {dst : List UInt8} {i : Nat} (hi : i + 1 < dst.length) :
    exists h, pairHash dst i = some h := by
  refine ⟨dst[i] ^^^ dst[i + 1], pairHash_eq_some.mpr ⟨dst[i], dst[i + 1], ?_, ?_, rfl⟩⟩
  · exact List.getElem?_eq_getElem (by omega)
  · exact List.getElem?_eq_getElem hi

theorem pairHash_append {dst xs : List UInt8} {i : Nat} {h : UInt8}
    (hpair : pairHash dst i = some h) : pairHash (dst ++ xs) i = some h := by
  have hlt := pairHash_lt hpair
  unfold pairHash at hpair ⊢
  rwa [List.getElem?_append_left (by omega), List.getElem?_append_left hlt]

/-!
## Extending the table
-/

structure Enters (s : KdbIpcDecompressor) (n : Nat)
    (lbh : UInt8 -> Option Nat) : Prop where
  known : forall {h : UInt8} {old : Nat}, lbh h = some old ->
    s.lbh h = some old ∨
      (s.chx <= old ∧ old < s.chx + n ∧ pairHash s.dst old = some h)
  kept : forall {h : UInt8}, s.lbh h ≠ none -> lbh h ≠ none
  entered : forall {i : Nat} {h : UInt8}, s.chx <= i -> i < s.chx + n ->
    pairHash s.dst i = some h -> lbh h ≠ none

theorem Enters.congr {s t : KdbIpcDecompressor} {n : Nat} {lbh : UInt8 -> Option Nat}
    (henters : Enters s n lbh) (hlbh : t.lbh = s.lbh) (hchx : t.chx = s.chx)
    (hdst : t.dst = s.dst) : Enters t n lbh := by
  constructor
  · intro h old hold
    rw [hlbh, hchx, hdst]
    exact henters.known hold
  · intro h hset
    rw [hlbh] at hset
    exact henters.kept hset
  · intro i h hle hlt hpair
    rw [hchx] at hle hlt
    rw [hdst] at hpair
    exact henters.entered hle hlt hpair

theorem index_enters {n : Nat} :
    forall {s : KdbIpcDecompressor}, s.off <= 2 ^ 32 ->
      (0 < n -> s.chx + n < s.off) ->
      exists lbh, index n s = .ok { s with lbh := lbh, chx := s.chx + n } ∧
        Enters s n lbh := by
  induction n with
  | zero =>
      intro s _hsmall _hroom
      exact ⟨s.lbh, rfl, Or.inl, fun h => h, by omega⟩
  | succ n ih =>
      intro s hsmall hroom
      have hlt : s.chx + (n + 1) < s.off := hroom (Nat.succ_pos n)
      rcases @pairHash_of_lt s.dst s.chx (by unfold off at hlt; omega)
        with ⟨h0, hpair⟩
      rcases pairHash_eq_some.mp hpair with ⟨lhs, rhs, hlhs, hrhs, rfl⟩
      obtain ⟨s1, hs1⟩ : exists s1 : KdbIpcDecompressor, s1 = { s with
          lbh := fun h => if h = lhs ^^^ rhs then some (s.chx % 2 ^ 32) else s.lbh h
          chx := s.chx + 1 } := ⟨_, rfl⟩
      have hindex : index (n + 1) s = index n s1 := by
        rw [hs1, index, load_eq_ok.mpr hlhs, load_eq_ok.mpr hrhs]
        rfl
      have hmod : s.chx % 2 ^ 32 = s.chx := Nat.mod_eq_of_lt (by omega)
      have hoff : s1.off = s.off := by rw [hs1]; rfl
      have hchx : s1.chx = s.chx + 1 := by rw [hs1]
      have hdst : s1.dst = s.dst := by rw [hs1]
      have hlbh : forall h, s1.lbh h =
          if h = lhs ^^^ rhs then some s.chx else s.lbh h := by
        intro h
        rw [hs1, hmod]
      rcases ih (s := s1) (by omega) (by omega) with ⟨lbh, hrun, henters⟩
      have hkept : forall {h : UInt8}, s.lbh h ≠ none -> s1.lbh h ≠ none := by
        intro h hset
        rw [hlbh]
        split
        · simp
        · exact hset
      refine ⟨lbh, ?_, ?_, fun hset => henters.kept (hkept hset), ?_⟩
      · rw [hindex, hrun, hs1]
        simp only [Except.ok.injEq, KdbIpcDecompressor.mk.injEq, true_and, and_true]
        omega
      · intro h old hold
        rcases henters.known hold with hbefore | ⟨hle, hlt', hnew⟩
        · rw [hlbh] at hbefore
          by_cases hh : h = lhs ^^^ rhs
          · rw [if_pos hh, Option.some.injEq] at hbefore
            rw [← hbefore, hh]
            exact Or.inr ⟨Nat.le_refl _, by omega, hpair⟩
          · rw [if_neg hh] at hbefore
            exact Or.inl hbefore
        · rw [hdst] at hnew
          exact Or.inr ⟨by omega, by omega, hnew⟩
      · intro i h hle hlt' hi
        by_cases hfirst : i = s.chx
        · rw [hfirst, hpair, Option.some.injEq] at hi
          refine henters.kept ?_
          rw [hlbh, if_pos hi.symm]
          simp
        · exact henters.entered (by omega) (by omega) (hdst ▸ hi)

/-!
## The invariant

`starts` are the values of `m_off` at which the items of the message
began so far.
-/

structure History (starts : List Nat) (s : KdbIpcDecompressor) : Prop where
  size : s.off <= s.msgLen
  small : s.msgLen <= 2 ^ 32
  before : forall {i : Nat}, i ∈ starts -> i < s.off
  /-- `m_chx` is at the end, or at a last item of one byte. -/
  trailing : s.chx = s.off ∨ (s.chx + 1 = s.off ∧ s.chx ∈ starts)
  known : forall {h : UInt8} {old : Nat}, s.lbh h = some old ->
    old ∈ starts ∧ pairHash s.dst old = some h
  entered : forall {i : Nat}, i ∈ starts -> i < s.chx ->
    exists h, pairHash s.dst i = some h ∧ s.lbh h ≠ none

theorem new_history {ipc_len msg_len : Nat} (hsmall : u64 (msg_len - 8) <= 2 ^ 32) :
    History [] (new ipc_len msg_len) where
  size := Nat.zero_le _
  small := hsmall
  before := by
    intro i hi
    cases hi
  trailing := Or.inl rfl
  known := by
    intro h old hold
    cases hold
  entered := by
    intro i hi
    cases hi

theorem History.lbh_ne_none_iff {starts : List Nat} {s : KdbIpcDecompressor}
    (hist : History starts s) {h : UInt8} :
    s.lbh h ≠ none <-> exists i, i ∈ starts ∧ pairHash s.dst i = some h := by
  constructor
  · intro hset
    rcases Option.ne_none_iff_exists'.mp hset with ⟨old, hold⟩
    exact ⟨old, hist.known hold⟩
  · rintro ⟨i, hi, hpair⟩
    have hlt : i + 1 < s.off := pairHash_lt hpair
    have hchx : i < s.chx := by
      rcases hist.trailing with hend | ⟨hend, _⟩ <;> omega
    rcases hist.entered hi hchx with ⟨h', hpair', hset⟩
    rw [hpair, Option.some.injEq] at hpair'
    exact hpair' ▸ hset

/--
An item stores `xs` and enters the positions up to its own start, where
that is followed by a byte.
-/
theorem History.item {starts : List Nat} {s s' : KdbIpcDecompressor}
    {n : Nat} (hist : History starts s) (xs : List UInt8) (lbh : UInt8 -> Option Nat)
    (hsize : s.off + xs.length <= s.msgLen)
    (henters : Enters { s with dst := s.dst ++ xs } n lbh)
    (hn : (xs.length = 1 ∧ s.chx + n = s.off ∧ s'.chx = s.off) ∨
      (2 <= xs.length ∧ s.chx + n = s.off + 1 ∧ s'.chx = s.off + xs.length))
    (hmsg : s'.msgLen = s.msgLen) (hdst : s'.dst = s.dst ++ xs)
    (hlbh : s'.lbh = lbh) : History (starts ++ [s.off]) s' := by
  have hoff : s'.off = s.off + xs.length := by
    rw [off, hdst, List.length_append, off]
  have hchx : s.chx <= s.off := by
    rcases hist.trailing with hend | ⟨hend, _⟩ <;> omega
  -- what is entered are starts of items that have two bytes or more behind them
  have hstart : forall {i : Nat}, s.chx <= i -> i < s.chx + n ->
      i ∈ starts ++ [s.off] := by
    intro i hle hlt
    rw [List.mem_append, List.mem_singleton]
    by_cases hi : i = s.off
    · exact Or.inr hi
    · rcases hist.trailing with hend | ⟨hend, hmem⟩
      · omega
      · rw [show i = s.chx by omega]
        exact Or.inl hmem
  refine ⟨by omega, by have := hist.small; omega, ?_, ?_, ?_, ?_⟩
  · intro i hi
    rcases List.mem_append.mp hi with hold | hnew
    · have := hist.before hold
      omega
    · rw [List.mem_singleton.mp hnew]
      omega
  · rcases hn with ⟨hone, _, hend⟩ | ⟨_, _, hend⟩
    · exact Or.inr ⟨by omega, by simp [hend]⟩
    · exact Or.inl (by omega)
  · intro h old hold
    rw [hlbh] at hold
    rw [hdst]
    rcases henters.known hold with hbefore | ⟨hle, hlt, hpair⟩
    · rcases hist.known hbefore with ⟨hmem, hpair⟩
      exact ⟨List.mem_append_left _ hmem, pairHash_append hpair⟩
    · exact ⟨hstart hle hlt, hpair⟩
  · intro i hi hlt
    rw [hdst, hlbh]
    by_cases hentered : i < s.chx
    · have hmem : i ∈ starts := by
        rcases List.mem_append.mp hi with hold | hnew
        · exact hold
        · have := List.mem_singleton.mp hnew
          omega
      rcases hist.entered hmem hentered with ⟨h, hpair, hset⟩
      exact ⟨h, pairHash_append hpair, henters.kept hset⟩
    · have hnow : i < s.chx + n ∧ i + 1 < (s.dst ++ xs).length := by
        rw [List.length_append]
        have hbefore : i <= s.off := by
          rcases List.mem_append.mp hi with hold | hnew
          · exact Nat.le_of_lt (hist.before hold)
          · exact Nat.le_of_eq (List.mem_singleton.mp hnew)
        unfold off at *
        omega
      rcases pairHash_of_lt hnow.right with ⟨h, hpair⟩
      exact ⟨h, hpair, henters.entered (Nat.not_lt.mp hentered) hnow.left hpair⟩

end KdbIpcDecompressor
end MgKdb
