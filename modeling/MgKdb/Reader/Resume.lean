import MgKdb.Reader.Buf

/-!
# Resumable reads

A reader resumes when a state that holds the first bytes of an encoding, shown
the bytes that follow, ends in a state that holds more of them, and in the
complete state as soon as the last byte is there.  The rules below build the
resumable readers of composite objects from those of their parts; the cursor
arithmetic is done here once.
-/

namespace MgKdb

/-- The outcome of a read: result code, the object or part, and the buffer. -/
abbrev ReadOut (α : Type) := ReadResult × α × ReadBuf

/--
What a resumed read may answer, when the state held `k` of `size`
bytes: completion, or a state with further progress.
-/
inductive Resumed {α : Type} (size : Nat) (final : α) (P : α -> Nat -> Prop)
    (k : Nat) (b : ReadBuf) : ReadOut α -> Prop
  | done (hle : size <= k + b.remaining) :
      Resumed size final P k b (.ok, final, b.advance k (size - k))
  | short (x : α) (k' : Nat) (hx : P x k') (hk : k <= k')
      (hk' : k' <= k + b.remaining) (hlt : k + b.remaining < size) :
      Resumed size final P k b (.incomplete, x, b.advance k (k' - k))

/--
`rd` reads an encoding resumably.  `P x k` says that the state
`x` holds `k` bytes; allocation leaves the state `init`, which
holds `new` bytes.
-/
structure Resumes {α : Type} (bytes : List UInt8) (init final : α)
    (P : α -> Nat -> Prop) (new : Nat) (rd : α -> ReadBuf -> ReadOut α) : Prop where
  fresh : P init new
  full : P final bytes.length
  new_le : forall {x k}, P x k -> new <= k
  le : forall {x k}, P x k -> k <= bytes.length
  resume : forall {x k m} {b : ReadBuf} {tail : List UInt8},
    P x k -> b.At k m new -> (m = 0 ∨ k = bytes.length) ->
    b.rest <+: bytes.drop k ++ tail ->
    Resumed bytes.length final P k b (rd x b)

/-!
## Progress of composite states
-/

def After {α : Type} (n : Nat) (P : α -> Nat -> Prop) : α -> Nat -> Prop :=
  fun x k => exists j, k = n + j ∧ P x j

def Image {α β : Type} (g : α -> β) (P : α -> Nat -> Prop) : β -> Nat -> Prop :=
  fun y k => exists x, y = g x ∧ P x k

def Whole {α : Type} (init final : α) (n : Nat) : α -> Nat -> Prop :=
  fun x k => (x = init ∧ k = 0) ∨ (x = final ∧ k = n)

def Slot {α : Type} (P : α -> Nat -> Prop) : Option α -> Nat -> Prop
  | none, k => k = 0
  | some x, k => P x k

/-- Progress of two parts, the second of which waits for the first. -/
def Pair {α β : Type} (P : α -> Nat -> Prop) (n : Nat) (final : α) (init : β)
    (Q : β -> Nat -> Prop) : α × β -> Nat -> Prop :=
  fun p k => (P p.1 k ∧ p.2 = init) ∨
    (exists j, k = n + j ∧ p.1 = final ∧ Q p.2 j)

def ReadOut.andThen {α β : Type} (out : ReadOut α) (y : β)
    (rd : β -> ReadBuf -> ReadOut β) : ReadOut (α × β) :=
  match out with
  | (.ok, x, b) => ((rd y b).1, (x, (rd y b).2.1), (rd y b).2.2)
  | (rr, x, b) => (rr, (x, y), b)

namespace ReadBuf

/-! More cursor arithmetic, for the rules. -/

theorem at_ffwd {b : ReadBuf} {k m : Nat} (h : b.At k m 0) :
    b.ffwd k = b.advance k 0 := by
  rcases h with hneg | ⟨hpos, hk, _hm⟩
  · by_cases hlt : b.csr < 0
    · rw [advance_of_neg hlt, adj_zero]
    · have hk : k = 0 := by omega
      rw [advance_of_nonneg (by omega), adj_zero, hk, ffwd_zero]
  · rw [advance_of_nonneg hpos, adj_zero, hk, ffwd_zero]

theorem advance_adj (b : ReadBuf) (k i j : Nat) :
    (b.advance k i).adj j = b.advance k (i + j) := by
  simp only [advance, adj, List.drop_drop, ReadBuf.mk.injEq, true_and]
  push_cast
  omega

theorem adj_advance_new {b : ReadBuf} (h : 0 <= b.csr) (n j : Nat) :
    (b.adj n).advance n j = b.advance 0 (n + j) := by
  rw [advance_of_nonneg h, advance_of_nonneg (by rw [adj_csr]; omega), adj_adj]

theorem at_advance {b : ReadBuf} {n k₁ k₂ m : Nat} (h : b.At (k₁ + k₂) m 0)
    (hstop : k₂ + m = 0 ∨ k₁ = n) :
    (b.advance k₁ (n - k₁)).At k₂ m 0 := by
  unfold At advance
  rcases h with hneg | ⟨hpos, hk, hm⟩
  · push_cast at hneg
    by_cases hlt : b.csr < 0
    · simp only [hlt, if_true]
      rcases hstop with hzero | hfull
      · right
        omega
      · left
        omega
    · simp only [hlt, if_false]
      rcases hstop with hzero | hfull
      · right
        omega
      · left
        omega
  · right
    simp only [Int.not_lt.mpr hpos, if_false]
    omega

theorem advance_advance {b : ReadBuf} {n k₁ k₂ m : Nat} (h : b.At (k₁ + k₂) m 0)
    (hstop : k₂ + m = 0 ∨ k₁ = n) (hle : k₁ <= n) (j : Nat) :
    (b.advance k₁ (n - k₁)).advance k₂ j =
      b.advance (k₁ + k₂) (n + (k₂ + j) - (k₁ + k₂)) := by
  have hsum : n + (k₂ + j) - (k₁ + k₂) = n - k₁ + j := by omega
  rw [hsum]
  unfold At at h
  simp only [advance, List.drop_drop, ReadBuf.mk.injEq, true_and]
  refine ⟨by omega, ?_⟩
  by_cases hlt : b.csr < 0
  · simp only [hlt, if_true]
    split <;> omega
  · simp only [hlt, if_false]
    rw [if_neg (by omega)]
    omega

end ReadBuf

namespace Resumed

variable {α : Type} {size : Nat} {final : α} {P : α -> Nat -> Prop} {b : ReadBuf}

theorem wait {x : α} (hx : P x 0) (hcsr : 0 <= b.csr) (hlt : b.remaining < size) :
    Resumed size final P 0 b (.incomplete, x, b) := by
  have hshort : Resumed size final P 0 b (.incomplete, x, b.advance 0 (0 - 0)) :=
    .short x 0 hx (Nat.le_refl _) (by omega) (by omega)
  rwa [ReadBuf.advance_of_nonneg hcsr, ReadBuf.adj_zero] at hshort

theorem pass : Resumed size final P size b (.ok, final, b.advance size 0) := by
  have hdone : Resumed size final P size b
      (.ok, final, b.advance size (size - size)) := .done (by omega)
  rwa [Nat.sub_self] at hdone

end Resumed

namespace Resumes

variable {α β : Type} {bytes : List UInt8} {init final : α}
  {P : α -> Nat -> Prop} {new : Nat} {rd : α -> ReadBuf -> ReadOut α}

theorem read_full (h : Resumes bytes init final P new rd) {m : Nat}
    {b : ReadBuf} (hat : b.At bytes.length m new) :
    rd final b = (.ok, final, b.advance bytes.length 0) := by
  have hpre : b.rest <+: bytes.drop bytes.length ++ b.rest := by
    rw [List.drop_length, List.nil_append]
  have hout := h.resume h.full hat (Or.inr rfl) hpre
  generalize rd final b = out at hout
  cases hout with
  | done hle => rw [Nat.sub_self]
  | short x k' hx hk hk' hlt => omega

theorem header (h : Resumes bytes init final P 0 rd) (hdr : List UInt8) {n : Nat}
    (hn : hdr.length = n) (hpos : 0 < n) :
    Resumes (hdr ++ bytes) init final (After n P) n
      (fun x b => rd x (b.skipHdr n)) where
  fresh := ⟨0, rfl, h.fresh⟩
  full := ⟨bytes.length, by rw [List.length_append, hn], h.full⟩
  new_le := by
    rintro x k ⟨j, rfl, _hx⟩
    omega
  le := by
    rintro x k ⟨j, rfl, hx⟩
    have hj := h.le hx
    rw [List.length_append]
    omega
  resume := by
    rintro x k m b tail ⟨j, rfl, hx⟩ hat hm hpre
    have hlen : (hdr ++ bytes).length = n + bytes.length := by
      rw [List.length_append, hn]
    rw [List.drop_append, List.drop_eq_nil_of_le (by omega), List.nil_append, hn,
      Nat.add_sub_cancel_left] at hpre
    have hout := h.resume hx (ReadBuf.at_skipHdr hat hpos)
      (hm.imp_right (by omega)) (by rw [ReadBuf.skipHdr_rest]; exact hpre)
    have hrem : (b.skipHdr n).remaining = b.remaining := by
      rw [ReadBuf.remaining, ReadBuf.skipHdr_rest, ReadBuf.remaining]
    have hj := h.le hx
    generalize rd x (b.skipHdr n) = out at hout
    rw [hlen]
    cases hout with
    | done hle =>
        rw [hrem] at hle
        rw [ReadBuf.skipHdr_advance hat hpos, ← Nat.add_sub_add_left n]
        exact .done (by omega)
    | short y j' hy hj' hrest hlt =>
        rw [hrem] at hrest hlt
        rw [ReadBuf.skipHdr_advance hat hpos, ← Nat.add_sub_add_left n]
        exact .short y (n + j') ⟨j', rfl, hy⟩ (by omega) (by omega)
          (by omega)

theorem map (h : Resumes bytes init final P new rd) {g : α -> β}
    {rd' : β -> ReadBuf -> ReadOut β}
    (hrd : forall x k b, P x k ->
      rd' (g x) b = ((rd x b).1, g (rd x b).2.1, (rd x b).2.2)) :
    Resumes bytes (g init) (g final) (Image g P) new rd' where
  fresh := ⟨init, rfl, h.fresh⟩
  full := ⟨final, rfl, h.full⟩
  new_le := by
    rintro y k ⟨x, rfl, hx⟩
    exact h.new_le hx
  le := by
    rintro y k ⟨x, rfl, hx⟩
    exact h.le hx
  resume := by
    rintro y k m b tail ⟨x, rfl, hx⟩ hat hm hpre
    rw [hrd x k b hx]
    have hout := h.resume hx hat hm hpre
    generalize rd x b = out at hout
    cases hout with
    | done hle => exact .done hle
    | short z k' hz hk hk' hlt => exact .short (g z) k' ⟨z, rfl, hz⟩ hk hk' hlt

theorem whole (hpos : 0 < bytes.length)
    (hskip : forall b : ReadBuf, b.csr < 0 ->
      rd final b = (.ok, final, b.ffwd bytes.length))
    (hread : forall (b : ReadBuf) (tail : List UInt8), 0 <= b.csr ->
      b.rest <+: bytes ++ tail ->
      rd init b =
        if bytes.length <= b.remaining then (.ok, final, b.adj bytes.length)
        else (.incomplete, init, b)) :
    Resumes bytes init final (Whole init final bytes.length) 0 rd where
  fresh := Or.inl ⟨rfl, rfl⟩
  full := Or.inr ⟨rfl, rfl⟩
  new_le := fun _ => Nat.zero_le _
  le := by
    rintro x k (⟨_, rfl⟩ | ⟨_, rfl⟩)
    · exact Nat.zero_le _
    · exact Nat.le_refl _
  resume := by
    rintro x k m b tail (⟨rfl, rfl⟩ | ⟨rfl, rfl⟩) hat hm hpre
    · have hcsr : 0 <= b.csr := by
        unfold ReadBuf.At at hat
        omega
      rw [List.drop_zero] at hpre
      rw [hread b tail hcsr hpre]
      by_cases hle : bytes.length <= b.remaining
      · rw [if_pos hle, ← ReadBuf.advance_of_nonneg hcsr 0]
        exact .done (by omega)
      · rw [if_neg hle]
        exact Resumed.wait (Or.inl ⟨rfl, rfl⟩) hcsr (by omega)
    · have hcsr : b.csr < 0 := by
        unfold ReadBuf.At at hat
        omega
      rw [hskip b hcsr, ReadBuf.at_ffwd (m := m)]
      · exact Resumed.pass
      · left
        unfold ReadBuf.At at hat
        omega

theorem slot (h : Resumes bytes init final P new rd) (hnew : 0 < new)
    {rs : Option α -> ReadBuf -> ReadOut (Option α)}
    (halloc : forall (b : ReadBuf) (tail : List UInt8), 0 <= b.csr ->
      b.rest <+: bytes ++ tail ->
      rs none b =
        if new <= b.remaining then
          ((rd init (b.adj new)).1, some (rd init (b.adj new)).2.1,
            (rd init (b.adj new)).2.2)
        else (.incomplete, none, b))
    (hheld : forall (x : α) (b : ReadBuf), b.csr < 0 ->
      rs (some x) b = ((rd x b).1, some (rd x b).2.1, (rd x b).2.2)) :
    Resumes bytes none (some final) (Slot P) 0 rs where
  fresh := rfl
  full := h.full
  new_le := fun _ => Nat.zero_le _
  le := by
    intro x k hx
    cases x with
    | none =>
        rw [show k = 0 from hx]
        exact Nat.zero_le _
    | some x => exact h.le (x := x) hx
  resume := by
    intro x k m b tail hx hat hm hpre
    have hsize : new <= bytes.length := h.le h.fresh
    cases x with
    | none =>
        have hk : k = 0 := hx
        subst hk
        have hcsr : 0 <= b.csr := by
          unfold ReadBuf.At at hat
          omega
        rw [List.drop_zero] at hpre
        rw [halloc b tail hcsr hpre]
        by_cases hle : new <= b.remaining
        · rw [if_pos hle]
          have hat' : (b.adj new).At new 0 new := by
            right
            rw [ReadBuf.adj_csr]
            omega
          have hpre' : (b.adj new).rest <+: bytes.drop new ++ tail := by
            rw [ReadBuf.adj_rest, ← List.drop_append_of_le_length hsize]
            exact hpre.drop new
          have hout := h.resume h.fresh hat' (Or.inl rfl) hpre'
          have hrem : (b.adj new).remaining = b.remaining - new := by
            simp [ReadBuf.remaining]
          generalize rd init (b.adj new) = out at hout
          cases hout with
          | done hdone =>
              rw [hrem] at hdone
              rw [ReadBuf.adj_advance_new hcsr, Nat.add_sub_cancel' hsize]
              exact .done (by omega)
          | short y k' hy hk hk' hlt =>
              rw [hrem] at hk' hlt
              rw [ReadBuf.adj_advance_new hcsr, Nat.add_sub_cancel' hk]
              exact .short (some y) k' hy (Nat.zero_le _) (by omega) (by omega)
        · rw [if_neg hle]
          exact Resumed.wait rfl hcsr (by omega)
    | some x =>
        have hk : new <= k := h.new_le (x := x) hx
        have hcsr : b.csr < 0 := by
          unfold ReadBuf.At at hat
          omega
        rw [hheld x b hcsr]
        have hat' : b.At k m new := by
          left
          unfold ReadBuf.At at hat
          omega
        have hout := h.resume (x := x) hx hat' hm hpre
        generalize rd x b = out at hout
        cases hout with
        | done hle => exact .done hle
        | short z k' hz hk hk' hlt => exact .short (some z) k' hz hk hk' hlt

section Pair

variable {bytes₂ : List UInt8} {init₂ final₂ : β} {Q : β -> Nat -> Prop}
  {rd₂ : β -> ReadBuf -> ReadOut β}

theorem pair_split (h : Resumes bytes init final P 0 rd)
    (h₂ : Resumes bytes₂ init₂ final₂ Q 0 rd₂) {p : α × β} {k m : Nat}
    (hp : Pair P bytes.length final init₂ Q p k)
    (hm : m = 0 ∨ k = (bytes ++ bytes₂).length) :
    exists k₁ k₂, k = k₁ + k₂ ∧ P p.1 k₁ ∧ Q p.2 k₂ ∧ k₁ <= bytes.length ∧
      k₂ <= bytes₂.length ∧ (k₂ + m = 0 ∨ k₁ = bytes.length) ∧
      (m = 0 ∨ k₂ = bytes₂.length) ∧ (k₁ < bytes.length -> p.2 = init₂ ∧ k₂ = 0) ∧
      (bytes ++ bytes₂).drop k = bytes.drop k₁ ++ bytes₂.drop k₂ := by
  rw [List.length_append] at hm
  rcases hp with ⟨hx, hy⟩ | ⟨j, rfl, hx, hy⟩
  · have hk := h.le hx
    refine ⟨k, 0, rfl, hx, by rw [hy]; exact h₂.fresh, hk, Nat.zero_le _, by omega,
      by omega, fun _ => ⟨hy, rfl⟩, ?_⟩
    rw [List.drop_zero, List.drop_append_of_le_length hk]
  · have hk₂ := h₂.le hy
    refine ⟨bytes.length, j, rfl, by rw [hx]; exact h.full, hy, Nat.le_refl _, hk₂,
      Or.inr rfl, by omega, fun hlt => absurd hlt (Nat.lt_irrefl _), ?_⟩
    rw [List.drop_append, List.drop_eq_nil_of_le (by omega), Nat.add_sub_cancel_left,
      List.drop_length]

theorem pair_at_first {b : ReadBuf} {k₁ k₂ m : Nat} (hat : b.At (k₁ + k₂) m 0) :
    b.At k₁ (k₂ + m) 0 := by
  unfold ReadBuf.At at hat ⊢
  push_cast at hat ⊢
  omega

theorem pair_second {b : ReadBuf} {k₁ k₂ : Nat} {tail : List UInt8}
    (hpre : b.rest <+: bytes.drop k₁ ++ (bytes₂.drop k₂ ++ tail)) :
    (b.advance k₁ (bytes.length - k₁)).rest <+: bytes₂.drop k₂ ++ tail ∧
      (b.advance k₁ (bytes.length - k₁)).remaining =
        b.remaining - (bytes.length - k₁) := by
  refine ⟨?_, by simp [ReadBuf.remaining]⟩
  have hd := hpre.drop (bytes.length - k₁)
  have hlen₁ : (bytes.drop k₁).length = bytes.length - k₁ :=
    List.length_drop
  rwa [← hlen₁, List.drop_left, hlen₁] at hd

theorem pair (h : Resumes bytes init final P 0 rd)
    (h₂ : Resumes bytes₂ init₂ final₂ Q 0 rd₂) :
    Resumes (bytes ++ bytes₂) (init, init₂) (final, final₂)
      (Pair P bytes.length final init₂ Q) 0
      (fun p b => (rd p.1 b).andThen p.2 rd₂) where
  fresh := Or.inl ⟨h.fresh, rfl⟩
  full := Or.inr ⟨bytes₂.length, List.length_append, rfl, h₂.full⟩
  new_le := fun _ => Nat.zero_le _
  le := by
    rintro ⟨x, y⟩ k (⟨hx, _⟩ | ⟨j, rfl, _, hy⟩)
    · have hk := h.le hx
      rw [List.length_append]
      omega
    · have hj := h₂.le hy
      rw [List.length_append]
      omega
  resume := by
    intro p k m b tail hp hat hm hpre
    rcases h.pair_split h₂ hp hm with
      ⟨k₁, k₂, rfl, hx, hy, hk₁, hk₂, hstop, hm₂, hwait, hdrop⟩
    have hlen : (bytes ++ bytes₂).length = bytes.length + bytes₂.length :=
      List.length_append
    rw [hdrop, List.append_assoc] at hpre
    have hout := h.resume hx (pair_at_first hat) (by omega) hpre
    rw [hlen]
    generalize rd p.1 b = out at hout
    cases hout with
    | short x' k' hx' hk hk' hlt =>
        rcases hwait (by omega) with ⟨hinit, hzero⟩
        rw [hzero, Nat.add_zero, ReadOut.andThen]
        · exact .short (x', p.2) k' (Or.inl ⟨hx', hinit⟩) hk hk' (by omega)
        · intro hok
          cases hok
    | done hle =>
        rcases pair_second hpre with ⟨hpre₂, hrem⟩
        have hout₂ := h₂.resume hy (ReadBuf.at_advance hat hstop) hm₂ hpre₂
        rw [ReadOut.andThen]
        generalize rd₂ p.2 (b.advance k₁ (bytes.length - k₁)) = out₂ at hout₂
        cases hout₂ with
        | done hle₂ =>
            rw [hrem] at hle₂
            rw [ReadBuf.advance_advance hat hstop hk₁, Nat.add_sub_cancel' hk₂]
            exact .done (by omega)
        | short y' k' hy' hk hk' hlt =>
            rw [hrem] at hk' hlt
            rw [ReadBuf.advance_advance hat hstop hk₁, Nat.add_sub_cancel' hk]
            exact .short (final, y') (bytes.length + k')
              (Or.inr ⟨k', rfl, rfl, hy'⟩) (by omega) (by omega) (by omega)

end Pair

end Resumes

end MgKdb
