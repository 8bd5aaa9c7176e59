import MgKdb.Reader.Root

/-!
# Following any bytes

Whatever bytes a resumed reader is shown, it completes, it holds more of something that
bytes to come can complete, or it is stuck: it will fail in every later call in the same
place.  The rules build this for composite readers from their parts.
-/

namespace MgKdb

open Foundation

section Rules

variable {α β : Type}

/-- A read that fails and leaves the state and the buffer where they were. -/
def Halts (rd : α -> ReadBuf -> ReadOut α) (x : α) (b : ReadBuf) : Prop :=
  exists rr b', rd x b = (rr, x, b') ∧ rr ≠ .ok ∧ b'.off = b.off

/--
A reader that has counted `k` bytes halts on the bytes `zs`, whatever comes
behind them.
-/
def Stuck (rd : α -> ReadBuf -> ReadOut α) (x : α) (k : Nat) (zs : List UInt8) : Prop :=
  forall (ys : List UInt8) (b : ReadBuf), b.csr = -(k : Int) -> b.rest = zs ++ ys ->
    Halts rd x b

/--
What a read may answer when the state held the bytes `u`.  `P` says what an
unfinished state holds, `W` what a complete one does, and `S` what was taken
before the state got stuck.
-/
inductive Followed (P W S : α -> List UInt8 -> Prop) (rd : α -> ReadBuf -> ReadOut α)
    (u : List UInt8) (b : ReadBuf) : ReadOut α -> Prop
  | done (x : α) (j : Nat) (hj : j <= b.remaining) (hw : W x (u ++ b.rest.take j)) :
      Followed P W S rd u b (.ok, x, b.advance u.length j)
  | short (x : α) (j : Nat) (hj : j <= b.remaining) (hp : P x (u ++ b.rest.take j)) :
      Followed P W S rd u b (.incomplete, x, b.advance u.length j)
  | stuck (rr : ReadResult) (x : α) (b' : ReadBuf) (j : Nat) (hrr : rr ≠ .ok)
      (hj : j <= b.remaining) (hoff : b'.off = b.off + j)
      (hs : S x (u ++ b.rest.take j))
      (hstuck : Stuck rd x (u.length + j) (b.rest.drop j)) :
      Followed P W S rd u b (rr, x, b')

/--
`rd` follows the shapes `P`, `W` and `S`, for states and buffers that
are small enough together.
-/
structure Follows (size : α -> Nat) (n : Nat) (P W S : α -> List UInt8 -> Prop)
    (rd : α -> ReadBuf -> ReadOut α) : Prop where
  follow : forall {x u b}, size x + b.remaining <= n -> P x u -> b.At u.length 0 0 ->
    Followed P W S rd u b (rd x b)
  pass : forall {x u m b}, W x u -> b.At u.length m 0 ->
    rd x b = (.ok, x, b.advance u.length 0)

theorem ReadBuf.active_of_at {b : ReadBuf} (h : b.At 0 0 0) : 0 <= b.csr := by
  unfold ReadBuf.At at h
  omega

theorem Followed.wait {P W S : α -> List UInt8 -> Prop} {rd : α -> ReadBuf -> ReadOut α}
    {x : α} {b : ReadBuf} (hcsr : 0 <= b.csr) (hp : P x []) :
    Followed P W S rd [] b (.incomplete, x, b) := by
  have hshort : Followed P W S rd [] b (.incomplete, x, b.advance [].length 0) :=
    .short x 0 (Nat.zero_le _) hp
  rwa [List.length_nil, ReadBuf.advance_of_nonneg hcsr, ReadBuf.adj_zero] at hshort

theorem Followed.take {P W S : α -> List UInt8 -> Prop} {rd : α -> ReadBuf -> ReadOut α}
    {x : α} {b : ReadBuf} {j : Nat} (hcsr : 0 <= b.csr) (hj : j <= b.remaining)
    (hw : W x (b.rest.take j)) : Followed P W S rd [] b (.ok, x, b.adj j) := by
  have hdone : Followed P W S rd [] b (.ok, x, b.advance [].length j) := .done x j hj hw
  rwa [List.length_nil, ReadBuf.advance_of_nonneg hcsr] at hdone

theorem Followed.behind {P W S : α -> List UInt8 -> Prop}
    {P' W' S' : β -> List UInt8 -> Prop}
    {rd : α -> ReadBuf -> ReadOut α} {rd' : β -> ReadBuf -> ReadOut β} {g : α -> β}
    {hdr u : List UInt8} {n : Nat} {b : ReadBuf} {out : ReadOut α}
    (hn : hdr.length = n) (hpos : 0 < n)
    (hP : forall x v, P x v -> P' (g x) (hdr ++ v))
    (hW : forall x v, W x v -> W' (g x) (hdr ++ v))
    (hS : forall x v, S x v -> S' (g x) (hdr ++ v))
    (hrd : forall x c, rd' (g x) c =
      ((rd x (c.skipHdr n)).1, g (rd x (c.skipHdr n)).2.1, (rd x (c.skipHdr n)).2.2))
    (hat : b.At (hdr ++ u).length 0 n) (h : Followed P W S rd u (b.skipHdr n) out) :
    Followed P' W' S' rd' (hdr ++ u) b (out.1, g out.2.1, out.2.2) := by
  have hlen : (hdr ++ u).length = n + u.length := by rw [List.length_append, hn]
  rw [hlen] at hat
  cases h with
  | done x j hj hw =>
      rw [ReadBuf.skipHdr_remaining] at hj
      rw [ReadBuf.skipHdr_rest] at hw
      rw [ReadBuf.skipHdr_advance hat hpos, ← hlen]
      exact .done (g x) j hj (by rw [List.append_assoc]; exact hW x _ hw)
  | short x j hj hp =>
      rw [ReadBuf.skipHdr_remaining] at hj
      rw [ReadBuf.skipHdr_rest] at hp
      rw [ReadBuf.skipHdr_advance hat hpos, ← hlen]
      exact .short (g x) j hj (by rw [List.append_assoc]; exact hP x _ hp)
  | stuck rr x b' j hrr hj hoff hs hstuck =>
      rw [ReadBuf.skipHdr_remaining] at hj
      rw [ReadBuf.skipHdr_off] at hoff
      rw [ReadBuf.skipHdr_rest] at hs hstuck
      refine .stuck rr (g x) b' j hrr hj hoff (by rw [List.append_assoc]; exact hS x _ hs) ?_
      intro ys c hcsr hrest
      rw [hlen] at hcsr
      have hskip : (c.skipHdr n).csr = -((u.length + j : Nat) : Int) := by
        rw [ReadBuf.skipHdr_of_neg (by omega), ReadBuf.ffwd_csr]
        push_cast at hcsr ⊢
        omega
      rcases hstuck ys (c.skipHdr n) hskip (by rw [ReadBuf.skipHdr_rest]; exact hrest) with
        ⟨rr', c', hread, hrr', hoff'⟩
      refine ⟨rr', c', ?_, hrr', by rw [hoff', ReadBuf.skipHdr_off]⟩
      rw [hrd, hread]

/-!
## Two parts
-/

/-- Unfinished, as two parts of which the second waits for the first. -/
def Joined (P W : α -> List UInt8 -> Prop) (init : β) (Q : β -> List UInt8 -> Prop) :
    α × β -> List UInt8 -> Prop :=
  fun p u => (P p.1 u ∧ p.2 = init) ∨
    exists u₁ u₂, u = u₁ ++ u₂ ∧ W p.1 u₁ ∧ Q p.2 u₂

def Both (W : α -> List UInt8 -> Prop) (V : β -> List UInt8 -> Prop) :
    α × β -> List UInt8 -> Prop :=
  fun p u => exists u₁ u₂, u = u₁ ++ u₂ ∧ W p.1 u₁ ∧ V p.2 u₂

section Pair

variable {size : α -> Nat} {size₂ : β -> Nat} {n : Nat} {P W S : α -> List UInt8 -> Prop}
  {Q V T : β -> List UInt8 -> Prop} {rd : α -> ReadBuf -> ReadOut α}
  {rd₂ : β -> ReadBuf -> ReadOut β} {init : β}

def inTurn (rd : α -> ReadBuf -> ReadOut α) (rd₂ : β -> ReadBuf -> ReadOut β)
    (p : α × β) (b : ReadBuf) : ReadOut (α × β) :=
  (rd p.1 b).andThen p.2 rd₂

theorem ReadOut.andThen_of_fails {rr : ReadResult} {x : α} {b : ReadBuf} (y : β)
    (rd₂ : β -> ReadBuf -> ReadOut β) (hrr : rr ≠ .ok) :
    ReadOut.andThen (rr, x, b) y rd₂ = (rr, (x, y), b) := by
  cases rr
  case ok => exact absurd rfl hrr
  all_goals rfl

theorem stuck_fst {x : α} {k : Nat} {zs : List UInt8} (h : Stuck rd x k zs) (y : β) :
    Stuck (inTurn rd rd₂) (x, y) k zs := by
  intro ys b hcsr hrest
  rcases h ys b hcsr hrest with ⟨rr, b', hread, hrr, hoff⟩
  refine ⟨rr, b', ?_, hrr, hoff⟩
  rw [inTurn, hread, ReadOut.andThen_of_fails y rd₂ hrr]

theorem stuck_snd (h : Follows size n P W S rd) {x : α} {y : β} {u zs : List UInt8} {k : Nat}
    (hw : W x u) (hstuck : Stuck rd₂ y k zs) :
    Stuck (inTurn rd rd₂) (x, y) (u.length + k) zs := by
  intro ys b hcsr hrest
  have hat : b.At u.length k 0 := by
    left
    rw [hcsr]
    push_cast
    rfl
  have hafter : (b.advance u.length 0).csr = -(k : Int) := by
    rw [← ReadBuf.at_ffwd hat, ReadBuf.ffwd_csr]
    push_cast at hcsr
    omega
  rcases hstuck ys (b.advance u.length 0) hafter
    (by rw [ReadBuf.advance_rest, List.drop_zero]; exact hrest) with
    ⟨rr, b', hread, hrr, hoff⟩
  refine ⟨rr, b', ?_, hrr, by rw [hoff, ReadBuf.advance_off, Nat.add_zero]⟩
  rw [inTurn, h.pass hw hat, ReadOut.andThen, hread]

theorem Followed.snd (h : Follows size n P W S rd) {x : α} {u u₁ u₂ : List UInt8}
    {b b₁ : ReadBuf} {i : Nat} {out : ReadOut β} (hi : i <= b.remaining)
    (hu : u ++ b.rest.take i = u₁ ++ u₂) (hw : W x u₁) (hrest : b₁.rest = b.rest.drop i)
    (hadv : forall j, b₁.advance u₂.length j = b.advance u.length (i + j))
    (hoff₁ : b₁.off = b.off + i) (hout : Followed Q V T rd₂ u₂ b₁ out) :
    Followed (Joined P W init Q) (Both W V) (Joined S W init T) (inTurn rd rd₂) u b
      (out.1, (x, out.2.1), out.2.2) := by
  have hrem : b₁.remaining = b.remaining - i := by
    rw [ReadBuf.remaining, hrest, List.length_drop, ReadBuf.remaining]
  have htake (j : Nat) : u ++ b.rest.take (i + j) = u₁ ++ (u₂ ++ b₁.rest.take j) := by
    rw [List.take_add, ← List.append_assoc, hu, List.append_assoc, hrest]
  cases hout with
  | done y j hj hv =>
      rw [hadv]
      exact .done (x, y) (i + j) (by omega) ⟨u₁, _, htake j, hw, hv⟩
  | short y j hj hq =>
      rw [hadv]
      exact .short (x, y) (i + j) (by omega) (Or.inr ⟨u₁, _, htake j, hw, hq⟩)
  | stuck rr y b' j hrr hj hoff ht hstuck =>
      refine .stuck rr (x, y) b' (i + j) hrr (by omega) (by omega)
        (Or.inr ⟨u₁, _, htake j, hw, ht⟩) ?_
      have hlen : u.length + i = u₁.length + u₂.length := by
        have hcount := congrArg List.length hu
        rw [List.length_append, List.length_append, List.length_take] at hcount
        unfold ReadBuf.remaining at hi
        omega
      rw [show u.length + (i + j) = u₁.length + (u₂.length + j) by omega, ← List.drop_drop,
        ← hrest]
      exact stuck_snd h hw hstuck

theorem Follows.pair (h : Follows size n P W S rd) (h₂ : Follows size₂ n Q V T rd₂)
    (hinit : Q init []) :
    Follows (fun p => max (size p.1) (size₂ p.2)) n (Joined P W init Q) (Both W V)
      (Joined S W init T) (inTurn rd rd₂) where
  follow := by
    rintro ⟨x, y⟩ u b hsize (⟨hp, hy⟩ | ⟨u₁, u₂, hu, hw, hq⟩) hat
    · -- the bytes held are all in the first part
      simp only at hsize hp hy
      subst hy
      have hout := h.follow (by omega) hp hat
      rw [inTurn]
      generalize rd x b = out at hout
      cases hout with
      | done x' j hj hw =>
          have hat₁ : (b.advance u.length j).At ([] : List UInt8).length 0 0 := by
            right
            refine ⟨?_, rfl, rfl⟩
            unfold ReadBuf.At at hat
            rw [ReadBuf.advance]
            simp only
            split <;> omega
          have hrem : (b.advance u.length j).remaining = b.remaining - j := by
            simp [ReadBuf.remaining]
          have hout₂ := h₂.follow (by omega) hinit hat₁
          refine Followed.snd h hj (List.append_nil _).symm hw (ReadBuf.advance_rest _ _ _)
            ?_ rfl hout₂
          intro i
          rw [List.length_nil, ReadBuf.advance_of_nonneg (ReadBuf.active_of_at hat₁),
            ReadBuf.advance_adj]
      | short x' j hj hp' => exact .short (x', y) j hj (Or.inl ⟨hp', rfl⟩)
      | stuck rr x' b' j hrr hj hoff hs hstuck =>
          rw [ReadOut.andThen_of_fails y rd₂ hrr]
          exact .stuck rr (x', y) b' j hrr hj hoff (Or.inl ⟨hs, rfl⟩)
            (stuck_fst hstuck y)
    · -- the first part is complete
      simp only at hsize hw hq
      rw [hu, List.length_append] at hat
      have hat₁ : b.At u₁.length (u₂.length + 0) 0 := by
        unfold ReadBuf.At at hat ⊢
        push_cast at hat ⊢
        omega
      have hat₂ := ReadBuf.at_advance (n := u₁.length) hat (Or.inr rfl)
      rw [Nat.sub_self] at hat₂
      rw [inTurn, h.pass hw hat₁, ReadOut.andThen]
      have hrest : (b.advance u₁.length 0).rest = b.rest.drop 0 := rfl
      have hrem : (b.advance u₁.length 0).remaining = b.remaining := by
        simp [ReadBuf.remaining]
      refine Followed.snd (i := 0) h (Nat.zero_le _) (by rw [hu, List.take_zero, List.append_nil])
        hw hrest ?_ rfl (h₂.follow (x := y) (by omega) hq hat₂)
      intro j
      have hadv := ReadBuf.advance_advance hat (Or.inr rfl) (Nat.le_refl _) j
      rw [Nat.sub_self] at hadv
      rw [hadv, hu, List.length_append]
      congr 1
      omega
  pass := by
    rintro ⟨x, y⟩ u m b ⟨u₁, u₂, rfl, hw, hv⟩ hat
    rw [List.length_append] at hat ⊢
    have hat₁ : b.At u₁.length (u₂.length + m) 0 := by
      unfold ReadBuf.At at hat ⊢
      push_cast at hat ⊢
      omega
    have hat₂ := ReadBuf.at_advance (n := u₁.length) hat (Or.inr rfl)
    have hadv := ReadBuf.advance_advance hat (Or.inr rfl) (Nat.le_refl _) 0
    rw [Nat.sub_self] at hat₂ hadv
    rw [inTurn, h.pass hw hat₁, ReadOut.andThen, h₂.pass hv hat₂, hadv, Nat.add_zero,
      Nat.sub_self]

end Pair

/-!
## States that wrap others
-/

theorem Follows.map {size : α -> Nat} {size' : β -> Nat} {n : Nat}
    {P W S : α -> List UInt8 -> Prop} {P' W' S' : β -> List UInt8 -> Prop}
    {rd : α -> ReadBuf -> ReadOut α} {rd' : β -> ReadBuf -> ReadOut β} {g : α -> β}
    (h : Follows size n P W S rd)
    (hP : forall y v, P' y v -> exists x, y = g x ∧ P x v ∧ size x <= size' y)
    (hP' : forall x v, P x v -> P' (g x) v)
    (hW : forall y v, W' y v -> exists x, y = g x ∧ W x v)
    (hW' : forall x v, W x v -> W' (g x) v)
    (hS' : forall x v, S x v -> S' (g x) v)
    (hrd : forall x v c, P x v ∨ W x v ∨ S x v ->
      rd' (g x) c = ((rd x c).1, g (rd x c).2.1, (rd x c).2.2)) :
    Follows size' n P' W' S' rd' where
  follow := by
    intro y u b hsize hp hat
    rcases hP y u hp with ⟨x, rfl, hx, hle⟩
    have hout := h.follow (by omega) hx hat
    rw [hrd x u b (Or.inl hx)]
    generalize rd x b = out at hout
    cases hout with
    | done x' j hj hw => exact .done (g x') j hj (hW' x' _ hw)
    | short x' j hj hp' => exact .short (g x') j hj (hP' x' _ hp')
    | stuck rr x' b' j hrr hj hoff hs hstuck =>
        refine .stuck rr (g x') b' j hrr hj hoff (hS' x' _ hs) ?_
        intro ys c hcsr hrest
        rcases hstuck ys c hcsr hrest with ⟨rr', c', hread, hrr', hoff'⟩
        refine ⟨rr', c', ?_, hrr', hoff'⟩
        rw [hrd x' _ c (Or.inr (Or.inr hs)), hread]
  pass := by
    intro y u m b hw hat
    rcases hW y u hw with ⟨x, rfl, hx⟩
    rw [hrd x u b (Or.inr (Or.inl hx)), h.pass hx hat]

theorem Followed.rebase {P W S : α -> List UInt8 -> Prop} {rd : α -> ReadBuf -> ReadOut α}
    {b : ReadBuf} {k : Nat} {out : ReadOut α} (hcsr : 0 <= b.csr) (hk : k <= b.remaining)
    (h : Followed P W S rd (b.rest.take k) (b.adj k) out) : Followed P W S rd [] b out := by
  have hlen : (b.rest.take k).length = k := by
    rw [List.length_take]
    exact Nat.min_eq_left hk
  have htake (j : Nat) : b.rest.take k ++ (b.adj k).rest.take j = b.rest.take (k + j) := by
    rw [ReadBuf.adj_rest, List.take_add]
  cases h with
  | done x j hj hw =>
      rw [ReadBuf.adj_remaining] at hj
      rw [hlen, ReadBuf.adj_advance_new hcsr]
      exact .done x (k + j) (by omega) (htake j ▸ hw)
  | short x j hj hp =>
      rw [ReadBuf.adj_remaining] at hj
      rw [hlen, ReadBuf.adj_advance_new hcsr]
      exact .short x (k + j) (by omega) (htake j ▸ hp)
  | stuck rr x b' j hrr hj hoff hs hstuck =>
      rw [ReadBuf.adj_remaining] at hj
      rw [ReadBuf.adj_off] at hoff
      rw [hlen, ReadBuf.adj_rest, List.drop_drop] at hstuck
      refine .stuck rr x b' (k + j) hrr (by omega) (by omega) (htake j ▸ hs) ?_
      rwa [List.length_nil, Nat.zero_add]

end Rules

end MgKdb
