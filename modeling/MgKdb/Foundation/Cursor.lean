import Mathlib.Data.List.Infix

/-!
# Reading at a position

Readers that move through a fixed input.  The position is any integer: nothing is found
outside the input, and what that means is left to the reader.  `Reads m xs v` says that
a reader takes exactly `xs` wherever it stands before them, and answers `v`.
-/

namespace MgKdb
namespace Foundation

structure Cursor (α : Type) where
  input : List α
  pos : Int

abbrev CursorM (α ε : Type) := StateT (Cursor α) (Except ε)

namespace CursorM

variable {α β γ ε : Type}

def next : CursorM α ε (Option α) := fun c =>
  .ok (if 0 <= c.pos then c.input[c.pos.toNat]? else none, { c with pos := c.pos + 1 })

def getPos : CursorM α ε Int := fun c =>
  .ok (c.pos, c)

def setPos (pos : Int) : CursorM α ε Unit := fun c =>
  .ok ((), { c with pos := pos })

/-- The index that a position counted from the end stands for, kept within the input. -/
def clamp (length : Nat) (i : Int) : Nat :=
  if i < 0 then (length + i).toNat else min i.toNat length

def slice (start stop : Int) : CursorM α ε (List α) := fun c =>
  .ok ((c.input.take (clamp c.input.length stop)).drop (clamp c.input.length start), c)

/-- The slice of a given length at the position, which moves by that length. -/
def span (len : Int) : CursorM α ε (List α) := do
  let off ← getPos
  setPos (off + len)
  slice off (off + len)

def times (m : CursorM α ε β) : Nat -> CursorM α ε (List β)
  | 0 => pure []
  | n + 1 => do
      let x ← m
      let xs ← times m n
      return x :: xs

theorem bind_ok {m : CursorM α ε β} {k : β -> CursorM α ε γ} {c c' : Cursor α} {v : β}
    (h : m c = .ok (v, c')) : (m >>= k) c = k v c' := by
  show (m c >>= fun out => k out.1 out.2) = _
  rw [h]
  rfl

theorem bind_error {m : CursorM α ε β} {k : β -> CursorM α ε γ} {c : Cursor α} {e : ε}
    (h : m c = .error e) : (m >>= k) c = .error e := by
  show (m c >>= fun out => k out.1 out.2) = _
  rw [h]
  rfl

theorem ok_of_bind_ok {m : CursorM α ε β} {k : β -> CursorM α ε γ} {c : Cursor α}
    {out : γ × Cursor α} (h : (m >>= k) c = .ok out) :
    exists v c', m c = .ok (v, c') ∧ k v c' = .ok out := by
  change Except.bind (m c) (fun out => k out.1 out.2) = .ok out at h
  cases hm : m c with
  | error e =>
      rw [hm] at h
      cases h
  | ok res =>
      rw [hm] at h
      exact ⟨res.1, res.2, rfl, h⟩

theorem length_of_times {m : CursorM α ε β} {n : Nat} {c c' : Cursor α} {xs : List β}
    (h : times m n c = .ok (xs, c')) : xs.length = n := by
  induction n generalizing c xs with
  | zero =>
      cases h
      rfl
  | succ n ih =>
      rcases ok_of_bind_ok h with ⟨x, c₁, _, hmore⟩
      rcases ok_of_bind_ok hmore with ⟨xs, c₂, hxs, hpure⟩
      cases hpure
      rw [List.length_cons, ih hxs]

theorem slice_eq (front xs back : List α) (pos : Int) :
    (slice front.length (front.length + xs.length) : CursorM α ε (List α))
        ⟨front ++ (xs ++ back), pos⟩ = .ok (xs, ⟨front ++ (xs ++ back), pos⟩) := by
  have hstart : clamp (front ++ (xs ++ back)).length (front.length : Int) = front.length := by
    rw [clamp, if_neg (by omega), List.length_append]
    omega
  have hstop : clamp (front ++ (xs ++ back)).length (front.length + xs.length : Int) =
      front.length + xs.length := by
    rw [clamp, if_neg (by omega), List.length_append, List.length_append]
    omega
  have hslice : ((front ++ (xs ++ back)).take (front.length + xs.length)).drop front.length =
      xs := by
    rw [List.take_length_add_append, List.drop_left, List.take_left]
  rw [slice, hstart, hstop, hslice]

theorem slice_length_le {start stop : Int} {c c' : Cursor α} {xs : List α}
    (h : (slice start stop : CursorM α ε (List α)) c = .ok (xs, c')) :
    xs.length <= clamp c.input.length stop := by
  cases h
  rw [List.length_drop, List.length_take]
  omega

/-- The reader answers `v` before `xs`, and stands behind them afterwards. -/
def Reads (m : CursorM α ε β) (xs : List α) (v : β) : Prop :=
  forall front back,
    m ⟨front ++ (xs ++ back), front.length⟩ =
      .ok (v, ⟨front ++ (xs ++ back), (front ++ xs).length⟩)

namespace Reads

variable {m : CursorM α ε β} {k : β -> CursorM α ε γ} {xs ys : List α} {v : β} {u : γ}

theorem pure (v : β) : Reads (pure v : CursorM α ε β) [] v := by
  intro front back
  rw [List.append_nil]
  rfl

theorem bind (hm : Reads m xs v) (hk : Reads (k v) ys u) : Reads (m >>= k) (xs ++ ys) u := by
  intro front back
  rw [List.append_assoc, bind_ok (hm front (ys ++ back))]
  have hnext := hk (front ++ xs) back
  rw [List.append_assoc, List.append_assoc] at hnext
  exact hnext

theorem run_bind (hm : Reads m xs v) (front back : List α) :
    (m >>= k) ⟨front ++ (xs ++ back), front.length⟩ =
      k v ⟨(front ++ xs) ++ back, (front ++ xs).length⟩ := by
  rw [bind_ok (hm front back), List.append_assoc]

theorem bind_nil (hm : Reads m xs v) (hk : Reads (k v) [] u) : Reads (m >>= k) xs u := by
  have hboth := hm.bind hk
  rwa [List.append_nil] at hboth

theorem bind_pure (hm : Reads m xs v) (f : β -> γ) :
    Reads (m >>= fun x => Pure.pure (f x)) xs (f v) :=
  hm.bind_nil (pure (f v))

theorem map (hm : Reads m xs v) (f : β -> γ) : Reads (f <$> m) xs (f v) := by
  rw [map_eq_pure_bind]
  exact hm.bind_pure f

theorem unique (hv : Reads m xs v) {v' : β} (hv' : Reads m xs v') : v = v' := by
  have hsame := (hv [] []).symm.trans (hv' [] [])
  injection hsame with hout
  exact congrArg Prod.fst hout

theorem next (x : α) : Reads (next : CursorM α ε (Option α)) [x] (some x) := by
  intro front back
  simp [CursorM.next]

theorem span (xs : List α) : Reads (span xs.length : CursorM α ε (List α)) xs xs := by
  intro front back
  show slice front.length (front.length + xs.length) ⟨front ++ (xs ++ back), _⟩ = _
  rw [slice_eq, List.length_append]
  rfl

theorem times {items : List γ} {enc : γ -> List α} {val : γ -> β}
    (h : forall i, i ∈ items -> Reads m (enc i) (val i)) :
    Reads (times m items.length) (items.flatMap enc) (items.map val) := by
  induction items with
  | nil => exact pure []
  | cons i items ih =>
      rw [List.flatMap_cons, List.map_cons]
      exact (h i (by simp)).bind
        ((ih fun j hj => h j (List.mem_cons_of_mem i hj)).bind_pure (val i :: ·))

end Reads

end CursorM

end Foundation
end MgKdb
