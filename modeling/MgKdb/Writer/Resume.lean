import MgKdb.Writer.Object

/-!
# Resumable writing

Earlier calls have stored some of an object's bytes, and the next call goes on from
there.  A call can stop only at certain places of the encoding: behind a header,
between two elements, at the end.  One rule for every way of combining writers
computes these places for the whole.
-/

namespace MgKdb

open WriteBuf

/-- How many of the next `n` bytes the cursor has still to pass over. -/
def WriteBuf.passed (b : WriteBuf) (n : Nat) : Nat :=
  min (-b.csr).toNat n

/--
What a resumable write does: it passes over what was stored before, stores a part of
the rest, and reports completion when this part is all of it.  It is all of it unless
there is too little room.
-/
def Written (bytes : List UInt8) (stop : Nat -> Prop) (b : WriteBuf) (out : WriteOut) :
    Prop :=
  exists j, b.passed bytes.length + j <= bytes.length ∧
    stop (b.passed bytes.length + j) ∧
    Stored b out.2 (b.passed bytes.length)
      ((bytes.drop (b.passed bytes.length)).take j) ∧
    out.1 = (if b.passed bytes.length + j = bytes.length then .ok else .incomplete) ∧
    (bytes.length <= b.passed bytes.length + b.remaining ->
      b.passed bytes.length + j = bytes.length)

/--
`Writes bytes stop wr`: the writer `wr` stores `bytes`, over as many
calls as it takes, and `stop` holds of the places where a call may end.
-/
structure Writes (bytes : List UInt8) (stop : Nat -> Prop) (wr : WriteBuf -> WriteOut) :
    Prop where
  start : stop 0
  finish : stop bytes.length
  resume : forall {b : WriteBuf}, stop (b.passed bytes.length) ->
    Written bytes stop b (wr b)

/-!
## Places to stop
-/

def AtEnds (n k : Nat) : Prop :=
  k = 0 ∨ k = n

def AtElem (w n k : Nat) : Prop :=
  k <= n ∧ w ∣ k

/-- In the first part of `n` bytes, or in what follows it. -/
def InParts (n : Nat) (stop stop' : Nat -> Prop) (k : Nat) : Prop :=
  (k <= n ∧ stop k) ∨ (n <= k ∧ stop' (k - n))

/-!
## Rules
-/

theorem passed_zero_of_nonneg {b : WriteBuf} (h : 0 <= b.csr) (n : Nat) :
    b.passed n = 0 := by
  unfold passed
  omega

theorem passed_le (b : WriteBuf) (n : Nat) : b.passed n <= n :=
  Nat.min_le_right _ _

theorem Writes.nil : Writes [] (· = 0) (fun b => (.ok, b)) where
  start := rfl
  finish := rfl
  resume := by
    intro b _
    have hzero : b.passed ([] : List UInt8).length = 0 := Nat.min_zero _
    unfold Written
    rw [hzero]
    refine ⟨0, Nat.zero_le _, rfl, ?_, rfl, fun _ => rfl⟩
    exact ⟨rfl, (List.append_nil _).symm, by simp⟩

theorem Writes.congr {bytes : List UInt8} {stop : Nat -> Prop}
    {wr wr' : WriteBuf -> WriteOut} (h : Writes bytes stop wr)
    (heq : forall b, wr' b = wr b) : Writes bytes stop wr' where
  start := h.start
  finish := h.finish
  resume := by
    intro b hstop
    rw [heq]
    exact h.resume hstop

theorem Writes.head {f : WriteBuf -> Bool × WriteBuf} {xs : List UInt8} {n : Nat}
    (hf : Puts f xs) (hn : xs.length = n) :
    Writes xs (AtEnds n) (fun b => b.writeHead n f) where
  start := Or.inl rfl
  finish := Or.inr hn
  resume := by
    intro b hstop
    unfold Written writeHead
    by_cases hcsr : 0 <= b.csr
    · rw [passed_zero_of_nonneg hcsr, cursorActive, decide_eq_true hcsr, if_pos rfl]
      by_cases hroom : xs.length <= b.remaining
      · rw [hf.success b hroom, if_neg (by simp)]
        refine ⟨xs.length, by omega, Or.inr (by omega), ?_, ?_, fun _ => Nat.zero_add _⟩
        · rw [List.drop_zero, List.take_length]
          exact hf.appends b hroom
        · rw [if_pos (Nat.zero_add _)]
      · rw [hf.failure b (by omega), if_pos rfl]
        refine ⟨0, Nat.zero_le _, Or.inl rfl, ?_, ?_, by omega⟩
        · exact ⟨rfl, (List.append_nil _).symm, by simp⟩
        · rw [if_neg (by omega)]
    · have hpassed : b.passed xs.length = xs.length := by
        unfold AtEnds passed at *
        omega
      rw [hpassed, cursorActive, decide_eq_false hcsr, if_neg (by simp)]
      refine ⟨0, Nat.le_refl _, Or.inr hn, ?_, ?_, fun _ => Nat.add_zero _⟩
      · rw [List.take_zero, hn]
        exact stored_ffwd b n
      · rw [if_pos (Nat.add_zero _)]

section AndThen

variable {bytes bytes' : List UInt8} {stop stop' : Nat -> Prop}
  {wr wr' : WriteBuf -> WriteOut} {b : WriteBuf}

theorem stop_first (hfinish : stop bytes.length)
    (hstop : InParts bytes.length stop stop' (b.passed (bytes ++ bytes').length)) :
    stop (b.passed bytes.length) := by
  by_cases hin : (-b.csr).toNat < bytes.length
  · have hsame : b.passed (bytes ++ bytes').length = b.passed bytes.length := by
      unfold passed
      rw [List.length_append]
      omega
    rw [hsame] at hstop
    rcases hstop with ⟨_, hstop⟩ | ⟨hle, _⟩
    · exact hstop
    · unfold passed at hle
      omega
  · have hall : b.passed bytes.length = bytes.length := by
      unfold passed
      omega
    rwa [hall]

theorem Written.andThen_short (hout : Written bytes stop b (wr b))
    (hcode : (wr b).1 ≠ .ok) (next : WriteBuf -> WriteOut) :
    Written (bytes ++ bytes') (InParts bytes.length stop stop') b
      ((wr b).andThen next) := by
  rcases hout with ⟨j, hj, hstopj, hstored, hcode', hroom⟩
  have hle := passed_le b bytes.length
  have hshort : b.passed bytes.length + j ≠ bytes.length := by
    intro hdone
    rw [if_pos hdone] at hcode'
    exact hcode hcode'
  rw [if_neg hshort] at hcode'
  have hcsr := hstored.csr
  have hpassed : b.passed (bytes ++ bytes').length = b.passed bytes.length := by
    unfold passed at *
    rw [List.length_append]
    omega
  have hwait : (wr b).andThen next = wr b := by
    rw [WriteOut.andThen, hcode']
  unfold Written
  rw [hwait, hpassed, List.length_append]
  refine ⟨j, by omega, Or.inl ⟨hj, hstopj⟩, ?_, ?_, by omega⟩
  · rw [List.drop_append_of_le_length hle,
      List.take_append_of_le_length (by rw [List.length_drop]; omega)]
    exact hstored
  · rw [hcode', if_neg (by omega)]

theorem take_drop_parts {p p' j j' : Nat} (hdone : p + j = bytes.length)
    (hzero : j = 0 ∨ p' = 0) :
    ((bytes ++ bytes').drop (p + p')).take (j + j') =
      ((bytes.drop p).take j) ++ ((bytes'.drop p').take j') := by
  rcases hzero with hzero | hzero
  · rw [show p = bytes.length by omega, hzero, ← List.drop_drop, List.drop_left]
    simp
  · have hlen : (bytes.drop p).length = j := by
      rw [List.length_drop]
      omega
    rw [hzero, Nat.add_zero, List.drop_append_of_le_length (by omega), List.take_add,
      List.take_append_of_le_length (by omega), ← hlen, List.drop_left, List.drop_zero]

theorem Written.place_second (hout : Written bytes stop b (wr b)) (hcode : (wr b).1 = .ok)
    (hstart : stop' 0)
    (hstop : InParts bytes.length stop stop' (b.passed (bytes ++ bytes').length)) :
    b.passed (bytes ++ bytes').length =
        b.passed bytes.length + (wr b).2.passed bytes'.length ∧
      stop' ((wr b).2.passed bytes'.length) := by
  rcases hout with ⟨j, hj, _, hstored, hcode', _⟩
  have hdone : b.passed bytes.length + j = bytes.length := by
    by_contra hshort
    rw [hcode, if_neg hshort] at hcode'
    cases hcode'
  have hcsr := hstored.csr
  rw [List.length_take, List.length_drop] at hcsr
  have hpassed : b.passed (bytes ++ bytes').length =
      b.passed bytes.length + (wr b).2.passed bytes'.length := by
    unfold passed at *
    rw [List.length_append]
    omega
  refine ⟨hpassed, ?_⟩
  by_cases hfresh : (wr b).2.passed bytes'.length = 0
  · rw [hfresh]
    exact hstart
  · have hfull : b.passed bytes.length = bytes.length := by
      unfold passed at *
      omega
    rw [hpassed, hfull] at hstop
    rcases hstop with ⟨hle, _⟩ | ⟨_, hstop⟩
    · omega
    · rwa [Nat.add_sub_cancel_left] at hstop

theorem Written.andThen_done (hout : Written bytes stop b (wr b))
    (hcode : (wr b).1 = .ok) (h' : Writes bytes' stop' wr')
    (hstop : InParts bytes.length stop stop' (b.passed (bytes ++ bytes').length)) :
    Written (bytes ++ bytes') (InParts bytes.length stop stop') b
      ((wr b).andThen wr') := by
  rcases hout.place_second hcode h'.start hstop with ⟨hpassed, hstop'⟩
  rcases hout with ⟨j, hj, _, hstored, hcode', _⟩
  have hdone : b.passed bytes.length + j = bytes.length := by
    by_contra hshort
    rw [hcode, if_neg hshort] at hcode'
    cases hcode'
  have hcsr := hstored.csr
  rw [List.length_take, List.length_drop] at hcsr
  rcases h'.resume hstop' with ⟨j', hj', hstopj', hstored', hcode'', hroom⟩
  have hrem := hstored.remaining
  rw [List.length_take, List.length_drop] at hrem
  have hnext : (wr b).andThen wr' = wr' (wr b).2 := by
    rw [WriteOut.andThen, hcode]
  have hplace : b.passed bytes.length + (wr b).2.passed bytes'.length + (j + j') =
      bytes.length + ((wr b).2.passed bytes'.length + j') := by
    omega
  unfold Written
  rw [hnext, hpassed, List.length_append]
  refine ⟨j + j', by omega, Or.inr ⟨by omega, ?_⟩, ?_, ?_, by omega⟩
  · rw [hplace, Nat.add_sub_cancel_left]
    exact hstopj'
  · rw [take_drop_parts hdone (by unfold passed at *; omega)]
    exact hstored.trans hstored'
  · rw [hcode'', hplace]
    simp only [Nat.add_left_cancel_iff]

theorem Writes.andThen (h : Writes bytes stop wr) (h' : Writes bytes' stop' wr') :
    Writes (bytes ++ bytes') (InParts bytes.length stop stop')
      (fun b => (wr b).andThen wr') where
  start := Or.inl ⟨Nat.zero_le _, h.start⟩
  finish := by
    right
    rw [List.length_append, Nat.add_sub_cancel_left]
    exact ⟨Nat.le_add_right _ _, h'.finish⟩
  resume := by
    intro b hstop
    have hout := h.resume (stop_first h.finish hstop)
    by_cases hcode : (wr b).1 = .ok
    · exact hout.andThen_done hcode h' hstop
    · exact hout.andThen_short hcode wr'

end AndThen

/-!
## Arrays
-/

theorem stored_writeAry {b : WriteBuf} {w skp : Nat} {ary : List UInt8}
    (hskp : skp < ary.length / w) :
    exists elm, (b.writeAry w ary skp).1 = elm ∧ skp + elm <= ary.length / w ∧
      Stored b (b.writeAry w ary skp).2 0 ((ary.drop (skp * w)).take (elm * w)) ∧
      (skp + elm < ary.length / w -> elm = b.remaining / w) := by
  unfold writeAry
  rw [if_neg (by omega)]
  refine ⟨_, rfl, by omega, stored_store b _ (b.writeAry_fits _ _ _), ?_⟩
  intro hshort
  omega

theorem skip_elems {b : WriteBuf} {w n i : Nat} {ary : List UInt8} (hw : 0 < w)
    (hn : ary.length = w * n) (hi : b.passed ary.length = w * i) :
    ary.length / w = n ∧ b.skip (ary.length / w * w) / w = i := by
  have hcount : ary.length / w = n := by
    rw [hn, Nat.mul_div_cancel_left n hw]
  refine ⟨hcount, ?_⟩
  have hpassed : b.skip (n * w) = b.passed ary.length := by
    rw [Nat.mul_comm, ← hn]
    unfold skip passed
    split <;> omega
  rw [hcount, hpassed, hi, Nat.mul_div_cancel_left i hw]

theorem Writes.elems {w : Nat} (ary : List UInt8) (hw : 0 < w) (hary : w ∣ ary.length) :
    Writes ary (AtElem w ary.length) (writeElems w ary) where
  start := ⟨Nat.zero_le _, Nat.dvd_zero w⟩
  finish := ⟨Nat.le_refl _, hary⟩
  resume := by
    rintro b ⟨hle, hdvd⟩
    rcases hary with ⟨n, hn⟩
    rcases hdvd with ⟨i, hi⟩
    rcases skip_elems hw hn hi with ⟨hcount, hskip⟩
    rw [hcount] at hskip
    have hin : i <= n := by
      rw [hi, hn] at hle
      exact Nat.le_of_mul_le_mul_left hle hw
    unfold Written writeElems
    simp only [hcount, hskip]
    rw [hi, Nat.mul_comm w i]
    by_cases hlt : i < n
    · rw [if_pos hlt]
      rcases stored_writeAry (b := b.ffwd (i * w)) (by rw [hcount]; exact hlt) with
        ⟨elm, helm, hroom, hstored, hshort⟩
      rw [hcount] at hroom hshort
      have hall := (stored_ffwd b (i * w)).trans hstored
      rw [Nat.add_zero, List.nil_append] at hall
      have hplace : i * w + elm * w = (i + elm) * w := (Nat.add_mul i elm w).symm
      have hbound : (i + elm) * w <= n * w := Nat.mul_le_mul_right w hroom
      rw [Nat.mul_comm] at hn
      refine ⟨elm * w, by omega, ⟨by omega, ?_⟩, ?_, ?_, ?_⟩
      · rw [hplace]
        exact Nat.dvd_mul_left w _
      · split <;> exact hall
      · rw [helm, hplace, hn]
        by_cases hdone : i + elm < n
        · have hne : (i + elm) * w < n * w := Nat.mul_lt_mul_of_pos_right hdone hw
          rw [if_pos hdone, if_neg (by omega)]
        · rw [if_neg hdone, if_pos (by rw [show i + elm = n by omega])]
      · intro hroom'
        rw [hplace, hn]
        by_contra hne
        have hlt' : i + elm < n := by
          by_contra hge
          exact hne (by rw [show i + elm = n by omega])
        -- one more element would have fitted
        have hmore : b.remaining < (b.remaining / w + 1) * w :=
          Nat.lt_mul_of_div_lt (Nat.lt_succ_self _) hw
        have hstep : (i + (elm + 1)) * w <= n * w := Nat.mul_le_mul_right w (by omega)
        have helm' : elm = b.remaining / w := hshort hlt'
        rw [← helm'] at hmore
        rw [Nat.add_mul] at hstep
        omega
    · rw [if_neg hlt]
      rw [Nat.mul_comm, show n = i by omega] at hn
      refine ⟨0, by omega, ⟨by omega, Nat.dvd_mul_left w i⟩, ?_, ?_, by omega⟩
      · rw [List.take_zero]
        exact stored_ffwd b (i * w)
      · rw [if_pos (by omega)]

theorem writeData_eq_writeElems (text : List UInt8) (b : WriteBuf) :
    KdbFunction.writeData text.length text b = writeElems 1 text b := by
  unfold KdbFunction.writeData writeElems
  simp only [Nat.sub_self, List.replicate_zero, List.append_nil, Nat.div_one,
    Nat.mul_one]
  have hle : b.skip text.length <= text.length := by
    unfold skip
    split <;> omega
  by_cases hlt : b.skip text.length < text.length
  · rcases stored_writeAry (b := b.ffwd (b.skip text.length))
      (by rw [Nat.div_one]; exact hlt) with ⟨elm, helm, hroom, _, _⟩
    rw [Nat.div_one] at hroom
    rw [if_pos hlt, helm]
    by_cases hdone : b.skip text.length + elm = text.length
    · rw [if_pos hdone, if_neg (by omega)]
    · rw [if_neg hdone, if_pos (by omega)]
  · have hnone : (b.ffwd (b.skip text.length)).writeAry 1 text
        (b.skip text.length) = (0, b.ffwd (b.skip text.length)) := by
      rw [writeAry, if_pos (by rw [Nat.div_one]; omega)]
    rw [if_neg hlt, hnone, if_pos (by omega)]

/-!
## Progress

A writer that has room for the next thing that is stored as a whole stores it.
-/

/-- With room for `unit` bytes a call that has something left to store stores some. -/
def Moves (unit : Nat) (bytes : List UInt8) (stop : Nat -> Prop) (wr : WriteBuf -> WriteOut) :
    Prop :=
  forall {b : WriteBuf}, stop (b.passed bytes.length) ->
    b.passed bytes.length < bytes.length -> unit <= b.remaining -> b.off < (wr b).2.off

structure Steady (unit : Nat) (bytes : List UInt8) (stop : Nat -> Prop)
    (wr : WriteBuf -> WriteOut) : Prop where
  writes : Writes bytes stop wr
  moves : Moves unit bytes stop wr

theorem Writes.off_le {bytes : List UInt8} {stop : Nat -> Prop} {wr : WriteBuf -> WriteOut}
    (h : Writes bytes stop wr) {b : WriteBuf} (hstop : stop (b.passed bytes.length)) :
    b.off <= (wr b).2.off := by
  rcases h.resume hstop with ⟨j, _, _, hstored, _, _⟩
  rw [hstored.off_eq]
  exact Nat.le_add_right _ _

section Steady

variable {unit : Nat}

theorem Steady.nil : Steady unit [] (· = 0) (fun b => (.ok, b)) where
  writes := Writes.nil
  moves := fun _ hlt _ => absurd hlt (Nat.not_lt_zero _)

theorem Steady.congr {bytes : List UInt8} {stop : Nat -> Prop}
    {wr wr' : WriteBuf -> WriteOut} (h : Steady unit bytes stop wr)
    (heq : forall b, wr' b = wr b) : Steady unit bytes stop wr' where
  writes := h.writes.congr heq
  moves := by
    intro b hstop hlt hroom
    rw [heq]
    exact h.moves hstop hlt hroom

theorem Steady.head {f : WriteBuf -> Bool × WriteBuf} {xs : List UInt8} {n : Nat}
    (hf : Puts f xs) (hn : xs.length = n) (hunit : n <= unit) :
    Steady unit xs (AtEnds n) (fun b => b.writeHead n f) where
  writes := Writes.head hf hn
  moves := by
    intro b hstop hlt hroom
    have hzero : b.passed xs.length = 0 := by
      rcases hstop with hzero | hall
      · exact hzero
      · omega
    have hcsr : 0 <= b.csr := by
      unfold passed at hzero
      omega
    simp only [writeHead, cursorActive, decide_eq_true hcsr, if_true,
      hf.success b (by omega), Bool.true_eq_false, if_false]
    rw [(hf.appends b (by omega)).off_eq]
    omega

theorem Steady.andThen {bytes bytes' : List UInt8} {stop stop' : Nat -> Prop}
    {wr wr' : WriteBuf -> WriteOut} (h : Steady unit bytes stop wr)
    (h' : Steady unit bytes' stop' wr') :
    Steady unit (bytes ++ bytes') (InParts bytes.length stop stop')
      (fun b => (wr b).andThen wr') where
  writes := h.writes.andThen h'.writes
  moves := by
    intro b hstop hlt hroom
    have hfirst := stop_first h.writes.finish hstop
    have hout := h.writes.resume hfirst
    by_cases hin : b.passed bytes.length < bytes.length
    · have hmoved := h.moves hfirst hin hroom
      by_cases hcode : (wr b).1 = .ok
      · have hplace := (hout.place_second hcode h'.writes.start hstop).right
        have hkept := h'.writes.off_le hplace
        simp only [WriteOut.andThen, hcode]
        omega
      · have hwait : (wr b).andThen wr' = wr b := by
          unfold WriteOut.andThen
          split
          · exact absurd ‹_› hcode
          · rfl
        simp only [hwait]
        exact hmoved
    -- the first part was stored before, so that all the room is left for the second
    · have hfull : b.passed bytes.length = bytes.length :=
        Nat.le_antisymm (passed_le b _) (Nat.not_lt.mp hin)
      have hcode : (wr b).1 = .ok := by
        rcases hout with ⟨j, hj, _, _, hcode, _⟩
        rw [hcode, if_pos (by omega)]
      rcases hout.place_second hcode h'.writes.start hstop with ⟨hpassed, hplace⟩
      rcases hout with ⟨j, hj, _, hstored, _, _⟩
      have hnone : j = 0 := by omega
      rw [hnone, List.take_zero] at hstored
      have hoff := hstored.off_eq
      have hrem := hstored.remaining
      rw [List.length_nil] at hoff hrem
      rw [List.length_append] at hlt hpassed
      have hmoved := h'.moves hplace (by omega) (by omega)
      simp only [WriteOut.andThen, hcode]
      omega

theorem Steady.elems {w : Nat} (ary : List UInt8) (hw : 0 < w) (hary : w ∣ ary.length)
    (hunit : ary ≠ [] -> w <= unit) :
    Steady unit ary (AtElem w ary.length) (writeElems w ary) where
  writes := Writes.elems ary hw hary
  moves := by
    rintro b ⟨hle, hdvd⟩ hlt hroom
    have hne : ary ≠ [] := by
      intro hnil
      rw [hnil] at hlt
      exact absurd hlt (Nat.not_lt_zero _)
    have hmem := hunit hne
    rcases hary with ⟨n, hn⟩
    rcases hdvd with ⟨i, hi⟩
    rcases skip_elems hw hn hi with ⟨hcount, hskip⟩
    rw [hcount] at hskip
    have hin : i < n := by
      rw [hi, hn] at hlt
      exact Nat.lt_of_mul_lt_mul_left hlt
    unfold writeElems
    simp only [hcount, hskip]
    rw [if_pos hin]
    rcases stored_writeAry (b := b.ffwd (i * w)) (by rw [hcount]; exact hin) with
      ⟨elm, helm, hbound, hstored, hshort⟩
    rw [hcount] at hbound hshort
    have hpos : 0 < elm := by
      by_cases hdone : i + elm < n
      · rw [hshort hdone]
        exact Nat.div_pos (Nat.le_trans hmem hroom) hw
      · omega
    have hall := ((stored_ffwd b (i * w)).trans hstored).off_eq
    have hlen : ((ary.drop (i * w)).take (elm * w)).length = elm * w := by
      have hfit : (i + elm) * w <= n * w := Nat.mul_le_mul_right w hbound
      rw [Nat.add_mul] at hfit
      rw [List.length_take, List.length_drop, hn, Nat.mul_comm w n]
      omega
    rw [List.nil_append, hlen] at hall
    have hsome : 0 < elm * w := Nat.mul_pos hpos hw
    split <;> (simp only; omega)

theorem Steady.functionData (text : List UInt8) (hunit : 1 <= unit) :
    Steady unit text (AtElem 1 text.length) (KdbFunction.writeData text.length text) :=
  (Steady.elems text Nat.one_pos (Nat.one_dvd _) (fun _ => hunit)).congr
    (writeData_eq_writeElems text)

end Steady

end MgKdb
