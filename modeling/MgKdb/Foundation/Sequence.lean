import Mathlib.Data.List.Infix

/-!
# Sequences of encodings

A sequence of values is encoded one value after the other.  A reader of one value makes a
reader of the sequence.  It may support some values only, and it may leave the end of an
encoding unread; then it does not notice when the input ends there.
-/

namespace MgKdb
namespace Foundation

universe u v w

structure Coding (α : Type u) (β : Type v) where
  enc : β -> List α
  supported : β -> Prop
  /-- How much of the end of an encoding is not read. -/
  slack : β -> Nat
  slack_lt : forall b, slack b < (enc b).length

variable {α : Type u} {β : Type v} {σ : Type w}

theorem eq_append_of_front {bs xs tail : List α} (hpre : bs <+: xs ++ tail)
    (hlen : xs.length <= bs.length) :
    bs = xs ++ bs.drop xs.length ∧ bs.drop xs.length <+: tail := by
  have hxs : xs <+: bs :=
    List.prefix_of_prefix_length_le (List.prefix_append xs tail) hpre hlen
  have hdrop := hpre.drop xs.length
  rw [List.drop_left] at hdrop
  refine ⟨?_, hdrop⟩
  rcases hxs with ⟨more, rfl⟩
  rw [List.drop_left]

structure GivesWhen {γ : Type w} (P : Prop) (out : γ) (res : Option γ) : Prop where
  gives : P -> res = some out
  denies : ¬ P -> res = none

namespace GivesWhen

variable {γ δ : Type w} {P Q : Prop} {out : γ} {res : Option γ}

theorem of_iff (h : GivesWhen P out res) (hiff : Q <-> P) : GivesWhen Q out res :=
  ⟨fun hQ => h.gives (hiff.mp hQ), fun hQ => h.denies (fun hP => hQ (hiff.mpr hP))⟩

theorem map (h : GivesWhen P out res) (f : γ -> δ) : GivesWhen P (f out) (res.map f) where
  gives := fun hP => by rw [h.gives hP, Option.map_some]
  denies := fun hP => by rw [h.denies hP, Option.map_none]

theorem some_of (hP : P) : GivesWhen P out (some out) :=
  ⟨fun _ => rfl, fun hno => absurd hP hno⟩

theorem none_of (hP : ¬ P) : GivesWhen P out none :=
  ⟨fun h => absurd h hP, fun _ => rfl⟩

theorem isSome_iff (h : GivesWhen P out res) : res = some out <-> P := by
  refine ⟨fun hsome => ?_, h.gives⟩
  by_contra hP
  rw [h.denies hP] at hsome
  cases hsome

end GivesWhen

def readAll (read : List α -> σ -> Option (Nat × σ)) (src : List α) :
    Nat -> Nat -> σ -> Option (Nat × σ)
  | 0, off, s => some (off, s)
  | n + 1, off, s =>
      match read (src.drop off) s with
      | none => none
      | some out => readAll read src n (off + out.1) out.2

namespace Coding

variable (C : Coding α β)

def encAll (bs : List β) : List α :=
  (bs.map C.enc).flatten

theorem encAll_cons (b : β) (bs : List β) : C.encAll (b :: bs) = C.enc b ++ C.encAll bs := by
  rw [encAll, encAll, List.map_cons, List.flatten_cons]

def lastSlack : List β -> Nat
  | [] => 0
  | [b] => C.slack b
  | _ :: c :: bs => lastSlack (c :: bs)

theorem lastSlack_lt (b : β) (bs : List β) :
    C.lastSlack (b :: bs) < (C.encAll (b :: bs)).length := by
  induction bs generalizing b with
  | nil =>
      rw [lastSlack, encAll_cons, List.length_append]
      exact Nat.lt_add_right _ (C.slack_lt b)
  | cons c bs ih =>
      rw [lastSlack, encAll_cons, List.length_append]
      exact Nat.lt_add_left _ (ih c)

/-- A value is supported, and the input shows everything of it that is read. -/
def Readable (src : List α) (b : β) : Prop :=
  C.supported b ∧ (C.enc b).length <= src.length + C.slack b

def AllReadable (src : List α) (off : Nat) (bs : List β) : Prop :=
  (forall b, b ∈ bs -> C.supported b) ∧
    off + (C.encAll bs).length <= src.length + C.lastSlack bs

/-- A reader reads a value in any input that may be the front of its encoding, when enough
of it is there. -/
def Reads (read : List α -> σ -> Option (Nat × σ)) (step : β -> σ -> σ) (bound : Nat)
    (b : β) : Prop :=
  forall (src rest : List α) (s : σ), src <+: C.enc b ++ rest -> src.length < bound ->
    GivesWhen (C.Readable src b) ((C.enc b).length, step b s) (read src s)

section Sequence

variable {C} {src : List α} {off : Nat}

theorem allReadable_nil (hoff : off <= src.length) : C.AllReadable src off [] := by
  refine ⟨fun b hb => absurd hb List.not_mem_nil, ?_⟩
  rw [encAll, List.map_nil, List.flatten_nil]
  exact Nat.le_add_right_of_le hoff

/-- A sequence is readable when its first value is, and the rest behind it, which begins in
the input if there is any. -/
theorem allReadable_cons (hoff : off <= src.length) (b : β) (bs : List β) :
    C.AllReadable src off (b :: bs) <->
      C.Readable (src.drop off) b ∧
        (bs = [] ∨ off + (C.enc b).length <= src.length ∧
          C.AllReadable src (off + (C.enc b).length) bs) := by
  have hdrop : (src.drop off).length = src.length - off := List.length_drop
  rw [AllReadable, Readable, hdrop, encAll_cons, List.length_append, List.forall_mem_cons]
  cases bs with
  | nil =>
      have hempty : (C.encAll ([] : List β)).length = 0 := rfl
      rw [lastSlack, hempty]
      constructor
      · rintro ⟨⟨hb, _⟩, hle⟩
        exact ⟨⟨hb, by omega⟩, Or.inl rfl⟩
      · rintro ⟨⟨hb, hle⟩, _⟩
        exact ⟨⟨hb, fun c hc => absurd hc List.not_mem_nil⟩, by omega⟩
  | cons c bs =>
      have hlast := C.lastSlack_lt c bs
      have hslack := C.slack_lt b
      rw [lastSlack, AllReadable]
      constructor
      · rintro ⟨⟨hb, hbs⟩, hle⟩
        exact ⟨⟨hb, by omega⟩, Or.inr ⟨by omega, hbs, by omega⟩⟩
      · rintro ⟨⟨hb, _⟩, hnil | ⟨_, hbs, hle⟩⟩
        · cases hnil
        · exact ⟨⟨hb, hbs⟩, by omega⟩

variable {read : List α -> σ -> Option (Nat × σ)} {step : β -> σ -> σ} {bound : Nat}

theorem Reads.behind {b : β} (h : C.Reads read step bound b) (hbound : 0 < bound)
    (hoff : src.length <= off) (s : σ) : read (src.drop off) s = none := by
  rw [List.drop_of_length_le hoff]
  refine (h [] [] s List.nil_prefix hbound).denies ?_
  rintro ⟨_, hle⟩
  have hslack := C.slack_lt b
  rw [List.length_nil] at hle
  omega

theorem readAll_behind {b : β} {bs : List β} (h : C.Reads read step bound b)
    (hbound : 0 < bound) (hoff : src.length <= off) (s : σ) :
    readAll read src (b :: bs).length off s = none := by
  rw [List.length_cons, readAll, h.behind hbound hoff s]

theorem readAll_front (bs : List β) :
    forall {off : Nat} {rest : List α} (s : σ),
      (forall b, b ∈ bs -> C.Reads read step bound b) -> 0 < bound -> off <= src.length ->
      (src.drop off).length < bound ->
      src.drop off <+: C.encAll bs ++ rest ->
      GivesWhen (C.AllReadable src off bs)
        (off + (C.encAll bs).length, bs.foldl (fun s b => step b s) s)
        (readAll read src bs.length off s) := by
  induction bs with
  | nil =>
      intro off rest s _ _ hoff _ _
      exact GivesWhen.some_of (allReadable_nil hoff)
  | cons b bs ih =>
      intro off rest s hbs hbound hoff hlt hpre
      have hb := hbs b List.mem_cons_self
      have hmore := fun c hc => hbs c (List.mem_cons_of_mem b hc)
      rw [encAll_cons, List.append_assoc] at hpre
      refine GivesWhen.of_iff ?_ (allReadable_cons hoff b bs)
      rw [encAll_cons, List.length_append, List.length_cons, readAll, List.foldl_cons]
      by_cases hread : C.Readable (src.drop off) b
      · rw [(hb _ _ s hpre hlt).gives hread]
        simp only
        by_cases hin : off + (C.enc b).length <= src.length
        · have hdrop : src.drop (off + (C.enc b).length) <+: C.encAll bs ++ rest := by
            have h := hpre.drop (C.enc b).length
            rwa [List.drop_left, List.drop_drop] at h
          have hshort : (src.drop (off + (C.enc b).length)).length < bound := by
            rw [List.length_drop] at hlt ⊢
            omega
          have hloop := ih (step b s) hmore hbound hin hshort hdrop
          rw [Nat.add_assoc] at hloop
          refine hloop.of_iff ⟨?_, fun hall => ⟨hread, Or.inr ⟨hin, hall⟩⟩⟩
          rintro ⟨_, rfl | ⟨_, hall⟩⟩
          · exact allReadable_nil hin
          · exact hall
        · cases bs with
          | nil => exact GivesWhen.some_of ⟨hread, Or.inl rfl⟩
          | cons c bs =>
              rw [readAll_behind (hmore c List.mem_cons_self) hbound (by omega)]
              refine GivesWhen.none_of ?_
              rintro ⟨_, hnil | ⟨hle, _⟩⟩
              · cases hnil
              · exact hin hle
      · rw [(hb _ _ s hpre hlt).denies hread]
        exact GivesWhen.none_of (fun h => hread h.left)

end Sequence

end Coding

end Foundation
end MgKdb
