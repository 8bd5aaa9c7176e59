import Mathlib.Algebra.Order.Group.Multiset
import MgKdb.Foundation.Coroutine
import MgKdb.Krb5.Tokens

/-!
# Calls of the GSSAPI

The library of the operating system hands out names, credentials, contexts and buffers, which stay
with the caller until they are given back.  What its calls answer is not known, beyond what their
documentation says.
-/

namespace MgKdb
namespace Gss

open Foundation

/-- A pointer; `frame` is the address of a local variable whose function has returned. -/
inductive Pointer where
  | null
  | heap (n : Nat)
  | frame
  deriving DecidableEq, Repr

inductive Kind where
  | name
  | cred
  | ctx
  | buffer
  deriving DecidableEq, Repr

structure Handle where
  kind : Kind
  addr : Nat
  deriving DecidableEq, Repr

/-- What a pointer stands for, when it is taken for the address of something of a kind. -/
def Pointer.handles (kind : Kind) : Pointer -> Multiset Handle
  | heap n => {⟨kind, n⟩}
  | _ => 0

def Pointer.Live (live : Multiset Handle) (kind : Kind) : Pointer -> Prop
  | null => True
  | heap n => ⟨kind, n⟩ ∈ live
  | frame => False

instance (live : Multiset Handle) (kind : Kind) (ptr : Pointer) : Decidable (ptr.Live live kind) :=
  match ptr with
  | .null => isTrue trivial
  | .heap n => inferInstanceAs (Decidable (Handle.mk kind n ∈ live))
  | .frame => isFalse id

/-!
## Status codes
-/

def gssError (res : UInt32) : Bool :=
  res &&& 0xffff0000 ≠ 0

def gssSupplementaryInfo (res : UInt32) : UInt32 :=
  res &&& 0xffff

def gssSComplete : UInt32 := 0

def gssSContinueNeeded : UInt32 := 1

def gssCConfFlag : UInt32 := 16

def gssCIntegFlag : UInt32 := 32

def gssCProtReadyFlag : UInt32 := 128

theorem eq_complete_of_no_info {res : UInt32} (herr : gssError res = false)
    (hinfo : gssSupplementaryInfo res = 0) : res = gssSComplete := by
  have hhigh : res &&& 0xffff0000 = 0 := by simpa [gssError] using herr
  have hsplit : res &&& (0xffff0000 ||| 0xffff) = res := UInt32.and_neg_one
  have hand : res &&& (0xffff0000 ||| 0xffff) = (res &&& 0xffff0000) ||| (res &&& 0xffff) := by
    rw [<- UInt32.toBitVec_inj]
    simp only [UInt32.toBitVec_and, UInt32.toBitVec_or]
    ext i hi
    simp only [BitVec.getElem_and, BitVec.getElem_or, Bool.and_or_distrib_left]
  rw [<- hsplit, hand, hhigh]
  rw [gssSupplementaryInfo] at hinfo
  rw [hinfo]
  rfl

theorem no_protReady {res : UInt32} (h : gssSupplementaryInfo res < 32) :
    res &&& gssCProtReadyFlag = 0 := by
  have hall : forall n, n < 32 -> UInt32.ofNat n &&& gssCProtReadyFlag = 0 := by decide
  have hinfo := hall (gssSupplementaryInfo res).toNat (UInt32.lt_iff_toNat_lt.mp h)
  rw [UInt32.ofNat_toNat, gssSupplementaryInfo, UInt32.and_assoc] at hinfo
  exact hinfo

/-!
## Calls
-/

/-- A buffer that the library has filled: its address and what it holds. -/
abbrev Output := Option (Nat × List UInt8)

/-- The calls, of which the last is the one that the encoder and the decoder make. -/
inductive GssCall where
  | acceptSecContext (context_handle : Pointer) (input_token : List UInt8)
  | initSecContext (cred_handle context_handle tgt_name : Pointer)
      (input_token : Option (List UInt8)) (req_flags : UInt32)
  | displayName (name : Pointer)
  | inquireContext (context_handle : Pointer)
  | importName (buf : List UInt8)
  | acquireCred (name : Pointer)
  | unwrap (context_handle : Pointer) (input_token : List UInt8)
  | verifyMic (context_handle : Pointer) (input_token : List UInt8)
  | releaseName (name : Pointer)
  | releaseCred (cred : Pointer)
  | releaseBuffer (value : Nat)
  | deleteSecContext (context_handle : Pointer)
  | malloc

structure ContextAnswer where
  res : UInt32
  ctx : Pointer
  srcName : Option Nat
  outputToken : Output
  retFlags : UInt32
  timeRec : UInt32

namespace GssCall

/-- The answers; where an error says nothing more it is `none`. -/
@[reducible]
def Answer : GssCall -> Type
  | acceptSecContext _ _ => ContextAnswer
  | initSecContext _ _ _ _ _ => ContextAnswer
  | displayName _ => Option (Nat × List UInt8)
  | inquireContext _ => Option (Option Nat × UInt32)
  | importName _ => Option (Option Nat)
  | acquireCred _ => Option (Option Nat)
  | unwrap _ _ => Option Output
  | verifyMic _ _ => Unit
  | releaseName _ => Unit
  | releaseCred _ => Unit
  | releaseBuffer _ => Unit
  | deleteSecContext _ => Unit
  | malloc => Bool

def uses : GssCall -> List (Kind × Pointer)
  | acceptSecContext ctx _ => [(.ctx, ctx)]
  | initSecContext cred ctx tgt_name _ _ => [(.cred, cred), (.ctx, ctx), (.name, tgt_name)]
  | displayName name => [(.name, name)]
  | inquireContext ctx => [(.ctx, ctx)]
  | importName _ => []
  | acquireCred name => [(.name, name)]
  | unwrap ctx _ => [(.ctx, ctx)]
  | verifyMic ctx _ => [(.ctx, ctx)]
  | releaseName name => [(.name, name)]
  | releaseCred cred => [(.cred, cred)]
  | releaseBuffer value => [(.buffer, .heap value)]
  | deleteSecContext ctx => [(.ctx, ctx)]
  | malloc => []

end GssCall

def ptrOf : Option Nat -> Pointer
  | none => .null
  | some n => .heap n

def Output.handles (out : Output) : Multiset Handle :=
  (ptrOf (out.map Prod.fst)).handles .buffer

/-- Of a call for a context: the context, when there was none before. -/
def ContextAnswer.newContext (before : Pointer) (ans : ContextAnswer) :
    Multiset Handle :=
  if before = .null then ans.ctx.handles .ctx else 0

/-- The library may delete a context that it was given when the call fails. -/
def ContextAnswer.deleted (before : Pointer) (ans : ContextAnswer) : Multiset Handle :=
  if ans.ctx = .null then before.handles .ctx else 0

/--
The documentation of the two calls for contexts.  A call that fails leaves its context as it was or
deletes it; one that does not makes a context where there was none.  Only five bits are defined for
further information.  A buffer with nothing in it needs no release, and is not an output.
-/
structure ContextAnswer.Documented (before : Pointer) (ans : ContextAnswer) : Prop where
  failed : gssError ans.res = true -> ans.srcName = none ∧ (ans.ctx = before ∨ ans.ctx = .null)
  made : gssError ans.res = false -> before = .null -> exists n, ans.ctx = .heap n
  kept : gssError ans.res = false -> before ≠ .null -> ans.ctx = before
  info : gssError ans.res = false -> gssSupplementaryInfo ans.res < 32
  output : forall n bytes, ans.outputToken = some (n, bytes) -> bytes ≠ []

namespace GssCall

def created : (c : GssCall) -> c.Answer -> Multiset Handle
  | acceptSecContext ctx _, ans =>
      ans.newContext ctx + (ptrOf ans.srcName).handles .name + ans.outputToken.handles
  | initSecContext _ ctx _ _ _, ans => ans.newContext ctx + ans.outputToken.handles
  | displayName _, some (buf, _) => {⟨.buffer, buf⟩}
  | inquireContext _, some (name, _) => (ptrOf name).handles .name
  | importName _, some name => (ptrOf name).handles .name
  | acquireCred _, some cred => (ptrOf cred).handles .cred
  | unwrap _ _, some out => out.handles
  | _, _ => 0

def gone : (c : GssCall) -> c.Answer -> Multiset Handle
  | acceptSecContext ctx _, ans => ans.deleted ctx
  | initSecContext _ ctx _ _ _, ans => ans.deleted ctx
  | releaseName name, _ => name.handles .name
  | releaseCred cred, _ => cred.handles .cred
  | releaseBuffer value, _ => {⟨.buffer, value⟩}
  | deleteSecContext ctx, _ => ctx.handles .ctx
  | _, _ => 0

def Documented : (c : GssCall) -> c.Answer -> Prop
  | acceptSecContext ctx _, ans => ans.Documented ctx
  | initSecContext _ ctx _ _ _, ans => ans.srcName = none ∧ ans.Documented ctx
  | _, _ => True

end GssCall

def gssEffects : Effects GssCall GssCall.Answer (Multiset Handle) where
  Allowed live c := forall u, u ∈ c.uses -> u.2.Live live u.1
  Possible live c ans :=
    c.Documented ans ∧ (c.created ans).Nodup ∧ Disjoint (c.created ans) live
  after live c ans := c.created ans + (live - c.gone ans)
  Wakes _ := False

instance (live : Multiset Handle) (c : GssCall) : Decidable (gssEffects.Allowed live c) :=
  inferInstanceAs (Decidable (forall u, u ∈ c.uses -> u.2.Live live u.1))

theorem possible_of_new {live : Multiset Handle} {c : GssCall} {ans : c.Answer}
    (hdoc : c.Documented ans) (hnodup : (c.created ans).Nodup)
    (hnew : forall h, h ∈ c.created ans -> h ∉ live) : gssEffects.Possible live c ans :=
  ⟨hdoc, hnodup, Multiset.disjoint_left.mpr fun hmem => hnew _ hmem⟩

end Gss
end MgKdb
