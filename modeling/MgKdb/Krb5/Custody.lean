import Mathlib.Tactic.Abel
import MgKdb.Krb5.SecContext

/-!
# What a call from q leaves behind

Whatever the calls of the library answer: no handle is used that is not there, and what there is
afterwards is what there was before, what the result has, and what nobody has any more.
-/

namespace MgKdb
namespace Gss

open Foundation
open Base64

/-!
## Rules for the calls
-/

section Rules

variable {P : Contract PEmpty KResult (Multiset Handle)} {live R : Multiset Handle} {c : GssCall}
  {k : c.Answer -> Code}

theorem allowed_one {kind : Kind} {ptr : Pointer} (huses : c.uses = [(kind, ptr)])
    (hlive : ptr.Live live kind) : gssEffects.Allowed live c := by
  intro u hu
  rw [huses] at hu
  rw [List.mem_singleton.mp hu]
  exact hlive

theorem allowed_none (huses : c.uses = []) : gssEffects.Allowed live c := by
  intro u hu
  rw [huses] at hu
  cases hu

theorem meets_quiet (hallowed : gssEffects.Allowed live c)
    (hcreated : forall ans, c.created ans = 0) (hgone : forall ans, c.gone ans = 0)
    (hk : forall ans, (k ans).Meets gssEffects P live) :
    (Segment.call c k).Meets gssEffects P live := by
  refine Segment.meets_call hallowed fun ans _ => ?_
  change (k ans).Meets gssEffects P (c.created ans + (live - c.gone ans))
  rw [hcreated, hgone, zero_add, tsub_zero]
  exact hk ans

theorem meets_create (hallowed : gssEffects.Allowed live c)
    (hgone : forall ans, c.gone ans = 0)
    (hk : forall ans, c.Documented ans -> (k ans).Meets gssEffects P (c.created ans + live)) :
    (Segment.call c k).Meets gssEffects P live := by
  refine Segment.meets_call hallowed fun ans hans => ?_
  change (k ans).Meets gssEffects P (c.created ans + (live - c.gone ans))
  rw [hgone, tsub_zero]
  exact hk ans hans.left

theorem meets_give (hallowed : gssEffects.Allowed live c) (hcreated : forall ans, c.created ans = 0)
    {h : Handle} (hgone : forall ans, c.gone ans = {h}) (hlive : live = {h} + R)
    (hk : forall ans, (k ans).Meets gssEffects P R) :
    (Segment.call c k).Meets gssEffects P live := by
  refine Segment.meets_call hallowed fun ans _ => ?_
  change (k ans).Meets gssEffects P (c.created ans + (live - c.gone ans))
  rw [hcreated, hgone, hlive, zero_add, add_tsub_cancel_left]
  exact hk ans

end Rules

section Runs

variable {live live' R : Multiset Handle} {res : KResult} {c : GssCall} {k : c.Answer -> Code}

theorem ends_quiet (ans : c.Answer) (hallowed : gssEffects.Allowed live c)
    (hdoc : c.Documented ans) (hcreated : c.created ans = 0) (hgone : c.gone ans = 0)
    (h : (k ans).Ends gssEffects live res live') :
    (Segment.call c k).Ends gssEffects live res live' := by
  have hafter : gssEffects.after live c ans = live := by
    change c.created ans + (live - c.gone ans) = live
    rw [hcreated, hgone, zero_add, tsub_zero]
  refine .call ans hallowed (possible_of_new hdoc ?_ ?_) (hafter.symm ▸ h)
  · exact hcreated ▸ Multiset.nodup_zero
  · exact fun x hx => absurd (hcreated ▸ hx) (Multiset.notMem_zero x)

theorem ends_create {x : Handle} (ans : c.Answer) (hallowed : gssEffects.Allowed live c)
    (hdoc : c.Documented ans) (hcreated : c.created ans = {x}) (hgone : c.gone ans = 0)
    (hnew : x ∉ live) (h : (k ans).Ends gssEffects ({x} + live) res live') :
    (Segment.call c k).Ends gssEffects live res live' := by
  have hafter : gssEffects.after live c ans = {x} + live := by
    change c.created ans + (live - c.gone ans) = _
    rw [hcreated, hgone, tsub_zero]
  refine .call ans hallowed (possible_of_new hdoc ?_ ?_) (hafter.symm ▸ h)
  · exact hcreated ▸ Multiset.nodup_singleton x
  · intro y hy
    rw [hcreated] at hy
    exact Multiset.mem_singleton.mp hy ▸ hnew

theorem ends_give {x : Handle} (ans : c.Answer) (hallowed : gssEffects.Allowed live c)
    (hdoc : c.Documented ans) (hcreated : c.created ans = 0) (hgone : c.gone ans = {x})
    (hlive : live = {x} + R) (h : (k ans).Ends gssEffects R res live') :
    (Segment.call c k).Ends gssEffects live res live' := by
  have hafter : gssEffects.after live c ans = R := by
    change c.created ans + (live - c.gone ans) = R
    rw [hcreated, hgone, hlive, zero_add, add_tsub_cancel_left]
  refine .call ans hallowed (possible_of_new hdoc ?_ ?_) (hafter.symm ▸ h)
  · exact hcreated ▸ Multiset.nodup_zero
  · exact fun y hy => absurd (hcreated ▸ hy) (Multiset.notMem_zero y)

end Runs

section Helpers

variable {P : Contract PEmpty KResult (Multiset Handle)} {live R : Multiset Handle}

theorem mem_of_eq_add {h : Handle} (hlive : live = {h} + R) : h ∈ live := by
  rw [hlive]
  exact Multiset.mem_add.mpr (Or.inl (Multiset.mem_singleton_self h))

theorem meets_displayName {name : Option Nat} {k : Option (List UInt8) -> Code}
    (hlive : live = (ptrOf name).handles .name + R)
    (hnone : name = none -> (k none).Meets gssEffects P R)
    (hsome : forall buf txt, (k (some txt)).Meets gssEffects P
      ((ptrOf buf).handles .buffer + R)) :
    (mgGetDisplayName (ptrOf name) fun txt =>
      .call (.releaseName (ptrOf name)) fun _ => k txt).Meets gssEffects P live := by
  cases name with
  | none =>
      rw [show live = R from hlive.trans (zero_add R)]
      exact meets_quiet (allowed_one rfl trivial) (fun _ => rfl) (fun _ => rfl) fun _ => hnone rfl
  | some n =>
      have hmem : ⟨.name, n⟩ ∈ live := mem_of_eq_add hlive
      have hrelease : forall (buf : Option Nat) (txt : List UInt8),
          (Segment.call (.releaseName (.heap n)) fun _ => k (some txt)).Meets gssEffects P
            ((ptrOf buf).handles .buffer + live) := by
        intro buf txt
        refine meets_give (allowed_one rfl ?_) (fun _ => rfl) (fun _ => rfl)
          (R := (ptrOf buf).handles .buffer + R) ?_ fun _ => hsome buf txt
        · exact Multiset.mem_add.mpr (Or.inr hmem)
        · rw [hlive, ptrOf, Pointer.handles]
          abel
      refine meets_create (allowed_one rfl hmem) (fun _ => rfl) fun ans _ => ?_
      rcases ans with _ | ⟨buf, txt⟩
      · exact hrelease none _
      · exact hrelease (some buf) txt

theorem meets_deleteSecContext {n : Nat} {k : Code} (hlive : live = {⟨.ctx, n⟩} + R)
    (hk : k.Meets gssEffects P R) :
    (mgDeleteSecContext (.heap n) k).Meets gssEffects P live := by
  exact meets_give (allowed_one rfl (mem_of_eq_add hlive)) (fun _ => rfl) (fun _ => rfl) hlive
    fun _ => hk

theorem meets_decodeToken {token : List UInt8} {msg : String} {k : List UInt8 -> Code}
    (hmsg : P.ret (.krr msg) live) (hk : forall vec, (k vec).Meets gssEffects P live) :
    (decodeToken token msg k).Meets gssEffects P live := by
  refine meets_quiet (allowed_none rfl) (fun _ => rfl) (fun _ => rfl) fun malloc => ?_
  split
  · exact hmsg
  · exact hk _

end Helpers

/-!
## The acceptor
-/

inductive AcceptLeaves : KResult -> Multiset Handle -> Prop where
  | refused (msg : String) (h : msg ∈ ["bad k_token.type", "failed in base64_decode\n"]) :
      AcceptLeaves (.krr msg) 0
  /-- Nobody releases the token that a failed call may have for the peer. -/
  | failed (output : Option Nat) :
      AcceptLeaves (.krr "failed in accept-sec-context") ((ptrOf output).handles .buffer)
  /-- Nobody releases the texts of names. -/
  | noText (src : Option Nat) :
      AcceptLeaves
        (.krr "GSSAPI provided additional data for the Client but base-64 encoding failed")
        ((ptrOf src).handles .buffer)
  | noPeer (src : Option Nat) (ctx : Nat) :
      AcceptLeaves (.krr "failed to retrieve peer data")
        ((ptrOf src).handles .buffer + {⟨.ctx, ctx⟩})
  | complete (src tgt : Option Nat) (k_src k_tgt : List UInt8) (timeRec : UInt32)
      (out_tkn : List UInt8) :
      AcceptLeaves (.accepted 1 k_src k_tgt timeRec none out_tkn)
        ((ptrOf tgt).handles .buffer + (ptrOf src).handles .buffer)
  /-- And nobody has the context, although there is a pointer. -/
  | more (src tgt : Option Nat) (ctx : Nat) (k_src k_tgt : List UInt8) (timeRec : UInt32)
      (out_tkn : List UInt8) :
      AcceptLeaves (.accepted 2 k_src k_tgt timeRec (some .frame) out_tkn)
        ((ptrOf tgt).handles .buffer + ((ptrOf src).handles .buffer + {⟨.ctx, ctx⟩}))

def acceptContract (live : Multiset Handle) : Contract PEmpty KResult (Multiset Handle) where
  ret res live' := exists left, AcceptLeaves res left ∧ live' = left + live
  wait s _ := s.elim
  goto s _ := s.elim
  stray _ := False

section Accept

variable {live now : Multiset Handle} {acc : ContextAnswer} {ctx : Nat}
  {k_src_name : List UInt8}

theorem meets_acceptWorkflow (hok : gssError acc.res = false) (hctx : acc.ctx = .heap ctx)
    (src tgt : Option Nat) (k_tgt_name k_out_tkn : List UInt8)
    (hnow : now = (ptrOf tgt).handles .buffer +
      ((ptrOf src).handles .buffer + {⟨.ctx, ctx⟩}) + live) :
    (acceptWorkflow acc k_src_name k_tgt_name k_out_tkn).Meets gssEffects (acceptContract live)
      now := by
  unfold acceptWorkflow
  by_cases hinfo : gssSupplementaryInfo acc.res = 0
  · rw [if_neg (not_not.mpr hinfo), if_pos (eq_complete_of_no_info hok hinfo), hctx]
    refine meets_deleteSecContext
      (R := (ptrOf tgt).handles .buffer + (ptrOf src).handles .buffer + live) ?_ ?_
    · rw [hnow]
      abel
    · exact ⟨_, .complete src tgt _ _ _ _, rfl⟩
  · rw [if_pos hinfo]
    exact ⟨_, .more src tgt ctx _ _ _ _, hnow⟩

theorem meets_acceptPeer (src : Option Nat) (hok : gssError acc.res = false)
    (hctx : acc.ctx = .heap ctx) (k_out_tkn : List UInt8)
    (hnow : now = (ptrOf src).handles .buffer + {⟨.ctx, ctx⟩} + live) :
    (acceptPeer acc k_src_name k_out_tkn).Meets gssEffects (acceptContract live) now := by
  have hmem : ⟨.ctx, ctx⟩ ∈ now := by
    rw [hnow]
    simp
  refine meets_create (allowed_one rfl (hctx ▸ hmem)) (fun _ => rfl) fun err _ => ?_
  rcases err with _ | ⟨tgt_name, ttl⟩
  · exact ⟨_, .noPeer src ctx, (zero_add now).trans hnow⟩
  · refine meets_displayName rfl (fun _ => trivial) fun buf txt => ?_
    refine meets_acceptWorkflow hok hctx src buf txt k_out_tkn ?_
    rw [hnow]
    abel

theorem meets_acceptReply (src : Option Nat) (hok : gssError acc.res = false)
    (hctx : acc.ctx = .heap ctx)
    (hout : forall n bytes, acc.outputToken = some (n, bytes) -> bytes ≠ [])
    (hnow : now = (ptrOf src).handles .buffer +
      ({⟨.ctx, ctx⟩} + acc.outputToken.handles) + live) :
    (acceptReply acc k_src_name acc.outputToken).Meets gssEffects (acceptContract live) now := by
  unfold acceptReply acceptToken
  rcases hcase : acc.outputToken with _ | ⟨value, bytes⟩
  · refine meets_acceptPeer src hok hctx [] ?_
    rw [hnow, hcase]
    exact congrArg (· + live) (congrArg _ (add_zero _))
  · have hne := hout value bytes hcase
    dsimp only
    rw [if_neg (mt List.length_eq_zero_iff.mp hne)]
    have hvalue : now =
        {⟨.buffer, value⟩} + ((ptrOf src).handles .buffer + {⟨.ctx, ctx⟩} + live) := by
      rw [hnow, hcase]
      change _ + (_ + {Handle.mk .buffer value}) + _ = _
      abel
    refine meets_quiet (allowed_none rfl) (fun _ => rfl) (fun _ => rfl) fun malloc => ?_
    refine meets_give (h := Handle.mk .buffer value) (allowed_one rfl (mem_of_eq_add hvalue))
      (fun _ => rfl) (fun _ => rfl) hvalue fun _ => ?_
    split
    · rw [mgDeleteCtxReturnErrXs, hctx]
      refine meets_deleteSecContext (R := (ptrOf src).handles .buffer + live) (by abel) ?_
      exact ⟨_, .noText src, rfl⟩
    · exact meets_acceptPeer src hok hctx _ rfl

theorem meets_acceptSecContext1 (input_token : List UInt8) :
    (mgAcceptSecContext1 .null input_token).Meets gssEffects (acceptContract live) live := by
  refine meets_create (allowed_one rfl trivial) (fun ans => ite_self 0) fun acc hdoc => ?_
  rcases hres : gssError acc.res with _ | _
  · rcases hdoc.made hres rfl with ⟨ctx, hctx⟩
    have hcreated : (GssCall.acceptSecContext .null input_token).created acc =
        {⟨.ctx, ctx⟩} + (ptrOf acc.srcName).handles .name + acc.outputToken.handles := by
      change acc.ctx.handles .ctx + _ + _ = _
      rw [hctx]
      rfl
    rw [hcreated, if_neg Bool.false_ne_true]
    refine meets_displayName (R := {⟨.ctx, ctx⟩} + acc.outputToken.handles + live) (by abel)
      (fun _ => trivial) fun buf k_src_name => ?_
    dsimp only
    rw [if_neg (fun h => h.right (no_protReady (hdoc.info hres)))]
    exact meets_acceptReply buf hres hctx hdoc.output (add_assoc _ _ _).symm
  · rcases hdoc.failed hres with ⟨hsrc, hctx⟩
    have hnull : acc.ctx = .null := hctx.elim id id
    have hcreated : (GssCall.acceptSecContext .null input_token).created acc =
        acc.outputToken.handles := by
      change acc.ctx.handles .ctx + (ptrOf acc.srcName).handles .name + _ = _
      rw [hnull, hsrc]
      exact zero_add _
    rw [hcreated, if_pos rfl, hnull]
    exact ⟨_, .failed _, rfl⟩

theorem meets_acceptSecContext (k_token : KArg) :
    (mgAcceptSecContext k_token).Meets gssEffects (acceptContract live) live := by
  have hrefused : forall msg, msg ∈ ["bad k_token.type", "failed in base64_decode\n"] ->
      (acceptContract live).ret (.krr msg) live :=
    fun msg hmsg => ⟨0, .refused msg hmsg, (zero_add live).symm⟩
  cases k_token with
  | chars token =>
      refine meets_decodeToken (hrefused _ (by decide)) fun vec => ?_
      split
      · exact hrefused _ (by decide)
      · exact meets_acceptSecContext1 vec
  | _ => exact hrefused _ (by decide)

end Accept

/-!
## The initiator
-/

def InitDict.handles (d : InitDict) : Multiset Handle :=
  d.credHandle.handles .cred + d.contextHandle.handles .ctx + d.tgtName.handles .name

structure InitDict.Whole (d : InitDict) : Prop where
  cred : exists n, d.credHandle = .heap n
  name : exists n, d.tgtName = .heap n
  ctx : d.contextHandle ≠ .frame

def InitDict.Makes (d : InitDict) (ctx : Nat) : Prop :=
  d.contextHandle = .null ∨ d.contextHandle = .heap ctx

inductive InitLeaves (d : InitDict) : KResult -> Multiset Handle -> Prop where
  | failed (output : Option Nat) :
      InitLeaves d (.krr "failed when continuing gss_init_sec_context")
        (d.handles + (ptrOf output).handles .buffer)
  /-- The library has deleted the context. -/
  | deleted (output : Option Nat) :
      InitLeaves d (.krr "failed when continuing gss_init_sec_context")
        ({ d with contextHandle := .null }.handles + (ptrOf output).handles .buffer)
  | noPeer (ctx : Nat) (hctx : d.Makes ctx) (output : Option Nat) :
      InitLeaves d (.krr "failed in inquire-service")
        ({ d with contextHandle := .heap ctx }.handles + (ptrOf output).handles .buffer)
  | noText (ctx : Nat) (hctx : d.Makes ctx) (output : Nat) (peer : Option Nat) :
      InitLeaves d (.krr "failed in base64_encode")
        ({ d with contextHandle := .heap ctx }.handles + {⟨.buffer, output⟩} +
          (ptrOf peer).handles .buffer)
  | more (ctx : Nat) (hctx : d.Makes ctx) (peer : Option Nat) (k_peer : Option (List UInt8))
      (token : List UInt8) (ttl : UInt32) :
      InitLeaves d (.initMore k_peer { d with contextHandle := .heap ctx } token ttl)
        ({ d with contextHandle := .heap ctx }.handles + (ptrOf peer).handles .buffer)
  | complete (peer : Option Nat) (k_peer : Option (List UInt8)) (token : List UInt8) :
      InitLeaves d (.initDone k_peer token) ((ptrOf peer).handles .buffer)

def initContract (Leaves : KResult -> Multiset Handle -> Prop) (live : Multiset Handle) :
    Contract PEmpty KResult (Multiset Handle) where
  ret res live' := exists left, Leaves res left ∧ live' = left + live
  wait s _ := s.elim
  goto s _ := s.elim
  stray _ := False

section Init

variable {live now : Multiset Handle} {d : InitDict} {ini : ContextAnswer} {ctx : Nat}

theorem meets_initWorkflow (hd : d.Whole) (hctx : d.Makes ctx) (res : UInt32)
    (peer : Option Nat) (k_peer_name : Option (List UInt8)) (k_token : List UInt8) (ttl : UInt32)
    (hnow : now = { d with contextHandle := .heap ctx }.handles +
      (ptrOf peer).handles .buffer + live) :
    (initWorkflow { d with contextHandle := .heap ctx } res k_peer_name k_token ttl).Meets
      gssEffects (initContract (InitLeaves d) live) now := by
  unfold initWorkflow
  split
  · exact ⟨_, .more ctx hctx peer _ _ _, hnow⟩
  · rcases hd.cred with ⟨cred, hcred⟩
    rcases hd.name with ⟨name, hname⟩
    have hlive : now = {⟨.cred, cred⟩} +
        ({⟨.name, name⟩} + ({⟨.ctx, ctx⟩} + ((ptrOf peer).handles .buffer + live))) := by
      rw [hnow, InitDict.handles, hcred, hname]
      simp only [Pointer.handles]
      abel
    dsimp only
    rw [hcred, hname]
    refine meets_give (allowed_one rfl (mem_of_eq_add hlive)) (fun _ => rfl) (fun _ => rfl) hlive
      fun _ => ?_
    refine meets_give (allowed_one rfl (mem_of_eq_add rfl)) (fun _ => rfl) (fun _ => rfl) rfl
      fun _ => ?_
    exact meets_deleteSecContext rfl ⟨_, .complete peer _ _, rfl⟩

theorem meets_initReply (hd : d.Whole) (hctx : d.Makes ctx) (hini : ini.ctx = .heap ctx)
    (hout : forall n bytes, ini.outputToken = some (n, bytes) -> bytes ≠ [])
    (peer : Option Nat) (k_peer_name : Option (List UInt8)) (ttl : UInt32)
    (hnow : now = (ptrOf peer).handles .buffer +
      ({ d with contextHandle := .heap ctx }.handles + ini.outputToken.handles + live)) :
    (initToken ini.outputToken fun k_token =>
      mgReleaseBuffer ini.outputToken
        (initWorkflow { d with contextHandle := ini.ctx } ini.res k_peer_name k_token ttl)).Meets
      gssEffects (initContract (InitLeaves d) live) now := by
  rw [hini]
  rcases hcase : ini.outputToken with _ | ⟨value, bytes⟩
  · refine meets_initWorkflow hd hctx _ peer _ _ _ ?_
    rw [hnow, hcase]
    change _ + (_ + 0 + _) = _
    rw [add_zero]
    abel
  · have hne := hout value bytes hcase
    have hvalue : now = {⟨.buffer, value⟩} + ({ d with contextHandle := .heap ctx }.handles +
        (ptrOf peer).handles .buffer + live) := by
      rw [hnow, hcase]
      change _ + (_ + {Handle.mk .buffer value} + _) = _
      abel
    unfold initToken
    dsimp only
    rw [if_neg (mt List.length_eq_zero_iff.mp hne)]
    refine meets_quiet (allowed_none rfl) (fun _ => rfl) (fun _ => rfl) fun malloc => ?_
    split
    · refine ⟨_, .noText ctx hctx value peer, ?_⟩
      rw [hvalue]
      abel
    · refine meets_give (allowed_one rfl (mem_of_eq_add hvalue)) (fun _ => rfl) (fun _ => rfl)
        hvalue fun _ => ?_
      exact meets_initWorkflow hd hctx _ peer _ _ _ rfl

theorem after_initSecContext (hd : d.Whole) (input_token : Option (List UInt8))
    (hdoc : ini.Documented d.contextHandle) (hres : gssError ini.res = false)
    (hnow : now = d.handles + live) :
    exists ctx, d.Makes ctx ∧ ini.ctx = .heap ctx ∧
      gssEffects.after now (.initSecContext d.credHandle d.contextHandle d.tgtName input_token
        d.reqFlags) ini =
        { d with contextHandle := .heap ctx }.handles + ini.outputToken.handles + live := by
  have hafter : gssEffects.after now (.initSecContext d.credHandle d.contextHandle d.tgtName
      input_token d.reqFlags) ini =
      ini.newContext d.contextHandle + ini.outputToken.handles +
        (now - ini.deleted d.contextHandle) := rfl
  rw [hafter]
  rcases hbefore : d.contextHandle with _ | x | _
  · rcases hdoc.made hres hbefore with ⟨ctx, hctx⟩
    refine ⟨ctx, Or.inl hbefore, hctx, ?_⟩
    rw [ContextAnswer.newContext, if_pos rfl, ContextAnswer.deleted, hctx, hnow, InitDict.handles,
      InitDict.handles, hbefore]
    simp only [Pointer.handles, reduceCtorEq, if_false, tsub_zero, add_zero]
    abel
  · have hne : d.contextHandle ≠ .null := fun h => Pointer.noConfusion (hbefore.symm.trans h)
    have hctx : ini.ctx = .heap x := (hdoc.kept hres hne).trans hbefore
    have hsame : { d with contextHandle := .heap x } = d := by rw [<- hbefore]
    refine ⟨x, Or.inr hbefore, hctx, ?_⟩
    rw [ContextAnswer.newContext, if_neg Pointer.noConfusion, ContextAnswer.deleted, hctx, hnow,
      hsame]
    simp only [reduceCtorEq, if_false, tsub_zero, zero_add]
    abel
  · exact absurd hbefore hd.ctx

theorem leaves_failed {input_token : Option (List UInt8)}
    (hdoc : ini.Documented d.contextHandle) (hres : gssError ini.res = true)
    (hnow : now = d.handles + live) :
    exists left, InitLeaves d (.krr "failed when continuing gss_init_sec_context") left ∧
      gssEffects.after now (.initSecContext d.credHandle d.contextHandle d.tgtName input_token
        d.reqFlags) ini = left + live := by
  have hafter : gssEffects.after now (.initSecContext d.credHandle d.contextHandle d.tgtName
      input_token d.reqFlags) ini =
      ini.newContext d.contextHandle + ini.outputToken.handles +
        (now - ini.deleted d.contextHandle) := rfl
  have hkept : ini.ctx = d.contextHandle ->
      ini.newContext d.contextHandle = 0 ∧ ini.deleted d.contextHandle = 0 := by
    intro hctx
    rw [ContextAnswer.newContext, ContextAnswer.deleted, hctx]
    cases d.contextHandle with
    | null => exact ⟨rfl, rfl⟩
    | heap x => exact ⟨rfl, rfl⟩
    | frame => exact ⟨rfl, rfl⟩
  by_cases hctx : ini.ctx = d.contextHandle
  · refine ⟨_, .failed (ini.outputToken.map Prod.fst), ?_⟩
    rw [hafter, (hkept hctx).left, (hkept hctx).right, hnow, tsub_zero, zero_add, Output.handles]
    abel
  · have hnull : ini.ctx = .null := (hdoc.failed hres).right.resolve_left hctx
    have hne : d.contextHandle ≠ .null := fun h => hctx (hnull.trans h.symm)
    refine ⟨_, .deleted (ini.outputToken.map Prod.fst), ?_⟩
    have hsplit : d.handles + live =
        d.contextHandle.handles .ctx + ({ d with contextHandle := .null }.handles + live) := by
      rw [InitDict.handles, InitDict.handles]
      simp only [Pointer.handles, add_zero]
      abel
    rw [hafter, ContextAnswer.newContext, if_neg hne, ContextAnswer.deleted, if_pos hnull, hnow,
      hsplit, add_tsub_cancel_left, zero_add, Output.handles]
    abel

theorem meets_initSecContext1 (hd : d.Whole)
    (hlive : d.contextHandle.Live (d.handles + live) .ctx)
    (input_token : Option (List UInt8)) :
    (mgInitSecContext1 d input_token).Meets gssEffects (initContract (InitLeaves d) live)
      (d.handles + live) := by
  have hallowed : gssEffects.Allowed (d.handles + live) (.initSecContext d.credHandle
      d.contextHandle d.tgtName input_token d.reqFlags) := by
    rcases hd.cred with ⟨cred, hcred⟩
    rcases hd.name with ⟨name, hname⟩
    intro u hu
    simp only [GssCall.uses, List.mem_cons, List.not_mem_nil, or_false] at hu
    rcases hu with rfl | rfl | rfl
    · simp [hcred, Pointer.Live, InitDict.handles, Pointer.handles]
    · exact hlive
    · simp [hname, Pointer.Live, InitDict.handles, Pointer.handles]
  refine Segment.meets_call hallowed fun ini hans => ?_
  have hdoc : ini.Documented d.contextHandle := hans.left.right
  rcases hres : gssError ini.res with _ | _
  · rcases after_initSecContext hd input_token hdoc hres rfl with
      ⟨ctx, hmakes, hctx, hafter⟩
    rw [hafter, if_neg Bool.false_ne_true]
    have hmem : ini.ctx.Live ({ d with contextHandle := .heap ctx }.handles +
        ini.outputToken.handles + live) .ctx := by
      rw [hctx]
      simp [Pointer.Live, InitDict.handles, Pointer.handles]
    refine meets_create (allowed_one rfl hmem) (fun _ => rfl) fun err _ => ?_
    rcases err with _ | ⟨peer_name, ttl⟩
    · exact ⟨_, .noPeer ctx hmakes (ini.outputToken.map Prod.fst), zero_add _⟩
    · refine meets_displayName rfl (fun hnone => ?_) fun buf txt => ?_
      · exact meets_initReply hd hmakes hctx hdoc.output none none ttl (zero_add _).symm
      · exact meets_initReply hd hmakes hctx hdoc.output buf (some txt) ttl rfl
  · rw [if_pos rfl]
    exact leaves_failed hdoc hres rfl

end Init

inductive StartLeaves : KResult -> Multiset Handle -> Prop where
  | refused (msg : String) (h : msg ∈ ["Bad k_src_name.type", "Bad k_tgt_name.type",
      "failed to import tgt_name", "failed to acquire credentials",
      "failed to acquire credentials for source principal"]) : StartLeaves (.krr msg) 0
  /-- Nobody releases the credentials when there is no name for the service. -/
  | noTarget (cred : Nat) (msg : String)
      (h : msg ∈ ["failed to import tgt_name", "failed to resolve target service"]) :
      StartLeaves (.krr msg) {⟨.cred, cred⟩}
  | started (d : InitDict) (hd : d.Whole) (hctx : d.contextHandle = .null) (res : KResult)
      (left : Multiset Handle) (h : InitLeaves d res left) : StartLeaves res left

inductive ContLeaves (d : InitDict) : KResult -> Multiset Handle -> Prop where
  | refused (msg : String) (h : msg ∈ ["bad token.type", "failed to decode input-token"]) :
      ContLeaves d (.krr msg) d.handles
  | continued (res : KResult) (left : Multiset Handle) (h : InitLeaves d res left) :
      ContLeaves d res left

section Entry

variable {live : Multiset Handle}

theorem meets_weaken {Leaves Leaves' : KResult -> Multiset Handle -> Prop}
    (h : forall res left, Leaves res left -> Leaves' res left) {seg : Code}
    {now : Multiset Handle} (hseg : seg.Meets gssEffects (initContract Leaves live) now) :
    seg.Meets gssEffects (initContract Leaves' live) now := by
  refine Segment.Meets.imp (P := initContract Leaves live) (Q := initContract Leaves' live) ?_
    (fun s _ => s.elim) (fun s _ => s.elim) (fun _ hno => hno) seg now hseg
  rintro res live' ⟨left, hleft, rfl⟩
  exact ⟨left, h res left hleft, rfl⟩

theorem meets_initWithCred (k_tgt_name : List UInt8) (cred : Nat) :
    (initWithCred k_tgt_name (.heap cred)).Meets gssEffects (initContract StartLeaves live)
      ({⟨.cred, cred⟩} + live) := by
  refine meets_create (allowed_none rfl) (fun _ => rfl) fun res _ => ?_
  rcases res with _ | _ | name
  · exact ⟨_, .noTarget cred _ (by decide), zero_add _⟩
  · exact ⟨_, .noTarget cred _ (by decide), zero_add _⟩
  · let d : InitDict := ⟨.heap cred, .null, .heap name, defaultReqFlags⟩
    have hd : d.Whole := ⟨⟨cred, rfl⟩, ⟨name, rfl⟩, Pointer.noConfusion⟩
    have hnow : {⟨.name, name⟩} + ({⟨.cred, cred⟩} + live) = d.handles + live := by
      simp only [d, InitDict.handles, Pointer.handles]
      abel
    change (mgInitSecContext1 d none).Meets gssEffects (initContract StartLeaves live)
      ({⟨.name, name⟩} + ({⟨.cred, cred⟩} + live))
    rw [hnow]
    refine meets_weaken (fun res left h => ?_) (meets_initSecContext1 hd trivial none)
    exact .started d hd rfl res left h

theorem meets_initSecContext (k_src_name k_tgt_name : KArg) :
    (mgInitSecContext k_src_name k_tgt_name).Meets gssEffects (initContract StartLeaves live)
      live := by
  have hrefused : forall msg, msg ∈ ["Bad k_src_name.type", "Bad k_tgt_name.type",
      "failed to import tgt_name", "failed to acquire credentials",
      "failed to acquire credentials for source principal"] ->
      (initContract StartLeaves live).ret (.krr msg) live :=
    fun msg hmsg => ⟨0, .refused msg hmsg, (zero_add live).symm⟩
  rcases k_src_name with src_name | _ | _ | _
  · rcases k_tgt_name with tgt_name | _ | _ | _
    · refine meets_create (allowed_none rfl) (fun _ => rfl) fun res _ => ?_
      rcases res with _ | _ | name
      · exact ⟨0, .refused _ (by decide), rfl⟩
      · exact ⟨0, .refused _ (by decide), rfl⟩
      · have hmem : ⟨.name, name⟩ ∈ ({⟨.name, name⟩} + live : Multiset Handle) :=
          mem_of_eq_add rfl
        refine meets_create (allowed_one rfl hmem) (fun _ => rfl) fun res _ => ?_
        rcases res with _ | _ | cred
        · refine meets_give (R := live) (allowed_one rfl (mem_of_eq_add (zero_add _)))
            (fun _ => rfl) (fun _ => rfl) (zero_add _) fun _ => ?_
          exact hrefused _ (by decide)
        · refine meets_give (R := live) (allowed_one rfl (mem_of_eq_add (zero_add _)))
            (fun _ => rfl) (fun _ => rfl) (zero_add _) fun _ => ?_
          exact hrefused _ (by decide)
        · have hlive : {⟨.cred, cred⟩} + ({⟨.name, name⟩} + live) =
              ({⟨.name, name⟩} + ({⟨.cred, cred⟩} + live) : Multiset Handle) := by abel
          refine meets_give (allowed_one rfl (mem_of_eq_add hlive)) (fun _ => rfl) (fun _ => rfl)
            hlive fun _ => ?_
          exact meets_initWithCred tgt_name cred
    · exact hrefused _ (by decide)
    · exact hrefused _ (by decide)
    · exact hrefused _ (by decide)
  · exact hrefused _ (by decide)
  · exact hrefused _ (by decide)
  · exact hrefused _ (by decide)

theorem importDict_whole (d : InitDict) (k : InitDict -> Code) :
    importDict [("cred_handle", .pointer d.credHandle),
      ("context_handle", .pointer d.contextHandle), ("tgt_name", .pointer d.tgtName),
      ("req_flags", .int d.reqFlags)] ⟨.null, .null, .null, 0⟩ k = k d := by
  simp [importDict]

theorem meets_initSecContextCont {d : InitDict} (hd : d.Whole)
    (hctx : d.contextHandle.Live (d.handles + live) .ctx) (k_token : KArg) :
    (mgInitSecContextCont (mgInitCtxPointersToDict d) k_token).Meets gssEffects
      (initContract (ContLeaves d) live) (d.handles + live) := by
  have hrefused : forall msg, msg ∈ ["bad token.type", "failed to decode input-token"] ->
      (initContract (ContLeaves d) live).ret (.krr msg) (d.handles + live) :=
    fun msg hmsg => ⟨d.handles, .refused msg hmsg, rfl⟩
  rcases k_token with token | _ | _ | _
  · change (ite _ _ _ : Code).Meets _ _ _
    split
    · exact hrefused _ (by decide)
    · rw [importDict_whole]
      refine meets_decodeToken (hrefused _ (by decide)) fun vec => ?_
      exact meets_weaken (fun res left h => .continued res left h)
        (meets_initSecContext1 hd hctx (some vec))
  · exact hrefused _ (by decide)
  · exact hrefused _ (by decide)
  · exact hrefused _ (by decide)

end Entry

/-!
## Results
-/

theorem nodup_of_ends {seg : Code} {live live' : Multiset Handle} {res : KResult}
    (h : seg.Ends gssEffects live res live') (hnodup : live.Nodup) : live'.Nodup := by
  induction h with
  | ret a r => exact hnodup
  | @call c k r r' a ans hallowed hans h ih =>
      refine ih (Multiset.nodup_add.mpr ⟨hans.right.left, ?_, ?_⟩)
      · exact Multiset.nodup_of_le (Multiset.sub_le_self _ _) hnodup
      · exact hans.right.right.mono_right (Multiset.sub_le_self _ _)

end Gss
end MgKdb
