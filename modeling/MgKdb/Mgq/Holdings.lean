import Mathlib.Data.Fintype.EquivFin
import MgKdb.Mgq.Krb

/-!
# What the table of connections has

Over any run, what a row has is live and its own, and what no row keeps is never given back.
-/

namespace MgKdb
namespace Krb

open Foundation
open Gss
open Base64

def Conn.handles (row : Conn) : Multiset Handle :=
  match row.ctx with
  | none => 0
  | some d => if row.deleted then { d with contextHandle := .null }.handles else d.handles

def State.Has (s : State) (fd : Option Int) (h : Handle) : Prop :=
  exists row, s.conns.lookup fd = some row ∧ h ∈ row.handles

def State.Keeps (s : State) (fd : Option Int) (h : Handle) : Prop :=
  exists row, s.conns.lookup fd = some row ∧ row.deleted = false ∧ h ∈ row.handles

theorem State.Keeps.has {s : State} {fd : Option Int} {h : Handle} (hkeeps : s.Keeps fd h) :
    s.Has fd h := by
  rcases hkeeps with ⟨row, hrow, _, hmem⟩
  exact ⟨row, hrow, hmem⟩

/-- A dictionary in the table has all its pointers, and is that of a connection that was opened. -/
def Conn.Whole (fd : Option Int) (row : Conn) : Prop :=
  forall d, row.ctx = some d ->
    d.Whole ∧ (exists n, d.contextHandle = .heap n) ∧ row.dir = some .O ∧ exists cfd, fd = some cfd

structure Sound (s : State) : Prop where
  nodup : s.live.Nodup
  whole : forall fd row, s.conns.lookup fd = some row -> row.Whole fd
  owned : forall fd h, s.Has fd h -> h ∈ s.live
  apart : forall fd fd' h, s.Has fd h -> s.Has fd' h -> fd = fd'

/--
A step in which one row has `used` before, and `left` is what it, or nobody, has
afterwards.
-/
structure Exchange (s s' : State) (fd : Option Int) (used left base : Multiset Handle) : Prop where
  before : s.live = used + base
  after : s'.live = left + base
  nodup : s'.live.Nodup
  keeps : forall h, h ∈ used -> s.Keeps fd h
  others : forall fd', fd' ≠ fd -> s'.conns.lookup fd' = s.conns.lookup fd'
  mine : forall row, s'.conns.lookup fd = some row ->
    row.Whole fd ∧ row.handles ⊆ left ∨ used = 0 ∧ s.conns.lookup fd = some row

section Exchange

variable {s s' : State} {fd : Option Int} {used left base : Multiset Handle}

theorem Exchange.stays (hx : Exchange s s' fd used left base) {h : Handle} (hlive : h ∈ s.live)
    (hunused : h ∉ used) : h ∈ base := by
  rw [hx.before] at hlive
  exact (Multiset.mem_add.mp hlive).resolve_left hunused

theorem Exchange.not_left (hx : Exchange s s' fd used left base) {h : Handle} (hbase : h ∈ base) :
    h ∉ left := by
  have hnodup := hx.nodup
  rw [hx.after] at hnodup
  have hapart := (Multiset.nodup_add.mp hnodup).right.right
  exact fun hleft => Multiset.disjoint_left.mp hapart hleft hbase

theorem Exchange.has_other (hx : Exchange s s' fd used left base) {fd' : Option Int} {h : Handle}
    (hne : fd' ≠ fd) (hhas : s'.Has fd' h) : s.Has fd' h := by
  rcases hhas with ⟨row, hrow, hmem⟩
  exact ⟨row, (hx.others fd' hne).symm.trans hrow, hmem⟩

theorem Exchange.has_mine (hx : Exchange s s' fd used left base) {h : Handle}
    (hhas : s'.Has fd h) : h ∈ left ∨ h ∉ used ∧ s.Has fd h := by
  rcases hhas with ⟨row, hrow, hmem⟩
  rcases hx.mine row hrow with ⟨_, hsub⟩ | ⟨hused, hold⟩
  · exact Or.inl (hsub hmem)
  · exact Or.inr ⟨hused ▸ Multiset.notMem_zero h, row, hold, hmem⟩

theorem Sound.exchange (hs : Sound s) (hx : Exchange s s' fd used left base) : Sound s' := by
  have hother : forall fd' h, fd' ≠ fd -> s'.Has fd' h -> h ∈ base := by
    intro fd' h hne hhas
    have hold := hx.has_other hne hhas
    refine hx.stays (hs.owned fd' h hold) fun hused => hne ?_
    exact hs.apart fd' fd h hold (hx.keeps h hused).has
  have hmine : forall h, s'.Has fd h -> h ∈ left ∨ h ∈ base ∧ s.Has fd h := by
    intro h hhas
    rcases hx.has_mine hhas with hleft | ⟨hunused, hold⟩
    · exact Or.inl hleft
    · exact Or.inr ⟨hx.stays (hs.owned fd h hold) hunused, hold⟩
  have hapart : forall fd' h, fd' ≠ fd -> s'.Has fd' h -> ¬ s'.Has fd h := by
    intro fd' h hne hhas hfd
    rcases hmine h hfd with hleft | ⟨_, hold⟩
    · exact hx.not_left (hother fd' h hne hhas) hleft
    · exact hne (hs.apart fd' fd h (hx.has_other hne hhas) hold)
  refine ⟨hx.nodup, fun fd' row hrow => ?_, fun fd' h hhas => ?_, fun fd' fd'' h hhas hhas' => ?_⟩
  · by_cases hfd : fd' = fd
    · subst hfd
      exact (hx.mine row hrow).elim And.left fun hold => hs.whole fd' row hold.right
    · exact hs.whole fd' row ((hx.others fd' hfd).symm.trans hrow)
  · rw [hx.after, Multiset.mem_add]
    by_cases hfd : fd' = fd
    · subst hfd
      exact (hmine h hhas).imp id And.left
    · exact Or.inr (hother fd' h hfd hhas)
  · by_cases hfd : fd' = fd
    · subst hfd
      by_contra hne
      exact hapart fd'' h (Ne.symm hne) hhas' hhas
    · by_cases hfd' : fd'' = fd
      · subst hfd'
        exact absurd hhas' (hapart fd' h hfd hhas)
      · exact hs.apart fd' fd'' h (hx.has_other hfd hhas) (hx.has_other hfd' hhas')

theorem Exchange.lost (hx : Exchange s s' fd used left base) {h : Handle} (hlive : h ∈ s.live)
    (hnone : forall fd, ¬ s.Keeps fd h) : h ∈ s'.live ∧ forall fd, ¬ s'.Keeps fd h := by
  have hbase : h ∈ base := hx.stays hlive fun hused => hnone fd (hx.keeps h hused)
  refine ⟨?_, fun fd' hkeeps => ?_⟩
  · rw [hx.after]
    exact Multiset.mem_add.mpr (Or.inr hbase)
  · rcases hkeeps with ⟨row, hrow, hkept, hmem⟩
    by_cases hfd : fd' = fd
    · subst hfd
      rcases hx.mine row hrow with ⟨_, hsub⟩ | ⟨_, hold⟩
      · exact hx.not_left hbase (hsub hmem)
      · exact hnone fd' ⟨row, hold, hkept, hmem⟩
    · exact hnone fd' ⟨row, (hx.others fd' hfd).symm.trans hrow, hkept, hmem⟩

theorem State.keeps_zero (s : State) (fd : Option Int) (h : Handle)
    (hused : h ∈ (0 : Multiset Handle)) : s.Keeps fd h :=
  absurd hused (Multiset.notMem_zero h)

theorem exchange_same {live' : Multiset Handle} (fd : Option Int) (hafter : live' = left + s.live)
    (hnodup : live'.Nodup) : Exchange s ⟨s.conns, live'⟩ fd 0 left s.live where
  before := (zero_add s.live).symm
  after := hafter
  nodup := hnodup
  keeps := s.keeps_zero fd
  others _ _ := rfl
  mine _ hrow := Or.inr ⟨rfl, hrow⟩

theorem exchange_upsert {row : Conn} {live' : Multiset Handle} (hbefore : s.live = used + base)
    (hafter : live' = left + base) (hnodup : live'.Nodup)
    (hkeeps : forall h, h ∈ used -> s.Keeps fd h)
    (hwhole : row.Whole fd) (hleft : row.handles ⊆ left) :
    Exchange s ⟨s.conns.upsert fd row, live'⟩ fd used left base where
  before := hbefore
  after := hafter
  nodup := hnodup
  keeps := hkeeps
  others fd' hne := (Keyed.lookup_upsert s.conns fd fd' row).trans (if_neg hne)
  mine row' hrow := by
    rw [Keyed.lookup_upsert, if_pos rfl] at hrow
    cases hrow
    exact Or.inl ⟨hwhole, hleft⟩

theorem exchange_delete {live' : Multiset Handle} (hafter : live' = left + s.live)
    (hnodup : live'.Nodup) : Exchange s ⟨s.conns.delete fd, live'⟩ fd 0 left s.live where
  before := (zero_add s.live).symm
  after := hafter
  nodup := hnodup
  keeps := s.keeps_zero fd
  others fd' hne := (Keyed.lookup_delete s.conns fd fd').trans (if_neg hne)
  mine row hrow := by
    rw [Keyed.lookup_delete, if_pos rfl] at hrow
    cases hrow

end Exchange

/-!
## Steps
-/

section Steps

variable {s s' : State}

theorem Pointer.kind_of_mem {kind : Kind} {ptr : Pointer} {h : Handle}
    (hmem : h ∈ ptr.handles kind) : h.kind = kind := by
  cases ptr with
  | heap n => exact congrArg Handle.kind (Multiset.mem_singleton.mp hmem)
  | null => exact absurd hmem (Multiset.notMem_zero h)
  | frame => exact absurd hmem (Multiset.notMem_zero h)

theorem nodup_handles (d : InitDict) : d.handles.Nodup := by
  have hptr : forall (kind : Kind) (ptr : Pointer), (ptr.handles kind).Nodup := by
    intro kind ptr
    cases ptr with
    | heap n => exact Multiset.nodup_singleton _
    | null => exact Multiset.nodup_zero
    | frame => exact Multiset.nodup_zero
  have hapart : forall (kind kind' : Kind) (ptr ptr' : Pointer), kind ≠ kind' ->
      Disjoint (ptr.handles kind) (ptr'.handles kind') := by
    intro kind kind' ptr ptr' hne
    refine Multiset.disjoint_left.mpr ?_
    intro h hmem hmem'
    exact hne ((Pointer.kind_of_mem hmem).symm.trans (Pointer.kind_of_mem hmem'))
  refine Multiset.nodup_add.mpr ⟨Multiset.nodup_add.mpr ⟨hptr _ _, hptr _ _, ?_⟩, hptr _ _, ?_⟩
  · exact hapart _ _ _ _ (by decide)
  · refine Multiset.disjoint_add_left.mpr ⟨?_, ?_⟩
    · exact hapart _ _ _ _ (by decide)
    · exact hapart _ _ _ _ (by decide)

theorem subset_left (x y : Multiset Handle) : x ⊆ x + y :=
  Multiset.subset_of_le (Multiset.le_add_right x y)

theorem Conn.ctxArg_of_none {row : Conn} (hctx : row.ctx = none) : row.ctxArg = .other := by
  rw [Conn.ctxArg, hctx]

theorem Conn.ctxArg_of_some {row : Conn} {d : InitDict} (hctx : row.ctx = some d) :
    row.ctxArg = mgInitCtxPointersToDict d := by
  rw [Conn.ctxArg, hctx]

theorem Conn.handles_of_none {row : Conn} (hctx : row.ctx = none) : row.handles = 0 := by
  rw [Conn.handles, hctx]

theorem Conn.handles_of_kept {row : Conn} {d : InitDict} (hctx : row.ctx = some d)
    (hkept : row.deleted = false) : row.handles = d.handles := by
  simp [Conn.handles, hctx, hkept]

theorem Conn.handles_subset {row : Conn} {d : InitDict} (hctx : row.ctx = some d) :
    row.handles ⊆ d.handles := by
  rw [Conn.handles, hctx]
  dsimp only
  split
  · intro h hmem
    simp only [InitDict.handles, Multiset.mem_add, Pointer.handles] at hmem ⊢
    tauto
  · exact fun _ => id

theorem Conn.whole_of_none {fd : Option Int} {row : Conn} (hctx : row.ctx = none) :
    row.Whole fd := by
  intro d hd
  rw [hctx] at hd
  cases hd

/-- A row has the credentials and the name of its dictionary, whatever has become of the context. -/
theorem Conn.subset_handles {row : Conn} {d : InitDict} (hctx : row.ctx = some d) :
    d.handles ⊆ d.contextHandle.handles .ctx + row.handles := by
  intro h hmem
  rw [Conn.handles, hctx]
  dsimp only
  split
  · simp only [InitDict.handles, Multiset.mem_add] at hmem ⊢
    tauto
  · exact Multiset.mem_add.mpr (Or.inr hmem)

section Row

variable {fd : Option Int} {row : Conn} {d : InitDict}

theorem Sound.context_live (hs : Sound s) (hrow : s.conns.lookup fd = some row)
    (hctx : row.ctx = some d) (hkept : row.deleted = false) :
    d.contextHandle.Live s.live .ctx := by
  rcases hs.whole fd row hrow d hctx with ⟨_, ⟨n, hheap⟩, _⟩
  rw [hheap]
  refine hs.owned fd ⟨.ctx, n⟩ ⟨row, hrow, ?_⟩
  rw [Conn.handles_of_kept hctx hkept, InitDict.handles, hheap]
  simp [Pointer.handles]

theorem Sound.splits (hs : Sound s) (hrow : s.conns.lookup fd = some row)
    (hctx : row.ctx = some d) (hlive : d.contextHandle.Live s.live .ctx) :
    exists base, s.live = d.handles + base := by
  refine Multiset.le_iff_exists_add.mp ?_
  refine (Multiset.le_iff_subset (nodup_handles d)).mpr fun h hmem => ?_
  rcases hs.whole fd row hrow d hctx with ⟨_, ⟨n, hheap⟩, _⟩
  rcases Multiset.mem_add.mp (Conn.subset_handles hctx hmem) with hcontext | hhas
  · rw [hheap] at hcontext hlive
    rw [Multiset.mem_singleton.mp hcontext]
    exact hlive
  · exact hs.owned fd h ⟨row, hrow, hhas⟩

end Row

/-!
### Opening a connection
-/

theorem started_more {peer : Option (List UInt8)} {d : InitDict} {token : List UInt8} {ttl : UInt32}
    {left : Multiset Handle} (h : StartLeaves (.initMore peer d token ttl) left) :
    d.Whole ∧ (exists n, d.contextHandle = .heap n) ∧ d.handles ⊆ left := by
  cases h with
  | started d' hd _ _ _ h =>
      cases h with
      | more ctx _ buf _ _ _ =>
          refine ⟨⟨hd.cred, hd.name, Pointer.noConfusion⟩, ⟨ctx, rfl⟩, ?_⟩
          exact subset_left _ _

theorem kopen_exchange (hs : Sound s) (S T : List UInt8) (hopen : List UInt8 -> Option Int)
    {res : KResult} {live' : Multiset Handle}
    (hends : (mgInitSecContext (.chars S) (.chars T)).Ends gssEffects s.live res live') :
    exists fd left, Exchange s ⟨kopen s.conns S T hopen res, live'⟩ fd 0 left s.live := by
  have hnodup := nodup_of_ends hends hs.nodup
  rcases (@meets_initSecContext s.live (.chars S) (.chars T)).ends hends with ⟨left, hleft, hafter⟩
  have hsame : exists fd left, Exchange s ⟨s.conns, live'⟩ fd 0 left s.live :=
    ⟨none, left, exchange_same none hafter hnodup⟩
  cases res with
  | initMore peer d token ttl =>
      rcases started_more hleft with ⟨hwhole, hheap, hsub⟩
      dsimp only [kopen]
      cases hopen token with
      | none => exact hsame
      | some rfd =>
          refine ⟨some rfd, left,
            exchange_upsert (zero_add s.live).symm hafter hnodup (s.keeps_zero _) ?_ ?_⟩
          · rintro d' ⟨⟩
            exact ⟨hwhole, hheap, rfl, rfd, rfl⟩
          · exact hsub
  | krr msg => exact hsame
  | accepted workflow srcName tgtName timeRec ctx outTkn => exact hsame
  | initDone peer token => exact hsame

/-!
### The token of the peer
-/

theorem remoteId_ctx {row : Conn} {live : Multiset Handle} {res : KResult} {d : InitDict}
    (h : (remoteId row live res).ctx = some d) : row.ctx = some d := by
  unfold remoteId at h
  split at h
  · cases h
  · split at h
    · exact h
    · exact h
  · exact h

theorem remoteId_dir (row : Conn) (live : Multiset Handle) (res : KResult) :
    (remoteId row live res).dir = row.dir := by
  unfold remoteId
  split
  · rfl
  · split
    · rfl
    · rfl
  · rfl

theorem remoteId_whole {fd : Option Int} {row : Conn} {live : Multiset Handle} {res : KResult}
    (h : row.Whole fd) : (remoteId row live res).Whole fd := by
  intro d hd
  rw [remoteId_dir]
  exact h d (remoteId_ctx hd)

theorem makes_same {d : InitDict} {ctx n : Nat} (hmakes : d.Makes ctx)
    (hheap : d.contextHandle = .heap n) : { d with contextHandle := .heap ctx } = d := by
  rcases hmakes with hnull | hctx
  · exact Pointer.noConfusion (hheap.symm.trans hnull)
  · rw [<- hctx]

theorem remoteId_krr {row : Conn} {d : InitDict} {live : Multiset Handle} {msg : String}
    (hctx : row.ctx = some d) :
    remoteId row live (.krr msg) =
      { row with deleted := !decide (d.contextHandle.handles .ctx ≤ live) } := by
  rw [remoteId, hctx]

theorem deleted_context {d : InitDict} {n : Nat} {base : Multiset Handle} {buf : Option Nat}
    (hheap : d.contextHandle = .heap n) (hnodup : (d.handles + base).Nodup) :
    ¬ d.contextHandle.handles .ctx ≤
      { d with contextHandle := .null }.handles + (ptrOf buf).handles .buffer + base := by
  have hmem : ⟨.ctx, n⟩ ∈ d.handles := by
    rw [InitDict.handles, hheap]
    simp [Pointer.handles]
  rw [hheap]
  intro hle
  rcases Multiset.mem_add.mp (Multiset.singleton_le.mp hle) with hin | hbase
  · simp only [InitDict.handles, Multiset.mem_add] at hin
    rcases hin with ((hcred | hnull) | hname) | hbuf
    · exact Kind.noConfusion (Pointer.kind_of_mem hcred)
    · exact Multiset.notMem_zero _ hnull
    · exact Kind.noConfusion (Pointer.kind_of_mem hname)
    · exact Kind.noConfusion (Pointer.kind_of_mem hbuf)
  · exact Multiset.disjoint_left.mp (Multiset.nodup_add.mp hnodup).right.right hmem hbase

theorem remoteId_handles {row : Conn} {d : InitDict} {n : Nat} {res : KResult}
    {left base : Multiset Handle} (hctx : row.ctx = some d) (hheap : d.contextHandle = .heap n)
    (hnodup : (d.handles + base).Nodup) (hnamed : Named res) (hleft : ContLeaves d res left) :
    (remoteId row (left + base) res).handles ⊆ left := by
  have hkrr : forall live msg, (remoteId row live (.krr msg)).handles ⊆ d.handles := by
    intro live msg
    rw [remoteId_krr hctx]
    exact Conn.handles_subset hctx
  cases hleft with
  | refused msg _ => exact hkrr _ msg
  | continued _ _ h =>
      cases h with
      | failed output =>
          exact Multiset.Subset.trans (hkrr _ _) (subset_left _ _)
      | deleted output =>
          rw [remoteId_krr hctx, decide_eq_false (deleted_context hheap hnodup)]
          simp only [Conn.handles, hctx, Bool.not_false, if_true]
          exact subset_left _ _
      | noPeer ctx hmakes output =>
          rw [makes_same hmakes hheap]
          exact Multiset.Subset.trans (hkrr _ _) (subset_left _ _)
      | noText ctx hmakes output peer =>
          rw [makes_same hmakes hheap, add_assoc d.handles]
          exact Multiset.Subset.trans (hkrr _ _) (subset_left _ _)
      | more ctx hmakes peer k_peer token ttl =>
          rw [makes_same hmakes hheap]
          exact Multiset.Subset.trans (Conn.handles_subset hctx) (subset_left _ _)
      | complete peer k_peer token =>
          cases k_peer with
          | none => exact absurd rfl hnamed
          | some T => exact Multiset.zero_subset _

theorem initSecContextCont_dict {token : List UInt8} (d : InitDict) (hne : token.length ≠ 0) :
    mgInitSecContextCont (mgInitCtxPointersToDict d) (.chars token) =
      decodeToken token "failed to decode input-token" fun vec =>
        mgInitSecContext1 d (some vec) := by
  change ite _ _ _ = _
  rw [if_neg hne, importDict_whole]

theorem ends_complete {d : InitDict} {base : Multiset Handle} (hd : d.Whole)
    (hheap : exists n, d.contextHandle = .heap n) :
    (mgInitSecContextCont (mgInitCtxPointersToDict d) (.chars [65, 65, 65, 65])).Ends gssEffects
      (d.handles + base) (.initDone (some unresolved) []) base := by
  rcases d with ⟨_, _, _, flags⟩
  rcases hd with ⟨⟨cred, rfl⟩, ⟨name, rfl⟩, _⟩
  rcases hheap with ⟨ctx, rfl⟩
  have hlive : InitDict.handles ⟨.heap cred, .heap ctx, .heap name, flags⟩ + base =
      {⟨.cred, cred⟩} + ({⟨.name, name⟩} + ({⟨.ctx, ctx⟩} + base)) := by
    simp only [InitDict.handles, Pointer.handles]
    abel
  rw [hlive, initSecContextCont_dict _ (by decide)]
  generalize hall : {⟨.cred, cred⟩} + ({⟨.name, name⟩} + ({⟨.ctx, ctx⟩} + base)) = all
  have hcred : (Pointer.heap cred).Live all .cred := by simp [Pointer.Live, <- hall]
  have hname : (Pointer.heap name).Live all .name := by simp [Pointer.Live, <- hall]
  have hctx : (Pointer.heap ctx).Live all .ctx := by simp [Pointer.Live, <- hall]
  rcases Infinite.exists_notMem_finset (all.map Handle.addr).toFinset with ⟨peer, hpeer⟩
  have hnew : ⟨.name, peer⟩ ∉ all := by
    intro hmem
    exact hpeer (Multiset.mem_toFinset.mpr (Multiset.mem_map_of_mem Handle.addr hmem))
  have hok : ¬ gssError 0 = true := by decide
  have hinfo : gssSupplementaryInfo 0 < 32 := by decide
  refine ends_quiet true (allowed_none rfl) trivial rfl rfl ?_
  refine ends_quiet ⟨0, .heap ctx, none, none, 0, 0⟩ ?_ ?_ rfl rfl ?_
  · intro u hu
    simp only [GssCall.uses, List.mem_cons, List.not_mem_nil, or_false] at hu
    rcases hu with rfl | rfl | rfl
    · exact hcred
    · exact hctx
    · exact hname
  · refine ⟨rfl, fun herr => absurd herr hok, fun _ hnull => Pointer.noConfusion hnull,
      fun _ _ => rfl, fun _ => hinfo, ?_⟩
    rintro n bytes ⟨⟩
  dsimp only
  rw [if_neg hok]
  refine ends_create (some (some peer, 0)) (allowed_one rfl hctx) trivial rfl rfl hnew ?_
  refine ends_quiet none (allowed_one rfl (mem_of_eq_add rfl)) trivial rfl rfl ?_
  refine ends_give () (allowed_one rfl (mem_of_eq_add rfl)) trivial rfl rfl rfl ?_
  refine ends_give () (allowed_one rfl hcred) trivial rfl rfl hall.symm ?_
  refine ends_give () (allowed_one rfl (mem_of_eq_add rfl)) trivial rfl rfl rfl ?_
  refine ends_give () (allowed_one rfl (mem_of_eq_add rfl)) trivial rfl rfl rfl ?_
  exact .ret _ _

theorem remoteId_exchange (hs : Sound s) {cfd : Int} {row : Conn} {K : KArg} {res : KResult}
    {live' : Multiset Handle} (hrow : s.conns.lookup (some cfd) = some row)
    (hkept : row.deleted = false) (hnamed : Named res)
    (hends : (mgInitSecContextCont row.ctxArg K).Ends gssEffects s.live res live') :
    exists used left base, Exchange s ⟨s.conns.upsert (some cfd) (remoteId row live' res), live'⟩
      (some cfd) used left base := by
  have hnodup := nodup_of_ends hends hs.nodup
  have hwhole := hs.whole (some cfd) row hrow
  cases hctx : row.ctx with
  | none =>
      rw [Conn.ctxArg_of_none hctx] at hends
      cases hends
      refine ⟨0, 0, s.live,
        exchange_upsert (zero_add _).symm (zero_add _).symm hnodup (s.keeps_zero _) ?_ ?_⟩
      · exact remoteId_whole hwhole
      · rw [remoteId, hctx, Conn.handles_of_none hctx]
        exact Multiset.zero_subset _
  | some d =>
      rcases hwhole d hctx with ⟨hd, ⟨n, hheap⟩, _⟩
      have hcontext := hs.context_live hrow hctx hkept
      rcases hs.splits hrow hctx hcontext with ⟨base, hbefore⟩
      rw [Conn.ctxArg_of_some hctx, hbefore] at hends
      rw [hbefore] at hcontext
      rcases (meets_initSecContextCont hd hcontext K).ends hends with ⟨left, hleft, rfl⟩
      refine ⟨d.handles, left, base, exchange_upsert hbefore rfl hnodup ?_ ?_ ?_⟩
      · exact fun h hmem => ⟨row, hrow, hkept, (Conn.handles_of_kept hctx hkept).symm ▸ hmem⟩
      · exact remoteId_whole hwhole
      · exact remoteId_handles hctx hheap (hbefore ▸ hs.nodup) hnamed hleft

/-!
### A peer that connects
-/

theorem zpw_exchange (hs : Sound s) (cfd now : Int) {K : KArg} {res : KResult}
    {live' : Multiset Handle} (hends : (mgAcceptSecContext K).Ends gssEffects s.live res live') :
    exists fd left, Exchange s ⟨zpw s.conns cfd now res, live'⟩ fd 0 left s.live := by
  have hnodup := nodup_of_ends hends hs.nodup
  rcases (@meets_acceptSecContext s.live K).ends hends with ⟨left, _, hafter⟩
  have hsame : exists fd left, Exchange s ⟨s.conns, live'⟩ fd 0 left s.live :=
    ⟨none, left, exchange_same none hafter hnodup⟩
  cases res with
  | accepted workflow S T V ctx out_tkn =>
      dsimp only [zpw]
      split
      · refine ⟨some cfd, left,
          exchange_upsert (zero_add s.live).symm hafter hnodup (s.keeps_zero _) ?_ ?_⟩
        · exact Conn.whole_of_none rfl
        · exact Multiset.zero_subset _
      · split
        · exact ⟨some cfd, left, exchange_delete hafter hnodup⟩
        · exact hsame
  | krr msg => exact hsame
  | initMore peer d token ttl => exact hsame
  | initDone peer token => exact hsame

/-!
## Invariants of runs
-/

theorem Step.exchange (hs : Sound s) {call : Call} (h : Step s call s') :
    exists fd used left base, Exchange s s' fd used left base := by
  cases h with
  | kopen S T hopen _ hends =>
      rcases kopen_exchange hs S T hopen hends with ⟨fd, left, hx⟩
      exact ⟨fd, 0, left, s.live, hx⟩
  | onRemoteId cfd hrow _ hkept K hnamed hends =>
      exact ⟨some cfd, remoteId_exchange hs hrow hkept hnamed hends⟩
  | zpw cfd now K hends =>
      rcases zpw_exchange hs cfd now hends with ⟨fd, left, hx⟩
      exact ⟨fd, 0, left, s.live, hx⟩

theorem Sound.step (hs : Sound s) {call : Call} (h : Step s call s') : Sound s' := by
  rcases h.exchange hs with ⟨fd, used, left, base, hx⟩
  exact hs.exchange hx

theorem Sound.reaches (hs : Sound s) (h : Reaches s s') : Sound s' := by
  induction h with
  | refl => exact hs
  | step _ hstep ih => exact ih.step hstep

theorem ctx_init {fd : Option Int} {row : Conn} (hrow : Conns.init.lookup fd = some row) :
    row.ctx = none := by
  rcases Option.map_eq_some_iff.mp hrow with ⟨r, hr, rfl⟩
  rw [List.mem_singleton.mp (List.mem_of_find?_eq_some hr)]

theorem not_has_init {live : Multiset Handle} (fd : Option Int) (h : Handle) :
    ¬ State.Has ⟨Conns.init, live⟩ fd h := by
  rintro ⟨row, hrow, hmem⟩
  rw [Conn.handles_of_none (ctx_init hrow)] at hmem
  exact Multiset.notMem_zero h hmem

theorem sound_init : Sound State.init := by
  refine ⟨Multiset.nodup_zero, fun fd row hrow => ?_, fun fd h hhas => ?_,
    fun fd fd' h hhas _ => ?_⟩
  · exact Conn.whole_of_none (ctx_init hrow)
  · exact absurd hhas (not_has_init fd h)
  · exact absurd hhas (not_has_init fd h)

theorem lost_reaches (hs : Sound s) (h : Reaches s s') {x : Handle} (hlive : x ∈ s.live)
    (hnone : forall fd, ¬ s.Keeps fd x) : x ∈ s'.live ∧ forall fd, ¬ s'.Keeps fd x := by
  induction h with
  | refl => exact ⟨hlive, hnone⟩
  | step h hstep ih =>
      rcases hstep.exchange (hs.reaches h) with ⟨fd, used, left, base, hx⟩
      exact hx.lost ih.left ih.right

theorem Sound.gives_back (hs : Sound s) {fd : Option Int} {x : Handle} (h : s.Keeps fd x) :
    exists call s', Step s call s' ∧ x ∉ s'.live := by
  rcases h with ⟨row, hrow, hkept, hmem⟩
  cases hctx : row.ctx with
  | none =>
      rw [Conn.handles_of_none hctx] at hmem
      exact absurd hmem (Multiset.notMem_zero x)
  | some d =>
      rcases hs.whole fd row hrow d hctx with ⟨hd, hheap, hdir, cfd, rfl⟩
      rcases hs.splits hrow hctx (hs.context_live hrow hctx hkept) with ⟨base, hbefore⟩
      have hends := @ends_complete d base hd hheap
      rw [<- hbefore, <- Conn.ctxArg_of_some hctx] at hends
      have hnamed : Named (.initDone (some unresolved) []) := Option.some_ne_none unresolved
      refine ⟨_, _, .onRemoteId cfd hrow hdir hkept _ hnamed hends, fun hbase => ?_⟩
      have hnodup := hs.nodup
      rw [hbefore] at hnodup
      rw [Conn.handles_of_kept hctx hkept] at hmem
      exact Multiset.disjoint_left.mp (Multiset.nodup_add.mp hnodup).right.right hmem hbase

end Steps

end Krb
end MgKdb
