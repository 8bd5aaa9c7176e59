import MgKdb.Mgq.Holdings

/-!
# Peers over Kerberos

Who is on a connection, what is lost with one, and what a token of a peer may do.
-/

namespace MgKdb
namespace Krb

open Foundation
open Gss

/-!
## Who is on a connection
-/

section Vouched

/-- The call writes the row of a descriptor anew, names its peer, or deletes it. -/
def Call.Sets (fd : Int) : Call -> Prop
  | kopen _ _ hopen (.initMore _ _ token _) => hopen token = some fd
  | onRemoteId cfd _ (.initDone _ _) => cfd = fd
  | zpw cfd _ _ (.accepted workflow _ _ _ _ _) => cfd = fd ∧ (workflow = 1 ∨ workflow = 2)
  | _ => False

/-- `call` is the latest of the calls that sets the row, and `earlier` are those before it. -/
structure Latest (fd : Int) (calls : List Call) (call : Call) (earlier : List Call) : Prop where
  sets : call.Sets fd
  since : exists later, calls = later ++ call :: earlier ∧ forall c, c ∈ later -> ¬ c.Sets fd

/-- The library has completed an exchange for the row, and nothing has set it since. -/
inductive Vouched (fd : Int) (calls : List Call) (row : Conn) : Prop where
  /-- A peer that has connected: its token was accepted. -/
  | accepted {now : Int} {K : KArg} {V : UInt32} {ctx : Option Pointer} {out_tkn : List UInt8}
      {earlier : List Call}
      (h : Latest fd calls (.zpw fd now K (.accepted 1 row.src row.tgt V ctx out_tkn)) earlier)
      (hxpy : row.xpy = Web.ttlFromSecs now (timeRec V)) (hctx : row.ctx = none) :
      Vouched fd calls row
  /-- A peer that was connected to: its token was accepted in the exchange that was opened. -/
  | confirmed {K : KArg} {token : List UInt8} {earlier : List Call} {T : List UInt8}
      {hopen : List UInt8 -> Option Int} {opening : KResult} {first : List Call}
      (h : Latest fd calls (.onRemoteId fd K (.initDone (some row.tgt) token)) earlier)
      (hopened : Latest fd earlier (.kopen row.src T hopen opening) first)
      (hxpy : row.xpy = none) (hctx : row.ctx = none) : Vouched fd calls row

/-- The row is as `kopen` has written it, and waits for the peer's token. -/
def Waiting (fd : Int) (calls : List Call) (row : Conn) : Prop :=
  exists hopen peer d token ttl earlier,
    Latest fd calls (.kopen row.src row.tgt hopen (.initMore peer d token ttl)) earlier ∧
      row.xpy = none ∧ row.ctx = some d

variable {fd : Int} {calls earlier : List Call} {call c : Call} {row : Conn} {s : State}

theorem latest_self (h : call.Sets fd) : Latest fd (call :: calls) call calls :=
  ⟨h, [], rfl, fun _ hnone => absurd hnone List.not_mem_nil⟩

theorem Latest.cons (h : Latest fd calls call earlier) (hc : ¬ c.Sets fd) :
    Latest fd (c :: calls) call earlier := by
  rcases h.since with ⟨later, rfl, hlater⟩
  refine ⟨h.sets, c :: later, rfl, fun c' hc' => ?_⟩
  rcases List.mem_cons.mp hc' with rfl | hmem
  · exact hc
  · exact hlater c' hmem

theorem Vouched.cons (h : Vouched fd calls row) (hc : ¬ c.Sets fd) :
    Vouched fd (c :: calls) row := by
  cases h with
  | accepted h hxpy hctx => exact .accepted (h.cons hc) hxpy hctx
  | confirmed h hopened hxpy hctx => exact .confirmed (h.cons hc) hopened hxpy hctx

theorem Waiting.cons (h : Waiting fd calls row) (hc : ¬ c.Sets fd) :
    Waiting fd (c :: calls) row := by
  rcases h with ⟨hopen, peer, d, token, ttl, earlier, h, hrest⟩
  exact ⟨hopen, peer, d, token, ttl, earlier, h.cons hc, hrest⟩

def State.Vouches (s : State) (calls : List Call) : Prop :=
  forall fd row, s.conns.lookup (some fd) = some row ->
    Vouched fd calls row ∨ Waiting fd calls row

theorem State.Vouches.cons (hs : s.Vouches calls) (hrow : s.conns.lookup (some fd) = some row)
    (hc : ¬ c.Sets fd) : Vouched fd (c :: calls) row ∨ Waiting fd (c :: calls) row :=
  (hs fd row hrow).imp (fun h => h.cons hc) (fun h => h.cons hc)

theorem kopen_vouches (hs : s.Vouches calls) (S T : List UInt8)
    (hopen : List UInt8 -> Option Int) (res : KResult) (live' : Multiset Handle) :
    State.Vouches ⟨kopen s.conns S T hopen res, live'⟩ (.kopen S T hopen res :: calls) := by
  intro fd row hrow
  cases res with
  | initMore peer d token ttl =>
      dsimp only [kopen] at hrow
      cases hfd : hopen token with
      | none =>
          rw [hfd] at hrow
          refine hs.cons hrow fun hsets => ?_
          exact Option.some_ne_none fd (hsets.symm.trans hfd)
      | some rfd =>
          rw [hfd] at hrow
          dsimp only at hrow
          rw [Keyed.lookup_upsert] at hrow
          split at hrow
          · rename_i heq
            cases heq
            cases hrow
            exact Or.inr ⟨hopen, peer, d, token, ttl, calls, latest_self hfd, rfl, rfl⟩
          · rename_i hne
            refine hs.cons hrow fun hsets => hne ?_
            exact hsets.symm.trans hfd
  | krr msg => exact hs.cons hrow id
  | accepted workflow srcName tgtName V ctx out_tkn => exact hs.cons hrow id
  | initDone peer token => exact hs.cons hrow id

theorem remoteId_held (hs : s.Vouches calls) {cfd : Int} {old : Conn} {d : InitDict} {K : KArg}
    {res : KResult} {live' : Multiset Handle}
    (hold : s.conns.lookup (some cfd) = some old) (hctx : old.ctx = some d)
    (hnamed : Named res) :
    Vouched cfd (.onRemoteId cfd K res :: calls) (remoteId old live' res) ∨
      Waiting cfd (.onRemoteId cfd K res :: calls) (remoteId old live' res) := by
  have hwaits : Waiting cfd calls old := by
    refine (hs cfd old hold).resolve_left fun hvouched => ?_
    cases hvouched with
    | accepted _ _ hnone => exact Option.some_ne_none d (hctx.symm.trans hnone)
    | confirmed _ _ _ hnone => exact Option.some_ne_none d (hctx.symm.trans hnone)
  cases res with
  | initDone peer token =>
      cases peer with
      | none => exact absurd rfl hnamed
      | some T =>
          rcases hwaits with ⟨hopen, peer, d, token, ttl, earlier, hopened, hxpy, _⟩
          exact Or.inl (.confirmed (latest_self rfl) hopened hxpy rfl)
  | krr msg =>
      rw [remoteId_krr hctx]
      exact Or.inr (Waiting.cons (show Waiting cfd calls { old with deleted := _ } from hwaits) id)
  | initMore peer dict token ttl => exact Or.inr (hwaits.cons id)
  | accepted workflow srcName tgtName V ctx out_tkn => exact Or.inr (hwaits.cons id)

theorem remoteId_vouches (hs : s.Vouches calls) {cfd : Int} {old : Conn} {K : KArg}
    {res : KResult} {live' : Multiset Handle}
    (hold : s.conns.lookup (some cfd) = some old) (hnamed : Named res)
    (hends : (mgInitSecContextCont old.ctxArg K).Ends gssEffects s.live res live') :
    State.Vouches ⟨s.conns.upsert (some cfd) (remoteId old live' res), live'⟩
      (.onRemoteId cfd K res :: calls) := by
  intro fd row hrow
  dsimp only at hrow
  rw [Keyed.lookup_upsert] at hrow
  split at hrow
  · rename_i heq
    cases heq
    cases hrow
    cases hctx : old.ctx with
    | none =>
        rw [Conn.ctxArg_of_none hctx] at hends
        cases hends
        rw [remoteId, hctx]
        exact hs.cons hold id
    | some d => exact remoteId_held hs hold hctx hnamed
  · rename_i hne
    refine hs.cons hrow fun hsets => hne ?_
    cases res with
    | initDone peer token => exact congrArg some hsets.symm
    | krr msg => exact hsets.elim
    | initMore peer dict token ttl => exact hsets.elim
    | accepted workflow srcName tgtName V ctx out_tkn => exact hsets.elim

theorem zpw_vouches (hs : s.Vouches calls) (cfd now : Int) (K : KArg) (res : KResult)
    (live' : Multiset Handle) :
    State.Vouches ⟨zpw s.conns cfd now res, live'⟩ (.zpw cfd now K res :: calls) := by
  intro fd row hrow
  cases res with
  | accepted workflow S T V ctx out_tkn =>
      dsimp only [zpw] at hrow
      split at hrow
      · rename_i hdone
        subst hdone
        rw [Keyed.lookup_upsert] at hrow
        split at hrow
        · rename_i heq
          cases heq
          cases hrow
          exact Or.inl (.accepted (latest_self ⟨rfl, Or.inl rfl⟩) rfl rfl)
        · rename_i hne
          exact hs.cons hrow fun hsets => hne (congrArg some hsets.left.symm)
      · rename_i hmore
        split at hrow
        · rw [Keyed.lookup_delete] at hrow
          split at hrow
          · cases hrow
          · rename_i hne
            exact hs.cons hrow fun hsets => hne (congrArg some hsets.left.symm)
        · rename_i hother
          exact hs.cons hrow fun hsets => hsets.right.elim hmore hother
  | krr msg => exact hs.cons hrow id
  | initMore peer d token ttl => exact hs.cons hrow id
  | initDone peer token => exact hs.cons hrow id

end Vouched

/-!
## A token that is refused
-/

theorem ends_of_eq {res : KResult} {live live' : Multiset Handle} (h : live = live') :
    (Segment.ret res : Code).Ends gssEffects live res live' :=
  h ▸ .ret res live

def peerRow (deleted : Bool) : Conn :=
  ⟨[], [], none, some ⟨.heap 2, .heap 4, .heap 3, defaultReqFlags⟩, some .O, deleted⟩

def opened : State :=
  ⟨Conns.init.upsert (some 5) (peerRow false), {⟨.cred, 2⟩, ⟨.ctx, 4⟩, ⟨.name, 3⟩}⟩

def refused : State :=
  ⟨opened.conns.upsert (some 5) (peerRow true), {⟨.cred, 2⟩, ⟨.name, 3⟩}⟩

theorem ends_opened : (mgInitSecContext (.chars []) (.chars [])).Ends gssEffects 0
    (.initMore (some unresolved) ⟨.heap 2, .heap 4, .heap 3, defaultReqFlags⟩
      [65, 65, 61, 61, 10] 0) opened.live := by
  refine .call (some (some 1)) (by decide) (possible_of_new trivial (by decide) (by decide)) ?_
  refine .call (some (some 2)) (by decide) (possible_of_new trivial (by decide) (by decide)) ?_
  refine .call () (by decide) (possible_of_new trivial (by decide) (by decide)) ?_
  refine .call (some (some 3)) (by decide) (possible_of_new trivial (by decide) (by decide)) ?_
  refine .call ⟨1, .heap 4, none, some (5, [0]), 0, 0⟩ (by decide) (possible_of_new
    ⟨rfl, by decide, fun _ _ => ⟨4, rfl⟩, by decide, by decide, ?_⟩ (by decide) (by decide)) ?_
  · rintro n bytes ⟨⟩
    decide
  refine .call (some (some 6, 0)) (by decide) (possible_of_new trivial (by decide) (by decide)) ?_
  refine .call none (by decide) (possible_of_new trivial (by decide) (by decide)) ?_
  refine .call () (by decide) (possible_of_new trivial (by decide) (by decide)) ?_
  refine .call true (by decide) (possible_of_new trivial (by decide) (by decide)) ?_
  refine .call () (by decide) (possible_of_new trivial (by decide) (by decide)) ?_
  exact ends_of_eq (by decide)

theorem reaches_opened : Reaches State.init opened := by
  have hstep := fun hnamed =>
    Step.kopen (s := State.init) [] [] (fun _ => some 5) hnamed ends_opened
  exact .step .refl (hstep (Option.some_ne_none _))

theorem ends_refused : (mgInitSecContextCont (peerRow false).ctxArg
    (.chars [65, 65, 65, 65])).Ends gssEffects opened.live
    (.krr "failed when continuing gss_init_sec_context") refused.live := by
  change (mgInitSecContextCont (mgInitCtxPointersToDict _) _).Ends _ _ _ _
  rw [initSecContextCont_dict _ (by decide)]
  refine .call true (by decide) (possible_of_new trivial (by decide) (by decide)) ?_
  refine .call ⟨0x10000, .null, none, none, 0, 0⟩ (by decide) (possible_of_new
    ⟨rfl, by decide, fun _ hnull => Pointer.noConfusion hnull, by decide, by decide, ?_⟩
    (by decide) (by decide)) ?_
  · rintro n bytes ⟨⟩
  exact ends_of_eq (by decide)

theorem reaches_refused : Reaches State.init refused := by
  have hgone : ¬ (Pointer.heap 4).handles .ctx ≤ refused.live := by decide
  have hrow : remoteId (peerRow false) refused.live
      (.krr "failed when continuing gss_init_sec_context") = peerRow true := by
    refine (remoteId_krr rfl).trans ?_
    rw [decide_eq_false hgone]
    rfl
  rw [refused, <- hrow]
  exact .step reaches_opened (.onRemoteId 5 rfl rfl rfl _ trivial ends_refused)

theorem not_keeps_refused (fd : Option Int) (x : Handle) : ¬ refused.Keeps fd x := by
  rintro ⟨row, hrow, hkept, hmem⟩
  rw [refused, Keyed.lookup_upsert] at hrow
  split at hrow
  · cases hrow
    cases hkept
  · rename_i hne
    rw [opened, Keyed.lookup_upsert, if_neg hne] at hrow
    rw [Conn.handles_of_none (ctx_init hrow)] at hmem
    exact Multiset.notMem_zero x hmem

def confirmed : State :=
  ⟨opened.conns.upsert (some 5) { peerRow false with ctx := none, tgt := unresolved }, 0⟩

def opening : Call :=
  .kopen [] [] (fun _ => some 5) (.initMore (some unresolved)
    ⟨.heap 2, .heap 4, .heap 3, defaultReqFlags⟩ [65, 65, 61, 61, 10] 0)

def completing : Call :=
  .onRemoteId 5 (.chars [65, 65, 65, 65]) (.initDone (some unresolved) [])

theorem runs_confirmed : Runs [completing, opening] confirmed := by
  have hends := @ends_complete ⟨.heap 2, .heap 4, .heap 3, defaultReqFlags⟩ 0
    ⟨⟨2, rfl⟩, ⟨3, rfl⟩, Pointer.noConfusion⟩ ⟨4, rfl⟩
  have hlive : InitDict.handles ⟨.heap 2, .heap 4, .heap 3, defaultReqFlags⟩ + 0 = opened.live := by
    decide
  rw [hlive] at hends
  have hopening := fun hnamed =>
    Step.kopen (s := State.init) [] [] (fun _ => some 5) hnamed ends_opened
  have hcompleting := fun hnamed => Step.onRemoteId (s := opened) 5 rfl rfl rfl _ hnamed hends
  exact .step (.step .init (hopening (Option.some_ne_none _)))
    (hcompleting (Option.some_ne_none _))

/-!
## Results
-/

section Results

variable {s : State}

/-- What is live can still be given back if there is a row that keeps it, and else never. -/
theorem givenBack_iff (h : Reaches State.init s) {x : Handle} (hlive : x ∈ s.live) :
    (exists s', Reaches s s' ∧ x ∉ s'.live) <-> exists fd, s.Keeps fd x := by
  have hs := sound_init.reaches h
  constructor
  · rintro ⟨s', hreaches, hgone⟩
    by_contra hnone
    exact hgone (lost_reaches hs hreaches hlive (not_exists.mp hnone)).left
  · rintro ⟨fd, hkeeps⟩
    rcases hs.gives_back hkeeps with ⟨call, s', hstep, hgone⟩
    exact ⟨s', .step .refl hstep, hgone⟩

/-- After a refusal nobody releases the credentials. -/
theorem givenBack_iff_refused :
    ¬ exists s', Reaches refused s' ∧ ⟨.cred, 2⟩ ∉ s'.live := by
  intro hgone
  have hcred : ⟨.cred, 2⟩ ∈ refused.live := by decide
  rcases (givenBack_iff reaches_refused hcred).mp hgone with ⟨fd, hkeeps⟩
  exact not_keeps_refused fd _ hkeeps

/--
Whoever is in the table is there by an exchange that the library has completed in the run, and
that was the latest to say who is on the descriptor, unless a token is to come.
-/
theorem Runs.vouches {calls : List Call} (h : Runs calls s) {fd : Int} {row : Conn}
    (hrow : s.conns.lookup (some fd) = some row) :
    Vouched fd calls row ∨ Waiting fd calls row := by
  have hall : s.Vouches calls := by
    clear hrow
    induction h with
    | init =>
        intro fd row hrow
        cases hrow
    | step h hstep ih =>
        cases hstep with
        | kopen S T hopen _ _ => exact kopen_vouches ih S T hopen _ _
        | onRemoteId cfd hold _ _ K hnamed hends =>
            exact remoteId_vouches ih hold hnamed hends
        | zpw cfd now K hends => exact zpw_vouches ih cfd now K _ _
  exact hall fd row hrow

theorem Runs.vouches_confirmed :
    Vouched 5 [completing, opening] { peerRow false with ctx := none, tgt := unresolved } := by
  refine (runs_confirmed.vouches rfl).resolve_right ?_
  rintro ⟨_, _, d, _, _, _, _, _, hctx⟩
  exact Option.some_ne_none d hctx.symm

end Results

end Krb
end MgKdb
