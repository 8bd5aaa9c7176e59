import Mathlib.Data.List.ReduceOption
import MgKdb.Foundation.Latest
import MgKdb.Foundation.Ledger
import MgKdb.Mgq.Session

/-!
# Who is let in

A request is answered with a user exactly when its cookie was made for that user by an accept that
has completed, and has not run out.  The `auth_id`s that are known are those that were sent
in a redirect and have not completed.
-/

namespace MgKdb
namespace Web

open Foundation

section Handshake

variable {χ : Type} (site : Site) (ctxs : WebCtx χ -> Str -> Option (List χ)) (s : Sessions χ)
  (v : Visit χ)

/-!
## What one request does
-/

def answer : Answer :=
  zac (tryCookieAuth s.cookies v.now v.cookie) (hasToken v.authorization) s.webctx v.qry

/-- The `auth_id` of a request whose token was accepted, and what the accept has returned. -/
def accepted : Option (Str × Accepted χ) :=
  match answer s v with
  | .handleTokenRequest _ tkn rid =>
      match ctxs s.webctx rid with
      | some [] => (v.acceptSecCtx tkn).map (fun R => (rid, R))
      | some [ctx] => (v.acceptSecCtxCont [ctx] tkn).map (fun R => (rid, R))
      | _ => none
  | _ => none

def completion : Option (Str × Accepted χ) :=
  (accepted ctxs s v).filter (fun p => decide (p.2.workflow = 1))

def redirected : Option Str :=
  match answer s v with
  | .sendAuthIdRedirect _ => some v.rndtok
  | _ => none

def visited : Sessions χ :=
  (handle site ctxs s v).2

theorem answer_userOk_iff (usr : Str) :
    answer s v = .userOk usr <-> tryCookieAuth s.cookies v.now v.cookie = some usr := by
  unfold answer zac
  cases tryCookieAuth s.cookies v.now v.cookie with
  | some usr' => simp
  | none =>
      rcases hasAuthParam s.webctx v.qry with _ | rid
      · simp
      · rcases hasToken v.authorization with _ | tkn <;> simp

theorem hasAuthParam_of_answer {rid : Str} (h : answer s v = .sendInitialChallenge rid ∨
    exists qry tkn, answer s v = .handleTokenRequest qry tkn rid) :
    hasAuthParam s.webctx v.qry = some rid := by
  unfold answer zac at h
  cases hcookie : tryCookieAuth s.cookies v.now v.cookie with
  | some usr => simp [hcookie] at h
  | none =>
      rcases hparam : hasAuthParam s.webctx v.qry with _ | rid'
      · simp [hcookie, hparam] at h
      · rcases htoken : hasToken v.authorization with _ | tkn
        · simp only [hcookie, hparam, htoken, Answer.sendInitialChallenge.injEq, reduceCtorEq,
            exists_false, or_false] at h
          rw [h]
        · simp only [hcookie, hparam, htoken, reduceCtorEq, false_or,
            Answer.handleTokenRequest.injEq, exists_and_left, exists_eq_left'] at h
          rw [h]

def completed (S : Str) (R : Accepted χ) : Sessions χ where
  cookies := s.cookies.upsert v.rndtok (R.cookie v.now)
  webctx := s.webctx.delete S

theorem authComplete_tables (S : Str) (R : Accepted χ) :
    (authComplete site s v S R).2 = completed s v S R := by
  unfold authComplete
  dsimp only
  split
  · rfl
  · cases fileExists site v (prmDel v.qry authId) <;> rfl

inductive Outcome : Sessions χ -> Prop where
  | nothing (hc : completion ctxs s v = none) (hr : redirected s v = none) : Outcome s
  | redirect (hc : completion ctxs s v = none) (hr : redirected s v = some v.rndtok) :
      Outcome { s with webctx := s.webctx.upsert v.rndtok none }
  | challenge (hc : completion ctxs s v = none) (hr : redirected s v = none) (rid : Str)
      (ctx : Option χ) (hparam : hasAuthParam s.webctx v.qry = some rid) :
      Outcome { s with webctx := s.webctx.upsert rid ctx }
  | complete (rid : Str) (R : Accepted χ) (hc : completion ctxs s v = some (rid, R))
      (hr : redirected s v = none) (hparam : hasAuthParam s.webctx v.qry = some rid) :
      Outcome (completed s v rid R)

theorem handleAcceptResponse_outcome {rid : Str} {R : Option (Accepted χ)}
    (hacc : accepted ctxs s v = R.map (fun R => (rid, R))) (hr : redirected s v = none)
    (hparam : hasAuthParam s.webctx v.qry = some rid) :
    Outcome ctxs s v (handleAcceptResponse site s v rid R).2 := by
  cases R with
  | none => exact .nothing (by rw [completion, hacc]; rfl) hr
  | some R =>
      have hc : completion ctxs s v =
          Option.filter (fun p => decide (p.2.workflow = 1)) (some (rid, R)) :=
        congrArg (Option.filter _) hacc
      unfold handleAcceptResponse
      dsimp only
      by_cases hone : R.workflow = 1
      · rw [if_pos hone]
        dsimp only
        rw [authComplete_tables]
        exact .complete rid R (hc.trans (Option.filter_some_pos (decide_eq_true hone))) hr hparam
      · have hnot : completion ctxs s v = none :=
          hc.trans (Option.filter_some_neg (by simpa using hone))
        rw [if_neg hone]
        split
        · exact .challenge hnot hr rid R.ctx hparam
        · exact .nothing hnot hr

theorem outcome : Outcome ctxs s v (visited site ctxs s v) := by
  have hvisited : visited site ctxs s v = (handle site ctxs s v).2 := rfl
  unfold handle at hvisited
  rw [show zac (tryCookieAuth s.cookies v.now v.cookie) (hasToken v.authorization) s.webctx v.qry =
    answer s v from rfl] at hvisited
  rcases hans : answer s v with usr | qry | rid | ⟨qry, tkn, rid⟩
  · rw [hvisited, hans]
    exact .nothing (by simp [completion, accepted, hans]) (by simp [redirected, hans])
  · rw [hvisited, hans]
    exact .redirect (by simp [completion, accepted, hans]) (by simp [redirected, hans])
  · rw [hvisited, hans]
    exact .challenge (by simp [completion, accepted, hans]) (by simp [redirected, hans]) rid none
      (hasAuthParam_of_answer s v (Or.inl hans))
  · have hparam := hasAuthParam_of_answer s v (Or.inr ⟨qry, tkn, hans⟩)
    have hr : redirected s v = none := by simp [redirected, hans]
    rw [hvisited, hans]
    dsimp only
    unfold handleTokenRequest
    rcases hctxs : ctxs s.webctx rid with _ | _ | ⟨ctx, _ | ⟨ctx', more⟩⟩
    · exact .nothing (by simp [completion, accepted, hans, hctxs]) hr
    · exact handleAcceptResponse_outcome site ctxs s v (by simp [accepted, hans, hctxs]) hr hparam
    · exact handleAcceptResponse_outcome site ctxs s v (by simp [accepted, hans, hctxs]) hr hparam
    · exact .nothing (by simp [completion, accepted, hans, hctxs]) hr

/-!
## Users
-/

/-- What an accept does to the cookie `cuk`: `none` within is a cookie without validity. -/
def issues (cuk : Str) (s : Sessions χ) (v : Visit χ) : Option (Option (Str × Int)) :=
  match completion ctxs s v with
  | some (_, R) =>
      if v.rndtok = cuk then some ((ttlFromSecs v.now R.timeRec).map (fun t => (R.srcName, t)))
      else none
  | none => none

def holder (cuk : Str) (s : Sessions χ) : Option (Str × Int) :=
  (s.cookies.lookup cuk).bind (fun c => c.validity.map (fun t => (c.usr, t)))

theorem holder_visited (cuk : Str) :
    holder cuk (visited site ctxs s v) = (issues ctxs cuk s v).getD (holder cuk s) := by
  have hout := outcome site ctxs s v
  generalize visited site ctxs s v = t at hout
  cases hout with
  | nothing hc _ => simp only [issues, hc, Option.getD_none]
  | redirect hc _ =>
      simp only [issues, hc, Option.getD_none]
      rfl
  | challenge hc _ rid ctx _ =>
      simp only [issues, hc, Option.getD_none]
      rfl
  | complete rid R hc _ _ =>
      simp only [issues, hc]
      unfold holder completed
      dsimp only
      rw [Keyed.lookup_upsert]
      by_cases hcuk : v.rndtok = cuk
      · rw [if_pos hcuk.symm, if_pos hcuk, Option.getD_some]
        rfl
      · rw [if_neg (Ne.symm hcuk), if_neg hcuk, Option.getD_none]

theorem tryCookieAuth_iff (cookies : Keyed Str Cookie) (now : Int) (K usr : Str) :
    tryCookieAuth cookies now K = some usr <-> exists cuk c, cliCookieVal K = some cuk ∧
      cookies.lookup cuk = some c ∧ c.usr = usr ∧ c.fresh now = true := by
  unfold tryCookieAuth
  by_cases hK : K = []
  · rw [if_pos hK, hK]
    exact iff_of_false (by simp) (by simp [cliCookieVal, getCookieValue, vs])
  · rw [if_neg hK]
    cases hcuk : cliCookieVal K with
    | none => simp
    | some cuk =>
        dsimp only
        rw [cookies.filter_key cuk (fun c => c.fresh now)]
        cases hrow : cookies.lookup cuk with
        | none => simp [hrow]
        | some c =>
            dsimp only
            cases hfresh : c.fresh now with
            | false => simp [hrow, hfresh]
            | true => simp [hrow, hfresh]

theorem handleAcceptResponse_ne_userOk (rid : Str) (R : Option (Accepted χ)) (usr : Str) :
    (handleAcceptResponse site s v rid R).1 ≠ some (.userOk usr) := by
  unfold handleAcceptResponse authComplete authIncomplete
  cases R with
  | none => simp
  | some R =>
      dsimp only
      split
      · split
        · simp
        · cases fileExists site v (prmDel v.qry authId) <;> simp
      · split <;> simp

theorem handle_userOk_iff (usr : Str) :
    (handle site ctxs s v).1 = some (.userOk usr) <-> answer s v = .userOk usr := by
  unfold handle
  rw [show zac (tryCookieAuth s.cookies v.now v.cookie) (hasToken v.authorization) s.webctx v.qry =
    answer s v from rfl]
  rcases answer s v with usr' | qry | rid | ⟨qry, tkn, rid⟩
  · simp
  · simp
  · simp [sendInitialChallenge]
  · dsimp only
    refine iff_of_false ?_ (by simp)
    unfold handleTokenRequest
    rcases ctxs s.webctx rid with _ | _ | ⟨ctx, _ | ⟨ctx', more⟩⟩
    · simp
    · exact handleAcceptResponse_ne_userOk site s v rid _ usr
    · exact handleAcceptResponse_ne_userOk site s v rid _ usr
    · simp

theorem userOk_iff_holder (usr : Str) :
    (handle site ctxs s v).1 = some (.userOk usr) <->
      exists cuk t, cliCookieVal v.cookie = some cuk ∧ holder cuk s = some (usr, t) ∧
        v.now < t := by
  rw [handle_userOk_iff, answer_userOk_iff, tryCookieAuth_iff]
  refine exists_congr fun cuk => ?_
  unfold holder
  constructor
  · rintro ⟨c, hcuk, hrow, rfl, hfresh⟩
    rcases c with ⟨usr, tgt, _ | t⟩
    · cases hfresh
    · exact ⟨t, hcuk, by rw [hrow]; rfl, of_decide_eq_true hfresh⟩
  · rintro ⟨t, hcuk, hholder, hnow⟩
    rcases Option.bind_eq_some_iff.mp hholder with ⟨c, hrow, hc⟩
    rcases Option.map_eq_some_iff.mp hc with ⟨t', hvalid, heq⟩
    rcases Prod.mk.inj heq with ⟨rfl, rfl⟩
    refine ⟨c, hcuk, hrow, rfl, ?_⟩
    unfold Cookie.fresh
    rw [hvalid]
    exact decide_eq_true hnow

/--
A request is let in as a user exactly when the last accept that made its cookie has completed for
that user, and the cookie has not run out.
-/
theorem userOk_iff_issued (visits : List (Visit χ)) (usr : Str) :
    (handle site ctxs (serve site ctxs Sessions.init visits) v).1 = some (.userOk usr) <->
      exists cuk t, cliCookieVal v.cookie = some cuk ∧
        Standing (visited site ctxs) (issues ctxs cuk) Sessions.init visits (usr, t) ∧
        v.now < t := by
  rw [userOk_iff_holder]
  refine exists_congr fun cuk => exists_congr fun t => ?_
  have hempty : holder cuk (Sessions.init : Sessions χ) = none := by
    unfold holder Keyed.lookup Sessions.init
    by_cases hcuk : [] = cuk
    · simp [hcuk]
    · simp [hcuk]
  rw [<- standing_iff (fun _ => True) (holder cuk) (fun _ _ _ => trivial)
    (fun s v _ => holder_visited site ctxs s v cuk) trivial hempty visits (usr, t)]
  rfl

/-!
## Handshakes
-/

/-- Whether `hasAuthParam` takes `sid` for one that was handed out. -/
def WebCtx.known (sid : Str) (w : WebCtx χ) : Option Unit :=
  if w.registered sid = 1 then some () else none

theorem WebCtx.known_eq (w : WebCtx χ) {sid : Str} (hne : sid ≠ []) :
    w.known sid = if sid ∈ w.rows.map Prod.fst then some () else none := by
  unfold WebCtx.known
  rw [w.registered_eq_count hne]
  by_cases hmem : sid ∈ w.rows.map Prod.fst
  · rw [if_pos hmem, if_pos (List.count_eq_one_of_mem w.keyed hmem)]
  · rw [if_neg hmem, List.count_eq_zero_of_not_mem hmem, if_neg Nat.zero_ne_one]

theorem WebCtx.known_upsert (w : WebCtx χ) {sid : Str} (hne : sid ≠ []) (sid' : Str)
    (ctx : Option χ) :
    (w.upsert sid' ctx).known sid = if sid = sid' then some () else w.known sid := by
  rw [WebCtx.known_eq _ hne, WebCtx.known_eq _ hne]
  change (if sid ∈ (Keyed.upsertRows w.rows sid' ctx).map Prod.fst then some () else none) = _
  rw [Keyed.keys_upsertRows]
  by_cases hsid : sid = sid'
  · rw [if_pos hsid, hsid]
    split <;> simp_all
  · rw [if_neg hsid]
    split
    · rfl
    · refine if_congr ?_ rfl rfl
      rw [List.mem_append, List.mem_singleton, or_iff_left hsid]

theorem WebCtx.known_delete (w : WebCtx χ) {sid : Str} (hne : sid ≠ []) (S : Str) :
    (w.delete S).known sid = if sid = S then none else w.known sid := by
  rw [WebCtx.known_eq _ hne, WebCtx.known_eq _ hne]
  change (if sid ∈ (Keyed.deleteRows w.rows S).map Prod.fst then some () else none) = _
  by_cases hsid : sid = S
  · rw [if_pos hsid, if_neg (fun h => (Keyed.mem_keys_deleteRows.mp h).left hsid)]
  · rw [if_neg hsid]
    exact if_congr (Keyed.mem_keys_deleteRows.trans (and_iff_right hsid)) rfl rfl

theorem known_of_hasAuthParam {w : WebCtx χ} {G rid : Str} (h : hasAuthParam w G = some rid) :
    rid ≠ [] ∧ w.known rid = some () := by
  unfold hasAuthParam at h
  split at h
  · cases h
  · dsimp only at h
    split at h
    · cases h
    · split at h
      · cases h
      · split at h
        · cases h
        · split at h
          · cases h
          · rename_i hlen hreg
            rcases Option.some.inj h with rfl
            exact ⟨fun hnil => hlen (List.length_eq_zero_iff.mpr hnil),
              if_pos (not_not.mp hreg)⟩

/-- A redirect hands out an `auth_id`, and its completion takes it back. -/
def handsOut (sid : Str) (s : Sessions χ) (v : Visit χ) : Option (Option Unit) :=
  match redirected s v, completion ctxs s v with
  | some tkn, _ => if sid = tkn then some (some ()) else none
  | none, some (rid, _) => if sid = rid then some none else none
  | none, none => none

theorem known_visited {sid : Str} (hne : sid ≠ []) :
    (visited site ctxs s v).webctx.known sid =
      (handsOut ctxs sid s v).getD (s.webctx.known sid) := by
  have hout := outcome site ctxs s v
  generalize visited site ctxs s v = t at hout
  cases hout with
  | nothing hc hr => simp only [handsOut, hc, hr, Option.getD_none]
  | redirect hc hr =>
      simp only [handsOut, hr]
      rw [WebCtx.known_upsert _ hne]
      split <;> rfl
  | challenge hc hr rid ctx hparam =>
      simp only [handsOut, hc, hr, Option.getD_none]
      rw [WebCtx.known_upsert _ hne]
      by_cases hsid : sid = rid
      · rw [if_pos hsid, hsid, (known_of_hasAuthParam hparam).right]
      · rw [if_neg hsid]
  | complete rid R hc hr hparam =>
      simp only [handsOut, hc, hr]
      unfold completed
      dsimp only
      rw [WebCtx.known_delete _ hne]
      split <;> rfl

/--
An `auth_id` gets a request past the redirect exactly when it was handed out in one, and has
not completed since.
-/
theorem known_iff_handedOut (visits : List (Visit χ)) {sid : Str} (hne : sid ≠ []) :
    (serve site ctxs Sessions.init visits).webctx.known sid = some () <->
      Standing (visited site ctxs) (handsOut ctxs sid) Sessions.init visits () :=
  standing_iff (fun _ => True) (fun s => s.webctx.known sid) (fun _ _ _ => trivial)
    (fun s v _ => known_visited site ctxs s v hne) trivial
    ((WebCtx.known_eq _ hne).trans (if_neg (by simpa [Sessions.init, WebCtx.init] using hne)))
    visits ()

/-- The `auth_id`s that a run has handed out. -/
def redirects (s : Sessions χ) (visits : List (Visit χ)) : List Str :=
  (observe (fun s v => (redirected s v, visited site ctxs s v)) s visits).reduceOption

/-- The `auth_id`s whose accept has completed in a run. -/
def completions (s : Sessions χ) (visits : List (Visit χ)) : List Str :=
  (observe (fun s v => ((completion ctxs s v).map Prod.fst, visited site ctxs s v)) s
    visits).reduceOption

def pending (s : Sessions χ) (sid : Str) : Option Unit :=
  s.webctx.known sid

theorem pending_nil (s : Sessions χ) : pending s [] = none := by
  have hnone : s.webctx.registered [] = 0 := by
    rw [WebCtx.registered, List.length_eq_zero_iff]
    refine List.filter_eq_nil_iff.mpr fun r _hr hand => ?_
    rcases (Bool.and_eq_true_iff.mp hand) with ⟨hpos, hnil⟩
    rw [eq_of_beq hnil] at hpos
    exact absurd (of_decide_eq_true hpos) (Nat.lt_irrefl 0)
  exact if_neg (by rw [hnone]; exact Nat.zero_ne_one)

theorem pending_visited {sid : Str} (hsid : sid ≠ []) {w : Option Unit}
    (h : forall sid', sid' ≠ [] ->
      (handsOut ctxs sid' s v).getD (pending s sid') = if sid' = sid then w else pending s sid') :
    pending (visited site ctxs s v) = Function.update (pending s) sid w := by
  funext sid'
  by_cases hne : sid' = []
  · rw [hne, pending_nil, Function.update_of_ne (Ne.symm hsid), pending_nil]
  · rw [Function.update_apply, <- h sid' hne]
    exact known_visited site ctxs s v hne

theorem pending_of_nothing (hr : redirected s v = none) (hc : completion ctxs s v = none) :
    pending (visited site ctxs s v) = pending s := by
  funext sid
  by_cases hne : sid = []
  · rw [hne, pending_nil, pending_nil]
  · refine (known_visited site ctxs s v hne).trans ?_
    simp only [handsOut, hr, hc, Option.getD_none]
    rfl

theorem changes : (redirected s v = none ∧ completion ctxs s v = none) ∨
    (redirected s v = some v.rndtok ∧ completion ctxs s v = none) ∨
    exists rid R, redirected s v = none ∧ completion ctxs s v = some (rid, R) ∧
      hasAuthParam s.webctx v.qry = some rid := by
  -- The files of the site do not matter.
  have hout := outcome ⟨[], id, []⟩ ctxs s v
  generalize visited _ ctxs s v = t at hout
  cases hout with
  | nothing hc hr => exact Or.inl ⟨hr, hc⟩
  | redirect hc hr => exact Or.inr (Or.inl ⟨hr, hc⟩)
  | challenge hc hr rid ctx hparam => exact Or.inl ⟨hr, hc⟩
  | complete rid R hc hr hparam => exact Or.inr (Or.inr ⟨rid, R, hr, hc, hparam⟩)

theorem ledger_visited {l : Ledger Str Unit} (h : l.Orderly (pending s)) (hne : v.rndtok ≠ [])
    (hnew : v.rndtok ∉ l.issued) :
    exists l' : Ledger Str Unit, l'.Orderly (pending (visited site ctxs s v)) ∧
      (forall tkn, tkn ∈ l'.issued -> tkn = v.rndtok ∨ tkn ∈ l.issued) ∧
      l'.registered.map Prod.fst = (redirected s v).toList ++ l.registered.map Prod.fst ∧
      l'.answered.map Prod.fst =
        ((completion ctxs s v).map Prod.fst).toList ++ l.answered.map Prod.fst := by
  rcases changes ctxs s v with ⟨hr, hc⟩ | ⟨hr, hc⟩ | ⟨rid, R, hr, hc, hparam⟩
  · rw [pending_of_nothing site ctxs s v hr hc, hr, hc]
    exact ⟨l, h, fun tkn htkn => Or.inr htkn, rfl, rfl⟩
  · have hpending := pending_visited site ctxs s v hne (w := some ()) (fun sid' _ => by
      simp only [handsOut, hr]
      split <;> rfl)
    rw [hpending, hr, hc]
    exact ⟨_, (h.issue hnew).register () List.mem_cons_self (h.fresh hnew).left,
      fun tkn htkn => List.mem_cons.mp htkn, rfl, rfl⟩
  · have hrid := known_of_hasAuthParam hparam
    have hpending := pending_visited site ctxs s v hrid.left (w := none) (fun sid' _ => by
      simp only [handsOut, hr, hc]
      split <;> rfl)
    rw [hpending, hr, hc]
    exact ⟨_, h.answer hrid.right, fun tkn htkn => Or.inr htkn, rfl, rfl⟩

theorem reduceOption_cons {α : Type} (o : Option α) (os : List (Option α)) :
    (o :: os).reduceOption = o.toList ++ os.reduceOption := by
  cases o <;> rfl

theorem ledger_serve (visits : List (Visit χ)) : forall (s : Sessions χ) (l : Ledger Str Unit),
    l.Orderly (pending s) -> (forall v, v ∈ visits -> v.rndtok ≠ [] ∧ v.rndtok ∉ l.issued) ->
    (visits.map Visit.rndtok).Nodup ->
      exists l' : Ledger Str Unit, l'.Orderly (pending (visits.foldl (visited site ctxs) s)) ∧
        l'.registered.map Prod.fst =
          (redirects site ctxs s visits).reverse ++ l.registered.map Prod.fst ∧
        l'.answered.map Prod.fst =
          (completions site ctxs s visits).reverse ++ l.answered.map Prod.fst := by
  induction visits with
  | nil => exact fun s l h _ _ => ⟨l, h, rfl, rfl⟩
  | cons v visits ih =>
      intro s l h hnew hnodup
      rw [List.map_cons, List.nodup_cons] at hnodup
      rcases hnew v List.mem_cons_self with ⟨hne, hout⟩
      rcases ledger_visited site ctxs s v h hne hout with
        ⟨l₁, h₁, hissued, hregistered, hanswered⟩
      have hmore : forall v', v' ∈ visits -> v'.rndtok ≠ [] ∧ v'.rndtok ∉ l₁.issued := by
        intro v' hv'
        rcases hnew v' (List.mem_cons_of_mem v hv') with ⟨hne', hout'⟩
        refine ⟨hne', fun hin => ?_⟩
        rcases hissued _ hin with heq | hin
        · exact hnodup.left (heq ▸ List.mem_map_of_mem hv')
        · exact hout' hin
      rcases ih (visited site ctxs s v) l₁ h₁ hmore hnodup.right with ⟨l', h', hreg, hans⟩
      have hone : forall o : Option Str, o.toList.reverse = o.toList := by
        rintro (_ | a) <;> rfl
      refine ⟨l', h', ?_, ?_⟩
      · rw [hreg, hregistered, redirects, redirects, observe, reduceOption_cons,
          List.reverse_append, hone, List.append_assoc]
      · rw [hans, hanswered, completions, completions, observe, reduceOption_cons,
          List.reverse_append, hone, List.append_assoc]

/--
No `auth_id` completes twice, and none completes that was not handed out, as long as the random
tokens differ.
-/
theorem completes_once (visits : List (Visit χ)) (hne : forall v, v ∈ visits -> v.rndtok ≠ [])
    (hnodup : (visits.map Visit.rndtok).Nodup) :
    (completions site ctxs Sessions.init visits).Nodup ∧
      forall sid, sid ∈ completions site ctxs Sessions.init visits ->
        sid ∈ redirects site ctxs Sessions.init visits := by
  have hempty : pending (Sessions.init : Sessions χ) = fun _ => none := by
    funext sid
    by_cases hsid : sid = []
    · rw [hsid, pending_nil]
    · exact (WebCtx.known_eq _ hsid).trans
        (if_neg (by simpa [Sessions.init, WebCtx.init] using hsid))
  rcases ledger_serve site ctxs visits Sessions.init Ledger.empty (hempty ▸ Ledger.orderly_empty)
    (fun v hv => ⟨hne v hv, List.not_mem_nil⟩) hnodup with ⟨l, h, hreg, hans⟩
  have hans' : l.answered.map Prod.fst = (completions site ctxs Sessions.init visits).reverse :=
    hans.trans (List.append_nil _)
  have hreg' : l.registered.map Prod.fst = (redirects site ctxs Sessions.init visits).reverse :=
    hreg.trans (List.append_nil _)
  refine ⟨List.nodup_reverse.mp (hans' ▸ h.once), fun sid hsid => ?_⟩
  have hmem : sid ∈ l.answered.map Prod.fst := hans' ▸ List.mem_reverse.mpr hsid
  rcases List.mem_map.mp hmem with ⟨e, he, rfl⟩
  have hin := List.mem_map_of_mem (f := Prod.fst) (h.own e he)
  rw [hreg'] at hin
  exact List.mem_reverse.mp hin

end Handshake

def plainSite : Site :=
  ⟨[], fun _ => [], []⟩

def noCtx (_w : WebCtx Unit) (_I : Str) : Option (List Unit) :=
  some []

/-- A request for `qry` with an `Authorization` header, in a realm of one user. -/
def visitOf (qry authorization rndtok : Str) : Visit Unit where
  qry := qry
  cookie := []
  authorization := authorization
  now := 0
  rndtok := rndtok
  fmtHttpDate := []
  hostname := []
  acceptSecCtx := fun _ => some ⟨1, ['u'], ['t'], some 60, none, []⟩
  acceptSecCtxCont := fun _ _ => none
  isFile := fun _ => false
  read1 := fun _ => []

def handshake : List (Visit Unit) :=
  [visitOf ['p'] [] ['1'], visitOf (['p', '?'] ++ authId ++ ['=', '1']) [] ['2'],
    visitOf (['p', '?'] ++ authId ++ ['=', '1']) "Negotiate YII".toList ['3']]

theorem completes_once_handshake :
    completions plainSite noCtx Sessions.init handshake = [['1']] ∧
    (completions plainSite noCtx Sessions.init handshake).Nodup ∧
      forall sid, sid ∈ completions plainSite noCtx Sessions.init handshake ->
        sid ∈ redirects plainSite noCtx Sessions.init handshake :=
  ⟨by decide, completes_once plainSite noCtx handshake (by decide) (by decide)⟩

theorem known_iff_handedOut_challenged :
    (serve plainSite noCtx Sessions.init (handshake.take 2)).webctx.known ['1'] = some () <->
      Standing (visited plainSite noCtx) (handsOut noCtx ['1']) Sessions.init (handshake.take 2)
        () :=
  known_iff_handedOut plainSite noCtx (handshake.take 2) (by decide)

end Web
end MgKdb
