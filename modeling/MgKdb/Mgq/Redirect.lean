import MgKdb.Mgq.Web

/-!
# When the redirect is recognised

The client asks again with the path and the query that it was sent.  It gets further exactly
when the new parameter stands apart from the ones before it, and is the first of its kind.
-/

namespace MgKdb
namespace Web

open Foundation

/-!
## Paths and parameters
-/

def path (T : Str) : Str :=
  before '?' T

/-- The texts between the separators of the query, empty ones too. -/
def params (T : Str) : List Str :=
  vs '&' (behind '?' T)

def name (prm : Str) : Str :=
  before '=' prm

def value (prm : Str) : Str :=
  (vs '=' prm).getLastD []

/-- The parameters with another name than `auth_id`. -/
def others (T : Str) : List Str :=
  (params T).filter (fun prm => decide (prm ≠ [] ∧ name prm ≠ authId))

/-- `L` has one `auth_id`, the rest of `T`, and is not redirected again. -/
structure Recognised {χ : Type} (webctx : WebCtx χ) (T tkn L : Str) : Prop where
  once : ((params L).filter (fun prm => decide (name prm = authId))).length = 1
  path_eq : path L = path T
  others_eq : others L = others T
  answer : hasAuthParam webctx L = some tkn
  onward : forall tok : Option Str, zac none tok webctx L ≠ .sendAuthIdRedirect L

/-- The parameters of `T` that do not begin with `auth_id=`. -/
def kept (T : Str) : List Str :=
  (params T).filter (fun prm => !prmLike authId prm)

structure Apart (T tkn : Str) : Prop where
  /-- No second question mark stays. -/
  noMark : forall prm, prm ∈ kept T -> '?' ∉ prm
  /-- `prmAdd` finds a reason to separate, or needs none. -/
  separate : '=' ∈ path T ∨ (exists prm, prm ∈ kept T ∧ '=' ∈ prm) ∨
    (kept T).getLastD [] = []
  noBare : authId ∉ kept T
  /-- A name that only begins like `auth_id` has the same value. -/
  first : forall prm, (kept T).find? (fun tkn => authId.isPrefixOf tkn) = some prm ->
    value prm = tkn

def hexDigits : Str :=
  ['0', '1', '2', '3', '4', '5', '6', '7', '8', '9', 'a', 'b', 'c', 'd', 'e', 'f',
    'A', 'B', 'C', 'D', 'E', 'F']

/-!
## What is removed and what is added
-/

theorem sv_vs (sep : Char) (s : Str) : sv sep (vs sep s) = s :=
  List.intercalate_splitOn sep

def withQuery (p q : Str) : Str :=
  if q.length = 0 then p else p ++ '?' :: q

theorem prmDel_eq (R P : Str) :
    prmDel R P =
      withQuery (path R) (sv '&' ((params R).filter (fun prm => !prmLike P prm))) := by
  unfold prmDel path params
  by_cases hmark : '?' ∈ R
  · have hsplit : vs '?' R = before '?' R :: vs '?' (behind '?' R) := by
      conv => lhs; rw [eq_before_append_behind hmark]
      exact List.splitOn_append_cons_self_of_not_mem (not_mem_before '?' R) _
    rcases List.exists_cons_of_ne_nil (List.splitOn_ne_nil '?' (behind '?' R)) with
      ⟨frg, rest, hrest⟩
    have hquery : sv '?' (frg :: rest) = behind '?' R := by
      rw [← hrest]
      exact sv_vs '?' _
    have hvs : vs '?' R = before '?' R :: frg :: rest := by rw [hsplit, vs, hrest]
    rw [hvs]
    simp only [hquery]
    rfl
  · have hvs : vs '?' R = [R] := List.splitOn_eq_singleton hmark
    have hempty : prmLike P [] = false := by
      unfold prmLike
      cases P <;> rfl
    rw [hvs, before_of_not_mem hmark, behind_of_not_mem hmark, vs, List.splitOn_nil,
      List.filter_singleton, hempty]
    rfl

def authPrm (tkn : Str) : Str :=
  authId ++ '=' :: tkn

section Token

variable {tkn : Str}

theorem not_mem_authPrm {c : Char} (hhex : forall d, d ∈ tkn -> d ∈ hexDigits)
    (hname : c ∉ authId) (heq : c ≠ '=') (hdigit : c ∉ hexDigits) : c ∉ authPrm tkn := by
  intro hmem
  rcases List.mem_append.mp hmem with hin | hmore
  · exact hname hin
  · rcases List.mem_cons.mp hmore with hsep | hin
    · exact heq hsep
    · exact hdigit (hhex c hin)

theorem name_authPrm (tkn : Str) : name (authPrm tkn) = authId :=
  before_append (by decide) tkn

theorem value_authPrm (hhex : forall d, d ∈ tkn -> d ∈ hexDigits) : value (authPrm tkn) = tkn := by
  have hsep : '=' ∉ tkn := fun hmem => absurd (hhex '=' hmem) (by decide)
  have hname : '=' ∉ authId := by decide
  rw [value, vs, authPrm, List.splitOn_append_cons_self_of_not_mem hname,
    List.splitOn_eq_singleton hsep]
  rfl

theorem authPrm_begins (tkn : Str) : authId.isPrefixOf (authPrm tkn) = true :=
  List.isPrefixOf_iff_prefix.mpr (List.prefix_append authId _)

theorem ss_authPrm (xs : Str) (tkn : Str) : (ss (xs ++ authPrm tkn) authId).length ≠ 0 := by
  have hmem : xs.length ∈ ss (xs ++ authPrm tkn) authId := by
    refine List.mem_filter.mpr ⟨List.mem_range.mpr ?_, ?_⟩
    · rw [List.length_append, authPrm, List.length_append, List.length_cons]
      omega
    · rw [List.drop_left]
      exact authPrm_begins tkn
  exact Nat.pos_iff_ne_zero.mp (List.length_pos_of_mem hmem)

end Token

/-!
## How a path is answered
-/

theorem hasAuthParam_eq_some_iff {χ : Type} {webctx : WebCtx χ} {p q tkn : Str}
    (hp : '?' ∉ p) (hss : (ss q authId).length ≠ 0) (hne : tkn ≠ [])
    (hreg : webctx.registered tkn = 1) :
    hasAuthParam webctx (p ++ '?' :: q) = some tkn <->
      '?' ∉ q ∧ exists prm,
        (vs '&' q).find? (fun tkn => authId.isPrefixOf tkn) = some prm ∧ value prm = tkn := by
  have hsplit : vs '?' (p ++ '?' :: q) = p :: vs '?' q :=
    List.splitOn_append_cons_self_of_not_mem hp q
  have hlen : (vs '?' (p ++ '?' :: q)).length ≠ 2 <-> '?' ∈ q := by
    have hone : (vs '?' q).length = 1 <-> '?' ∉ q := length_splitOn_eq_one
    rw [hsplit, List.length_cons, ← not_iff_not, not_not, ← hone]
    exact ⟨Nat.succ.inj, congrArg Nat.succ⟩
  unfold hasAuthParam
  by_cases hmark : '?' ∈ q
  · rw [if_pos (hlen.mpr hmark)]
    exact ⟨fun h => (by cases h), fun h => absurd hmark h.left⟩
  · rw [if_neg (fun h => hmark (hlen.mp h))]
    have hlast : (vs '?' (p ++ '?' :: q)).getLastD [] = q := by
      rw [hsplit, vs, List.splitOn_eq_singleton hmark]
      rfl
    simp only [hlast]
    rw [if_neg hss, ← List.head?_filter]
    cases hfirst : (vs '&' q).filter (fun tkn => authId.isPrefixOf tkn) with
    | nil =>
        constructor
        · intro h
          cases h
        · rintro ⟨_, prm, hprm, _⟩
          cases hprm
    | cons prm rest =>
        have hanswer : (if (value prm).length = 0 then none
            else if webctx.registered (value prm) ≠ 1 then none
            else some (value prm)) = some tkn <-> value prm = tkn := by
          constructor
          · intro h
            split at h
            · cases h
            · split at h
              · cases h
              · exact Option.some.inj h
          · intro h
            rw [h, if_neg (fun hzero => hne (List.length_eq_zero_iff.mp hzero)),
              if_neg (fun hother => hother hreg)]
        refine hanswer.trans ⟨fun h => ⟨hmark, prm, rfl, h⟩, ?_⟩
        rintro ⟨_, prm', hprm, hvalue⟩
        cases hprm
        exact hvalue

/-!
## The redirect
-/

section Redirect

variable {χ : Type} {webctx : WebCtx χ} {T tkn : Str}

theorem name_eq_authId {prm : Str} (hkept : prmLike authId prm = false) :
    name prm = authId <-> prm = authId := by
  constructor
  · intro h
    by_cases heq : '=' ∈ prm
    · have hsplit := eq_before_append_behind heq
      rw [← name, h] at hsplit
      have hlike : prmLike authId prm = true := by
        rw [prmLike, List.isPrefixOf_iff_prefix, hsplit, List.append_cons]
        exact List.prefix_append _ _
      rw [hkept] at hlike
      cases hlike
    · rwa [name, before_of_not_mem heq] at h
  · intro h
    rw [h]
    decide

theorem others_eq_filter_kept (T : Str) :
    others T = (kept T).filter (fun prm => decide (prm ≠ [] ∧ name prm ≠ authId)) := by
  rw [others, kept, List.filter_filter]
  refine List.filter_congr fun prm _hprm => ?_
  cases hlike : prmLike authId prm with
  | false => simp
  | true =>
      have hname : name prm = authId := by
        rcases List.isPrefixOf_iff_prefix.mp hlike with ⟨xs, hxs⟩
        rw [← hxs, List.append_assoc]
        exact before_append (by decide) xs
      simp [hname]

theorem prmLike_of_mem_kept {prm : Str} (h : prm ∈ kept T) : prmLike authId prm = false := by
  have hnot := (List.mem_filter.mp h).right
  rwa [Bool.not_eq_true'] at hnot

structure Appended (T tkn q : Str) (ws : List Str) : Prop where
  ends : exists xs, q = xs ++ authPrm tkn
  params_eq : vs '&' q = ws ++ [authPrm tkn]
  kept_eq : kept T = ws ∨ kept T = ws ++ [[]]

namespace Appended

variable {q : Str} {ws : List Str}

theorem mem_kept (h : Appended T tkn q ws) {prm : Str} (hprm : prm ≠ []) :
    prm ∈ kept T <-> prm ∈ ws := by
  rcases h.kept_eq with hsame | hmore
  · rw [hsame]
  · rw [hmore, List.mem_append, List.mem_singleton]
    exact ⟨fun hin => hin.resolve_right hprm, Or.inl⟩

theorem find_kept (h : Appended T tkn q ws) :
    (kept T).find? (fun tkn => authId.isPrefixOf tkn) =
      ws.find? (fun tkn => authId.isPrefixOf tkn) := by
  rcases h.kept_eq with hsame | hmore
  · rw [hsame]
  · rw [hmore, List.find?_append]
    exact Option.or_none

theorem filter_kept (h : Appended T tkn q ws) :
    others T = ws.filter (fun prm => decide (prm ≠ [] ∧ name prm ≠ authId)) := by
  rw [others_eq_filter_kept]
  rcases h.kept_eq with hsame | hmore
  · rw [hsame]
  · rw [hmore, List.filter_append]
    exact List.append_nil _

theorem once_iff (h : Appended T tkn q ws) :
    ((vs '&' q).filter (fun prm => decide (name prm = authId))).length = 1 <->
      authId ∉ kept T := by
  have hname : decide (name (authPrm tkn) = authId) = true := decide_eq_true (name_authPrm tkn)
  have hne : authId ≠ [] := by decide
  rw [h.params_eq, List.filter_append, List.filter_singleton, hname, List.length_append,
    h.mem_kept hne]
  constructor
  · intro hone hmem
    have hin : authId ∈ ws.filter (fun prm => decide (name prm = authId)) :=
      List.mem_filter.mpr ⟨hmem, by decide⟩
    have hpos := List.length_pos_of_mem hin
    change _ + 1 = 1 at hone
    omega
  · intro hnot
    have hnone : ws.filter (fun prm => decide (name prm = authId)) = [] := by
      refine List.filter_eq_nil_iff.mpr fun prm hprm hdec => hnot ?_
      have hauth := of_decide_eq_true hdec
      have hprmne : prm ≠ [] := by
        rintro rfl
        exact absurd hauth (by decide)
      have hlike := prmLike_of_mem_kept ((h.mem_kept hprmne).mpr hprm)
      rwa [← (name_eq_authId hlike).mp hauth]
    rw [hnone]
    rfl

theorem noMark_iff (h : Appended T tkn q ws) (hmark : '?' ∉ authPrm tkn) :
    '?' ∉ q <-> forall prm, prm ∈ kept T -> '?' ∉ prm := by
  have hne : '?' ≠ '&' := by decide
  rw [mem_iff_of_splitOn hne q, ← vs, h.params_eq]
  constructor
  · intro hnot prm hprm hin
    have hprmne : prm ≠ [] := List.ne_nil_of_mem hin
    exact hnot ⟨prm, List.mem_append_left _ ((h.mem_kept hprmne).mp hprm), hin⟩
  · rintro hall ⟨prm, hprm, hin⟩
    rcases List.mem_append.mp hprm with hmem | hlast
    · exact hall prm ((h.mem_kept (List.ne_nil_of_mem hin)).mpr hmem) hin
    · rw [List.mem_singleton.mp hlast] at hin
      exact hmark hin

theorem first_iff (h : Appended T tkn q ws) (hvalue : value (authPrm tkn) = tkn) :
    (exists prm, (vs '&' q).find? (fun tkn => authId.isPrefixOf tkn) = some prm ∧
        value prm = tkn) <->
      forall prm, (kept T).find? (fun tkn => authId.isPrefixOf tkn) = some prm ->
        value prm = tkn := by
  rw [h.params_eq, h.find_kept, List.find?_append, List.find?_singleton,
    if_pos (authPrm_begins tkn)]
  cases hfind : ws.find? (fun tkn => authId.isPrefixOf tkn) with
  | none =>
      constructor
      · intro _ prm hprm
        cases hprm
      · intro _
        exact ⟨authPrm tkn, rfl, hvalue⟩
  | some prm =>
      constructor
      · rintro ⟨prm', hprm', hval⟩ prm'' hprm''
        cases hprm'
        cases hprm''
        exact hval
      · intro hall
        exact ⟨prm, rfl, hall prm rfl⟩

theorem recognised_iff (h : Appended T tkn q ws) (hhex : forall c, c ∈ tkn -> c ∈ hexDigits)
    (hne : tkn ≠ []) (hreg : webctx.registered tkn = 1) :
    Recognised webctx T tkn (path T ++ '?' :: q) <->
      (forall prm, prm ∈ kept T -> '?' ∉ prm) ∧ authId ∉ kept T ∧
        forall prm, (kept T).find? (fun tkn => authId.isPrefixOf tkn) = some prm ->
          value prm = tkn := by
  have hfront : '?' ∉ path T := not_mem_before '?' T
  have hpath : path (path T ++ '?' :: q) = path T := before_append hfront q
  have hparams : params (path T ++ '?' :: q) = vs '&' q := by
    rw [params, behind_append hfront]
  have hothers : others (path T ++ '?' :: q) = others T := by
    rw [others, hparams, h.params_eq, h.filter_kept, List.filter_append, List.filter_singleton]
    simp [name_authPrm]
  have hmark : '?' ∉ authPrm tkn :=
    not_mem_authPrm hhex (by decide) (by decide) (by decide)
  have hss : (ss q authId).length ≠ 0 := by
    rcases h.ends with ⟨xs, rfl⟩
    exact ss_authPrm xs tkn
  have hanswer := hasAuthParam_eq_some_iff hfront hss hne hreg
  rw [h.noMark_iff hmark, h.first_iff (value_authPrm hhex)] at hanswer
  constructor
  · intro hrec
    have honce := hrec.once
    rw [hparams, h.once_iff] at honce
    rcases hanswer.mp hrec.answer with ⟨hnone, hfirst⟩
    exact ⟨hnone, honce, hfirst⟩
  · rintro ⟨hnone, hbare, hfirst⟩
    have hknown := hanswer.mpr ⟨hnone, hfirst⟩
    refine ⟨?_, hpath, hothers, hknown, ?_⟩
    · rw [hparams, h.once_iff]
      exact hbare
    · intro tok
      rw [zac, hknown]
      cases tok with
      | none =>
          intro heq
          cases heq
      | some tok =>
          intro heq
          cases heq

theorem apart_iff (h : Appended T tkn q ws) (hhex : forall c, c ∈ tkn -> c ∈ hexDigits)
    (hne : tkn ≠ []) (hreg : webctx.registered tkn = 1)
    (hseparate : '=' ∈ path T ∨ (exists prm, prm ∈ kept T ∧ '=' ∈ prm) ∨
      (kept T).getLastD [] = []) :
    Recognised webctx T tkn (path T ++ '?' :: q) <-> Apart T tkn := by
  rw [h.recognised_iff hhex hne hreg]
  constructor
  · rintro ⟨hmark, hbare, hfirst⟩
    exact ⟨hmark, hseparate, hbare, hfirst⟩
  · intro happart
    exact ⟨happart.noMark, happart.noBare, happart.first⟩

end Appended

/-!
What `prmAdd` makes of the parameters that are kept.
-/

theorem not_mem_amp_of_mem_kept {prm : Str} (h : prm ∈ kept T) : '&' ∉ prm :=
  not_mem_of_mem_splitOn (List.mem_filter.mp h).left

theorem redirectQry_eq (T tkn : Str) :
    redirectQry T tkn = prmAdd (withQuery (path T) (sv '&' (kept T))) (authPrm tkn) := by
  rw [redirectQry, prmDel_eq]
  rfl

theorem redirectQry_of_nil (hhex : forall c, c ∈ tkn -> c ∈ hexDigits)
    (hnil : sv '&' (kept T) = []) :
    redirectQry T tkn = path T ++ '?' :: authPrm tkn ∧ Appended T tkn (authPrm tkn) [] := by
  have hfront : '?' ∉ path T := not_mem_before '?' T
  have hamp : '&' ∉ authPrm tkn := not_mem_authPrm hhex (by decide) (by decide) (by decide)
  refine ⟨?_, ⟨[], rfl⟩, List.splitOn_eq_singleton hamp, intercalate_eq_nil hnil⟩
  rw [redirectQry_eq, hnil]
  exact congrArg (path T ++ ·) (if_pos hfront)

theorem prmAdd_of_mark {p q P : Str} (hq : q ≠ []) :
    prmAdd (withQuery p q) P =
      p ++ '?' :: (q ++ if '=' ∈ p ∨ '=' ∈ q then '&' :: P else P) := by
  have hmark : '?' ∈ p ++ '?' :: q := List.mem_append_right p List.mem_cons_self
  have hequals : '=' ∈ p ++ '?' :: q <-> '=' ∈ p ∨ '=' ∈ q := by
    rw [List.mem_append, List.mem_cons]
    exact or_congr_right (or_iff_right (by decide))
  have hlen : q.length ≠ 0 := fun hzero => hq (List.length_eq_zero_iff.mp hzero)
  simp only [prmAdd, withQuery, if_neg hlen, if_neg (not_not.mpr hmark), hequals,
    List.append_assoc, List.cons_append]

theorem redirectQry_of_equals (hhex : forall c, c ∈ tkn -> c ∈ hexDigits)
    (hne : sv '&' (kept T) ≠ []) (hequals : '=' ∈ path T ∨ '=' ∈ sv '&' (kept T)) :
    redirectQry T tkn = path T ++ '?' :: (sv '&' (kept T) ++ '&' :: authPrm tkn) ∧
      Appended T tkn (sv '&' (kept T) ++ '&' :: authPrm tkn) (kept T) := by
  have hamp : '&' ∉ authPrm tkn := not_mem_authPrm hhex (by decide) (by decide) (by decide)
  have hkept : kept T ≠ [] := fun hnil => hne (by rw [hnil]; rfl)
  refine ⟨?_, ⟨sv '&' (kept T) ++ ['&'], (List.append_cons _ _ _)⟩, ?_, Or.inl rfl⟩
  · rw [redirectQry_eq, prmAdd_of_mark hne, if_pos hequals]
  · rw [vs, List.splitOn_append_cons_self, List.splitOn_eq_singleton hamp, sv,
      List.splitOn_intercalate '&' (fun prm hprm => not_mem_amp_of_mem_kept hprm) hkept]

theorem redirectQry_of_glued (hhex : forall c, c ∈ tkn -> c ∈ hexDigits)
    (hne : sv '&' (kept T) ≠ []) (hequals : ¬ ('=' ∈ path T ∨ '=' ∈ sv '&' (kept T)))
    {init : List Str} {last : Str} (hkept : kept T = init ++ [last]) :
    redirectQry T tkn = path T ++ '?' :: (sv '&' (kept T) ++ authPrm tkn) ∧
      vs '&' (sv '&' (kept T) ++ authPrm tkn) = init ++ [last ++ authPrm tkn] := by
  have hamp : '&' ∉ authPrm tkn := not_mem_authPrm hhex (by decide) (by decide) (by decide)
  refine ⟨by rw [redirectQry_eq, prmAdd_of_mark hne, if_neg hequals], ?_⟩
  rw [hkept, sv, intercalate_concat_append, vs]
  refine List.splitOn_intercalate '&' ?_ (List.append_ne_nil_of_right_ne_nil _ (by simp))
  intro prm hprm
  rcases List.mem_append.mp hprm with hmem | hlast
  · exact not_mem_amp_of_mem_kept (hkept ▸ List.mem_append_left _ hmem)
  · rw [List.mem_singleton.mp hlast, List.mem_append, not_or]
    exact ⟨not_mem_amp_of_mem_kept (hkept ▸ List.mem_append_right _ (List.mem_singleton_self _)),
      hamp⟩

theorem not_recognised_of_glued (hhex : forall c, c ∈ tkn -> c ∈ hexDigits)
    (hne : sv '&' (kept T) ≠ []) (hequals : ¬ ('=' ∈ path T ∨ '=' ∈ sv '&' (kept T)))
    {init : List Str} {last : Str} (hkept : kept T = init ++ [last]) (hlast : last ≠ []) :
    ¬ Recognised webctx T tkn (redirectQry T tkn) := by
  intro hrec
  rcases redirectQry_of_glued hhex hne hequals hkept with ⟨hL, hparams⟩
  have hfront : '?' ∉ path T := not_mem_before '?' T
  have hsame := hrec.others_eq
  rw [others_eq_filter_kept T, hL, others, params, behind_append hfront, hparams, hkept,
    List.filter_append, List.filter_append] at hsame
  have hclear : '=' ∉ last := by
    intro hmem
    have hjoin : '=' ∈ sv '&' (kept T) := by
      rw [sv, mem_intercalate (by decide)]
      exact ⟨last, hkept ▸ List.mem_append_right _ (List.mem_singleton_self _), hmem⟩
    exact hequals (Or.inr hjoin)
  have hname : name (last ++ authPrm tkn) = last ++ authId := by
    rw [authPrm, ← List.append_assoc]
    refine before_append ?_ tkn
    rw [List.mem_append, not_or]
    exact ⟨hclear, by decide⟩
  have hother : name (last ++ authPrm tkn) ≠ authId := by
    rw [hname]
    intro heq
    exact hlast (List.append_left_eq_self.mp heq)
  have hlost : last ++ authPrm tkn ∈
      [last].filter (fun prm => decide (prm ≠ [] ∧ name prm ≠ authId)) := by
    rw [← List.append_cancel_left hsame]
    refine List.mem_filter.mpr ⟨List.mem_singleton_self _, decide_eq_true ⟨?_, hother⟩⟩
    exact List.append_ne_nil_of_left_ne_nil hlast _
  have heq := List.mem_singleton.mp (List.mem_filter.mp hlost).left
  have hnil := List.append_right_eq_self.mp heq
  cases hnil

end Redirect

/--
The redirect is recognised exactly when the new parameter stands apart from those that are
kept, and none of them comes before it as `auth_id`.
-/
theorem recognised_iff_apart {χ : Type} (fmtHttpDate hostname : Str) (webctx : WebCtx χ)
    (T : Str) {tkn : Str} (hne : tkn ≠ []) (hhex : forall c, c ∈ tkn -> c ∈ hexDigits) :
    Recognised (sendAuthIdRedirect fmtHttpDate hostname webctx tkn T).2 T tkn
        (redirectQry T tkn) <-> Apart T tkn := by
  have hreg : (sendAuthIdRedirect fmtHttpDate hostname webctx tkn T).2.registered tkn = 1 :=
    webctx.registered_upsert hne none
  have hjoin : '=' ∈ sv '&' (kept T) <-> exists prm, prm ∈ kept T ∧ '=' ∈ prm :=
    mem_intercalate (by decide)
  by_cases hnil : sv '&' (kept T) = []
  · rcases redirectQry_of_nil hhex hnil with ⟨hL, happ⟩
    have hempty : (kept T).getLastD [] = [] := by
      rcases intercalate_eq_nil hnil with h | h
      · rw [h]
        rfl
      · rw [h]
        rfl
    rw [hL]
    exact happ.apart_iff hhex hne hreg (Or.inr (Or.inr hempty))
  · by_cases hequals : '=' ∈ path T ∨ '=' ∈ sv '&' (kept T)
    · rcases redirectQry_of_equals hhex hnil hequals with ⟨hL, happ⟩
      rw [hL]
      exact happ.apart_iff hhex hne hreg (hequals.imp_right fun h => Or.inl (hjoin.mp h))
    · have hkept : kept T ≠ [] := fun h => hnil (by rw [h]; rfl)
      obtain ⟨init, last, hsplit⟩ : exists init last, kept T = init ++ [last] :=
        ⟨_, _, (List.dropLast_append_getLast hkept).symm⟩
      have hlastD : (kept T).getLastD [] = last := by
        rw [hsplit, List.getLastD_concat]
      by_cases hlast : last = []
      · rcases redirectQry_of_glued hhex hnil hequals hsplit with ⟨hL, hparams⟩
        rw [hlast, List.nil_append] at hparams
        have happ : Appended T tkn (sv '&' (kept T) ++ authPrm tkn) init :=
          ⟨⟨_, rfl⟩, hparams, Or.inr (hlast ▸ hsplit)⟩
        rw [hL]
        exact happ.apart_iff hhex hne hreg (Or.inr (Or.inr (hlastD.trans hlast)))
      · constructor
        · intro hrec
          exact absurd hrec (not_recognised_of_glued hhex hnil hequals hsplit hlast)
        · intro h
          rcases h.separate with hpath | hprm | hend
          · exact absurd (Or.inl hpath) hequals
          · exact absurd (Or.inr (hjoin.mpr hprm)) hequals
          · exact absurd (hlastD.symm.trans hend) hlast

/-- A parameter with a value, and an `auth_id` that is no longer known. -/
def staleQry : Str :=
  ['p', '?', 'q', '=', '2', '&', 'a', 'u', 't', 'h', '_', 'i', 'd', '=', '0']

theorem hexDigits_of_mem : forall c, c ∈ ['1', 'f'] -> c ∈ hexDigits :=
  List.forall_mem_cons.mpr ⟨by decide, List.forall_mem_singleton.mpr (by decide)⟩

theorem recognised_iff_apart_stale :
    Recognised (sendAuthIdRedirect [] [] (WebCtx.init : WebCtx Nat) ['1', 'f'] staleQry).2
      staleQry ['1', 'f'] (redirectQry staleQry ['1', 'f']) := by
  have hkept : kept staleQry = [['q', '=', '2']] := by decide
  refine (recognised_iff_apart [] [] WebCtx.init staleQry (by decide) hexDigits_of_mem).mpr
    ⟨?_, ?_, ?_, ?_⟩
  · rw [hkept]
    decide
  · rw [hkept]
    exact Or.inr (Or.inl ⟨_, List.mem_singleton_self _, by decide⟩)
  · rw [hkept]
    decide
  · rw [hkept]
    intro prm hprm
    cases hprm

/-- A query without a value: `p?q` is redirected to `p?qauth_id=1f`. -/
theorem recognised_glued :
    ¬ forall (webctx : WebCtx Nat) (T tkn : Str), tkn ≠ [] ->
      (forall c, c ∈ tkn -> c ∈ hexDigits) ->
        Recognised (sendAuthIdRedirect [] [] webctx tkn T).2 T tkn (redirectQry T tkn) := by
  intro hclaim
  have hanswer :=
    (hclaim WebCtx.init ['p', '?', 'q'] ['1', 'f'] (by decide) hexDigits_of_mem).answer
  have hnone : hasAuthParam
      (sendAuthIdRedirect [] [] (WebCtx.init : WebCtx Nat) ['1', 'f'] ['p', '?', 'q']).2
      (redirectQry ['p', '?', 'q'] ['1', 'f']) = none := by rfl
  rw [hnone] at hanswer
  cases hanswer

end Web
end MgKdb
