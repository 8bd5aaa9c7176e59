import MgKdb.Foundation.Delimited
import MgKdb.Foundation.Keyed

/-!
# Requests without a session

A request that brings neither a cookie nor an `auth_id` that is known is sent back to the
client with a new `auth_id` in its query.  Strings are lists of characters.
-/

namespace MgKdb

abbrev Str := List Char

namespace Web

open Foundation

/-!
## Strings
-/

/-- `sep vs s`: one piece more than there are separators. -/
def vs (sep : Char) (s : Str) : List Str :=
  s.splitOn sep

def sv (sep : Char) (ws : List Str) : Str :=
  [sep].intercalate ws

def ss (s P : Str) : List Nat :=
  (List.range s.length).filter (fun i => P.isPrefixOf (s.drop i))

def authId : Str :=
  ['a', 'u', 't', 'h', '_', 'i', 'd']

/-- `P,"=*"` has no other wildcard than its last character. -/
def prmLike (P tkn : Str) : Bool :=
  (P ++ ['=']).isPrefixOf tkn

/-- `R`: path with its query; `P`: name and value. -/
def prmAdd (R P : Str) : Str :=
  let qry :=
    if '?' ∉ R then '?' :: P
    else if '=' ∈ R then '&' :: P
    else P
  R ++ qry

/-- `R`: path with its query; `P`: name. -/
def prmDel (R P : Str) : Str :=
  match vs '?' R with
  | [] => R
  | [_] => R
  | frg :: rest =>
      let qry := sv '&' ((vs '&' (sv '?' rest)).filter (fun tkn => !prmLike P tkn))
      if qry.length = 0 then frg else frg ++ '?' :: qry

/-!
## The table of contexts
-/

/-- `.web.webctx`, keyed by `sid`. -/
structure WebCtx (χ : Type) where
  rows : List (Str × Option χ)
  keyed : (rows.map Prod.fst).Nodup

namespace WebCtx

variable {χ : Type}

def init : WebCtx χ where
  rows := [([], none)]
  keyed := List.nodup_singleton _

def upsert (w : WebCtx χ) (sid : Str) (ctx : Option χ) : WebCtx χ where
  rows := Keyed.upsertRows w.rows sid ctx
  keyed := Keyed.nodup_upsertRows w.keyed sid ctx

/-- The number of rows with a key that is not empty and matches `prm`. -/
def registered (w : WebCtx χ) (prm : Str) : Nat :=
  (w.rows.filter (fun r => decide (0 < r.1.length) && r.1 == prm)).length

theorem registered_eq_count (w : WebCtx χ) {prm : Str} (hne : prm ≠ []) :
    w.registered prm = (w.rows.map Prod.fst).count prm := by
  rw [registered, List.count, List.countP_map, List.countP_eq_length_filter]
  refine congrArg List.length (List.filter_congr fun r _hr => ?_)
  by_cases hsid : r.1 = prm
  · have hpos : 0 < r.1.length := hsid ▸ List.length_pos_iff.mpr hne
    rw [decide_eq_true hpos]
    rfl
  · simp [hsid]

theorem registered_upsert (w : WebCtx χ) {sid : Str} (hne : sid ≠ []) (ctx : Option χ) :
    (w.upsert sid ctx).registered sid = 1 := by
  rw [registered_eq_count _ hne]
  refine List.count_eq_one_of_mem (w.upsert sid ctx).keyed ?_
  change sid ∈ (Keyed.upsertRows w.rows sid ctx).map Prod.fst
  rw [Keyed.keys_upsertRows]
  split
  · assumption
  · exact List.mem_append_right _ (List.mem_singleton_self sid)

end WebCtx

/-!
## Requests
-/

section Requests

variable {χ : Type}

/--
`G`: path with its query; `none` is the answer `0b`.  Without any parameter that
begins like `auth_id` there is nothing to split, and no answer `1b` either.
-/
def hasAuthParam (webctx : WebCtx χ) (G : Str) : Option Str :=
  if (vs '?' G).length ≠ 2 then none
  else
    let prm := (vs '?' G).getLastD []
    if (ss prm authId).length = 0 then none
    else
      match (vs '&' prm).filter (fun tkn => authId.isPrefixOf tkn) with
      | [] => none
      | tkn :: _ =>
          let prm := (vs '=' tkn).getLastD []
          if prm.length = 0 then none
          else if webctx.registered prm ≠ 1 then none
          else some prm

/-- `qry` in `sendAuthIdRedirect`. -/
def redirectQry (T tkn : Str) : Str :=
  prmAdd (prmDel T authId) (authId ++ '=' :: tkn)

/-- The reply, with the token that `rndtok` made. -/
def sendAuthIdRedirect (fmtHttpDate hostname : Str) (webctx : WebCtx χ) (tkn T : Str) :
    (Nat × Str) × WebCtx χ :=
  let txt := ["HTTP/1.1 302 Found".toList, "Content-Length: 0".toList,
    "Location: ".toList ++ redirectQry T tkn, "Connection: close".toList,
    "Date: ".toList ++ fmtHttpDate, "Server: ".toList ++ hostname, [], []]
  ((2, ['\r', '\n'].intercalate txt), webctx.upsert tkn none)

inductive Answer where
  | userOk (usr : Str)
  | sendAuthIdRedirect (qry : Str)
  | sendInitialChallenge (rid : Str)
  | handleTokenRequest (qry tkn rid : Str)
  deriving DecidableEq, Repr

/-- With what `tryCookieAuth` and `hasToken` find in the headers. -/
def zac (usr tkn : Option Str) (webctx : WebCtx χ) (qry : Str) : Answer :=
  match usr with
  | some usr => .userOk usr
  | none =>
      match hasAuthParam webctx qry with
      | none => .sendAuthIdRedirect qry
      | some rid =>
          match tkn with
          | none => .sendInitialChallenge rid
          | some tkn => .handleTokenRequest qry tkn rid

end Requests

end Web
end MgKdb
