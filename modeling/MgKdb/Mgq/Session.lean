import Mathlib.Data.List.DropRight
import Mathlib.Data.List.Infix
import Mathlib.Data.UInt
import MgKdb.Foundation.Keyed
import MgKdb.Mgq.Web

/-!
# The Kerberos handshake over HTTP

A client without a cookie is redirected to an `auth_id`, challenged for a token, and given a
`client_id` cookie when the accept completes.  A request finds what the requests before it
have left in two tables.
-/

namespace MgKdb
namespace Web

open Foundation

/-!
## Headers
-/

/-- A row of `.web.cookies`; `none` is `0Np`. -/
structure Cookie where
  usr : Str
  tgt : Str
  validity : Option Int

def trim (s : Str) : Str :=
  (s.dropWhile (fun c => c == ' ')).rdropWhile (fun c => c == ' ')

/-- `P`: what the pattern has between its stars; `K`: the cookie text. -/
def getCookieValue (P K : Str) : Option Str :=
  match (vs ';' K).filter (fun tkn => decide (P <:+: tkn)) with
  | [] => none
  | tkn :: _ => some (((vs '=' (trim tkn))[1]?).getD [])

def cliCookieVal (K : Str) : Option Str :=
  getCookieValue "client_id".toList K

/-- `now < validity`: nothing is before `0Np`. -/
def Cookie.fresh (now : Int) (c : Cookie) : Bool :=
  match c.validity with
  | none => false
  | some validity => decide (now < validity)

/-- `K`: the `Cookie` header, empty when the request has none. -/
def tryCookieAuth (cookies : Keyed Str Cookie) (now : Int) (K : Str) : Option Str :=
  if K = [] then none
  else
    match cliCookieVal K with
    | none => none
    | some cuk =>
        match cookies.rows.filter (fun r => decide (r.1 = cuk) && r.2.fresh now) with
        | [tbl] => some tbl.2.usr
        | _ => none

/-- `H`: the `Authorization` header, empty when the request has none. -/
def hasToken (H : Str) : Option Str :=
  if H = [] then none
  else if !"Negotiate Y".toList.isPrefixOf H then none
  else some (trim (H.drop "Negotiate ".length))

/-!
## What a request brings and finds
-/

/-- What `mg_accept_sec_context` returns; `none` is a null. -/
structure Accepted (χ : Type) where
  workflow : Int
  srcName : Str
  tgtName : Str
  timeRec : Option Int
  ctx : Option χ
  outTkn : Str

/--
A request, and what its handler is given by the system.  A failed accept is `none`; its
continuation gets what the query for contexts has found.
-/
structure Visit (χ : Type) where
  qry : Str
  cookie : Str
  authorization : Str
  now : Int
  rndtok : Str
  fmtHttpDate : Str
  hostname : Str
  acceptSecCtx : Str -> Option (Accepted χ)
  acceptSecCtxCont : List χ -> Str -> Option (Accepted χ)
  /-- `key` of the path is an atom. -/
  isFile : Str -> Bool
  /-- The octets of a file, none when it cannot be read. -/
  read1 : Str -> Str

structure Site where
  HOME : Str
  ty : Str -> Str
  http404 : Str

/-- `customRepOf` is a `customRep` around a `customRep`. -/
inductive Reply where
  | http401
  | userOk (usr : Str)
  | customRep (txt : Str)
  | customRepOf (txt : Str)
  deriving DecidableEq, Repr

structure Sessions (χ : Type) where
  cookies : Keyed Str Cookie
  webctx : WebCtx χ

def WebCtx.delete {χ : Type} (w : WebCtx χ) (S : Str) : WebCtx χ where
  rows := Keyed.deleteRows w.rows S
  keyed := Keyed.nodup_deleteRows w.keyed S

def Sessions.init {χ : Type} : Sessions χ where
  cookies := ⟨[([], ⟨[], [], none⟩)], List.nodup_singleton _⟩
  webctx := WebCtx.init

/-!
## Replies
-/

section Replies

variable {χ : Type} (site : Site) (v : Visit χ)

def txFile (F : Str) : Str :=
  if F = [] then "index.html".toList
  else if F = "favicon.ico".toList then "favicon.png".toList
  else F

def fileExists (F : Str) : Option Str :=
  let fle := site.HOME ++ '/' :: txFile F
  if v.isFile fle then some fle else none

/-- `K`: the value of `Set-Cookie`, may be empty. -/
def sendContent (F K : Str) : Str :=
  let cnt := v.read1 F
  let res := ["HTTP/1.1 200 OK".toList,
    "Content-Type: ".toList ++ site.ty ((vs '.' (':' :: F)).getLastD []),
    "Connection: keep-alive".toList, "Connection-Length: ".toList ++ (toString cnt.length).toList,
    "Date: ".toList ++ v.fmtHttpDate, "Server: ".toList ++ v.hostname]
  let res := if K.length ≠ 0 then res ++ ["Set-Cookie: ".toList ++ K] else res
  ['\r', '\n'].intercalate (res ++ [[], cnt])

/-- `K`: the token to return, `C`: the cookie, either may be empty. -/
def sendKrb5Challenge (K C : Str) : Str :=
  let txt := if C.length ≠ 0 then ["Set-Cookie: ".toList ++ C, [], []] else [[], []]
  ['\r', '\n'].intercalate (["HTTP/1.1 401 Unauthorized".toList,
    "WWW-Authenticate: Negotiate".toList ++ (if K.length ≠ 0 then ' ' :: K else []),
    "Content-Length: 0".toList, "Connection: close".toList,
    "Date: ".toList ++ v.fmtHttpDate, "Server: ".toList ++ v.hostname] ++ txt)

/-- `.z.P + 18h$V` in nanoseconds, modulo 2^64 with the null in it. -/
def ttlFromSecs (now : Int) (V : Option Int) : Option Int :=
  match V with
  | none => none
  | some V =>
      let t := (now + V * 1000000000).bmod (2 ^ 64)
      if t = -(2 ^ 63) then none else some t

def acceptCompleted : Str :=
  "oRQwEqADCgEAoQsGCSqGSIb3EgECAg==".toList

end Replies

/-!
## The handshake
-/

section Handshake

variable {χ : Type} (site : Site) (ctxs : WebCtx χ -> Str -> Option (List χ)) (s : Sessions χ)
  (v : Visit χ)

def Accepted.cookie (now : Int) (R : Accepted χ) : Cookie :=
  ⟨R.srcName, R.tgtName, ttlFromSecs now R.timeRec⟩

/-- `S`: the `auth_id`. -/
def authComplete (S : Str) (R : Accepted χ) : Reply × Sessions χ :=
  let tkn := R.outTkn.filter (fun c => c ≠ '\r' && c ≠ '\n')
  let ook := "client_id=".toList ++ v.rndtok
  let s := { cookies := s.cookies.upsert v.rndtok (R.cookie v.now), webctx := s.webctx.delete S }
  if tkn.length = 0 || tkn ≠ acceptCompleted then (.customRep (sendKrb5Challenge v tkn ook), s)
  else
    match fileExists site v (prmDel v.qry authId) with
    | some fle => (.customRep (sendContent site v fle ook), s)
    | none => (.customRep site.http404, s)

def authIncomplete (S : Str) (R : Accepted χ) : Reply × Sessions χ :=
  let tkn := R.outTkn.filter (fun c => c ≠ '\r' && c ≠ '\n')
  (.customRepOf (sendKrb5Challenge v tkn []), { s with webctx := s.webctx.upsert S R.ctx })

/-- A failed accept has no `R 0`, and the handler signals. -/
def handleAcceptResponse (I : Str) (R : Option (Accepted χ)) : Option Reply × Sessions χ :=
  match R with
  | none => (none, s)
  | some R =>
      if R.workflow = 1 then
        let (rep, s) := authComplete site s v I R
        (some rep, s)
      else if R.workflow = 2 then
        let (rep, s) := authIncomplete s v I R
        (some rep, s)
      else (some .http401, s)

/-- `ctxs`: what the query for the contexts of `I` finds, unless it signals. -/
def handleTokenRequest (K I : Str) : Option Reply × Sessions χ :=
  match ctxs s.webctx I with
  | none => (none, s)
  | some [] => handleAcceptResponse site s v I (v.acceptSecCtx K)
  | some [ctx] => handleAcceptResponse site s v I (v.acceptSecCtxCont [ctx] K)
  | some _ => (some .http401, s)

def sendInitialChallenge (I : Str) : Reply × Sessions χ :=
  (.customRep (sendKrb5Challenge v [] []), { s with webctx := s.webctx.upsert I none })

def handle : Option Reply × Sessions χ :=
  match zac (tryCookieAuth s.cookies v.now v.cookie) (hasToken v.authorization) s.webctx v.qry with
  | .userOk usr => (some (.userOk usr), s)
  | .sendAuthIdRedirect qry =>
      let (rep, webctx) := sendAuthIdRedirect v.fmtHttpDate v.hostname s.webctx v.rndtok qry
      (some (.customRep rep.2), { s with webctx := webctx })
  | .sendInitialChallenge rid =>
      let (rep, s) := sendInitialChallenge s v rid
      (some rep, s)
  | .handleTokenRequest _qry tkn rid => handleTokenRequest site ctxs s v tkn rid

def serve (visits : List (Visit χ)) : Sessions χ :=
  visits.foldl (fun s v => (handle site ctxs s v).2) s

end Handshake

end Web
end MgKdb
