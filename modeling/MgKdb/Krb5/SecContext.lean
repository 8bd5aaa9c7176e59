import MgKdb.Krb5.Gss

/-!
# Security contexts

The functions that q calls.  What a client needs for the answer of its peer goes to q as a
dictionary of pointers, and comes back with the token.
-/

namespace MgKdb
namespace Gss

open Foundation
open Base64

structure InitDict where
  credHandle : Pointer
  contextHandle : Pointer
  tgtName : Pointer
  reqFlags : UInt32
  deriving DecidableEq, Repr

inductive DictVal where
  | pointer (ptr : Pointer)
  | int (i : UInt32)
  deriving DecidableEq, Repr

/-- What q passes: `pointer` is a `KG` vector of eight bytes. -/
inductive KArg where
  | chars (txt : List UInt8)
  | pointer (ptr : Pointer)
  | dict (kvs : List (String × DictVal))
  | other

/-- What q gets; `krr` is signalled, and `none` for a context is the global null. -/
inductive KResult where
  | krr (msg : String)
  | accepted (workflow : Int) (srcName tgtName : List UInt8) (timeRec : UInt32)
      (ctx : Option Pointer) (outTkn : List UInt8)
  | initMore (peerName : Option (List UInt8)) (dict : InitDict) (token : List UInt8)
      (ttl : UInt32)
  | initDone (peerName : Option (List UInt8)) (token : List UInt8)

abbrev Code := Segment GssCall GssCall.Answer PEmpty KResult

/-!
## Helpers
-/

/-- The text of a name that cannot be displayed has its NUL with it. -/
def unresolved : List UInt8 :=
  "_UNRESOLVED_\x00".toUTF8.toList

def mgGetDisplayName (name : Pointer) (k : Option (List UInt8) -> Code) : Code :=
  if name = .null then k none
  else
    .call (.displayName name) fun name_buf =>
      match name_buf with
      | none => k (some unresolved)
      | some (_, txt) => k (some txt)

def mgDeleteSecContext (context_handle : Pointer) (k : Code) : Code :=
  if context_handle ≠ .null then .call (.deleteSecContext context_handle) fun _ => k else k

def mgDeleteCtxReturnErrXs (context_handle : Pointer) (msg : String) : Code :=
  mgDeleteSecContext context_handle (.ret (.krr msg))

def mgValidate (res : UInt32) (context_handle : Pointer) (input_token : List UInt8)
    (output_token : Output) (k : Output -> Code) : Code :=
  if res &&& gssCConfFlag ≠ 0 then
    .call (.unwrap context_handle input_token) fun out => k (out.getD output_token)
  else if res &&& gssCIntegFlag ≠ 0 then
    .call (.verifyMic context_handle input_token) fun _ => k output_token
  else k output_token

def mgInitCtxPointersToDict (d : InitDict) : KArg :=
  .dict [("cred_handle", .pointer d.credHandle), ("context_handle", .pointer d.contextHandle),
    ("tgt_name", .pointer d.tgtName), ("req_flags", .int d.reqFlags)]

/-!
## The acceptor
-/

def acceptToken (context_handle : Pointer) (output_token : Output) (k : List UInt8 -> Code) :
    Code :=
  match output_token with
  | none => k []
  | some (value, bytes) =>
      if bytes.length = 0 then k []
      else
        .call .malloc fun malloc =>
          .call (.releaseBuffer value) fun _ =>
            match base64Encode malloc bytes with
            | none =>
                mgDeleteCtxReturnErrXs context_handle
                  ("GSSAPI provided additional data for the Client but base-64 encoding failed")
            | some b64 => k b64

/-- The end of `mg_accept_sec_context_1`, where the context's variable is given away. -/
def acceptWorkflow (acc : ContextAnswer) (k_src_name k_tgt_name k_out_tkn : List UInt8) : Code :=
  if gssSupplementaryInfo acc.res ≠ 0 then
    .ret (.accepted 2 k_src_name k_tgt_name acc.timeRec (some .frame) k_out_tkn)
  else if acc.res = gssSComplete then
    mgDeleteSecContext acc.ctx
      (.ret (.accepted 1 k_src_name k_tgt_name acc.timeRec none k_out_tkn))
  else .ret (.accepted 1 k_src_name k_tgt_name acc.timeRec (some .frame) k_out_tkn)

def acceptPeer (acc : ContextAnswer) (k_src_name k_out_tkn : List UInt8) : Code :=
  .call (.inquireContext acc.ctx) fun err =>
    match err with
    | none => .ret (.krr "failed to retrieve peer data")
    | some (tgt_name, _) =>
        mgGetDisplayName (ptrOf tgt_name) fun k_tgt_name =>
          .call (.releaseName (ptrOf tgt_name)) fun _ =>
            match k_tgt_name with
            -- `k_tgt_name->n`
            | none => .undefined
            | some k_tgt_name => acceptWorkflow acc k_src_name k_tgt_name k_out_tkn

def acceptReply (acc : ContextAnswer) (k_src_name : List UInt8) (output_token : Output) : Code :=
  acceptToken acc.ctx output_token (acceptPeer acc k_src_name)

def mgAcceptSecContext1 (context_handle : Pointer) (input_token : List UInt8) : Code :=
  .call (.acceptSecContext context_handle input_token) fun acc =>
    if gssError acc.res then mgDeleteCtxReturnErrXs acc.ctx "failed in accept-sec-context"
    else
      mgGetDisplayName (ptrOf acc.srcName) fun k_src_name =>
        .call (.releaseName (ptrOf acc.srcName)) fun _ =>
          match k_src_name with
          -- `k_src_name->n`
          | none => .undefined
          | some k_src_name =>
              if acc.retFlags ≠ 0 ∧ acc.res &&& gssCProtReadyFlag ≠ 0 then
                mgValidate acc.res acc.ctx input_token acc.outputToken
                  (acceptReply acc k_src_name)
              else acceptReply acc k_src_name acc.outputToken

def decodeToken (token : List UInt8) (msg : String) (k : List UInt8 -> Code) : Code :=
  .call .malloc fun malloc =>
    match (base64Decode malloc token).result with
    | none => .ret (.krr msg)
    | some vec => k vec

def mgAcceptSecContext (k_token : KArg) : Code :=
  match k_token with
  | .chars token =>
      decodeToken token "failed in base64_decode\n" fun vec =>
        if vec.length = 0 then .ret (.krr "failed in base64_decode\n")
        else mgAcceptSecContext1 .null vec
  | _ => .ret (.krr "bad k_token.type")

/-!
## The initiator
-/

def mgImportName (k_name : List UInt8) (k : Option String -> Pointer -> Code) : Code :=
  .call (.importName k_name) fun res =>
    match res with
    | none => k (some "failed to import tgt_name") .null
    | some name => k none (ptrOf name)

def mgAcquireCred (k_name : List UInt8) (k : Option String -> Pointer -> Code) : Code :=
  mgImportName k_name fun k_err name =>
    if k_err ≠ none ∨ name = .null then k k_err .null
    else
      .call (.acquireCred name) fun res =>
        .call (.releaseName name) fun _ =>
          match res with
          | none => k (some "failed to acquire credentials") .null
          | some cred => k none (ptrOf cred)

/-- The output token as text; its buffer is released by what follows. -/
def initToken (output_token : Output) (k : List UInt8 -> Code) : Code :=
  match output_token with
  | none => k []
  | some (_, bytes) =>
      if bytes.length = 0 then k []
      else
        .call .malloc fun malloc =>
          match base64Encode malloc bytes with
          | none => .ret (.krr "failed in base64_encode")
          | some b64 => k b64

def mgReleaseBuffer (output_token : Output) (k : Code) : Code :=
  match output_token with
  | none => k
  | some (value, _) => .call (.releaseBuffer value) fun _ => k

def initWorkflow (d : InitDict) (res : UInt32) (k_peer_name : Option (List UInt8))
    (k_token : List UInt8) (ttl : UInt32) : Code :=
  if gssSupplementaryInfo res ≠ 0 ∧ res = gssSContinueNeeded then
    .ret (.initMore k_peer_name d k_token ttl)
  else
    .call (.releaseCred d.credHandle) fun _ =>
      .call (.releaseName d.tgtName) fun _ =>
        mgDeleteSecContext d.contextHandle (.ret (.initDone k_peer_name k_token))

def mgInitSecContext1 (d : InitDict) (input_token : Option (List UInt8)) : Code :=
  .call (.initSecContext d.credHandle d.contextHandle d.tgtName input_token d.reqFlags) fun ini =>
    if gssError ini.res then .ret (.krr "failed when continuing gss_init_sec_context")
    else
      .call (.inquireContext ini.ctx) fun err =>
        match err with
        | none => .ret (.krr "failed in inquire-service")
        | some (peer_name, ttl) =>
            mgGetDisplayName (ptrOf peer_name) fun k_peer_name =>
              .call (.releaseName (ptrOf peer_name)) fun _ =>
                initToken ini.outputToken fun k_token =>
                  mgReleaseBuffer ini.outputToken
                    (initWorkflow { d with contextHandle := ini.ctx } ini.res k_peer_name k_token
                      ttl)

/-- The loop over the keys; a value of another type is not looked at before it is read. -/
def importDict : List (String × DictVal) -> InitDict -> (InitDict -> Code) -> Code
  | [], d, k => k d
  | (key, val) :: kvs, d, k =>
      if key = "cred_handle" then
        match val with
        | .pointer ptr => importDict kvs { d with credHandle := ptr } k
        | .int _ => .undefined
      else if key = "context_handle" then
        match val with
        | .pointer ptr => importDict kvs { d with contextHandle := ptr } k
        | .int _ => .undefined
      else if key = "tgt_name" then
        match val with
        | .pointer ptr => importDict kvs { d with tgtName := ptr } k
        | .int _ => .undefined
      else if key = "req_flags" then
        match val with
        | .pointer _ => .undefined
        | .int i => importDict kvs { d with reqFlags := i } k
      else .ret (.krr "bad dict.key")

def mgInitSecContextCont (k_dict k_token : KArg) : Code :=
  match k_dict with
  | .dict kvs =>
      match k_token with
      | .chars token =>
          if token.length = 0 then .ret (.krr "bad token.type")
          else
            importDict kvs ⟨.null, .null, .null, 0⟩ fun d =>
              decodeToken token "failed to decode input-token" fun vec =>
                mgInitSecContext1 d (some vec)
      | _ => .ret (.krr "bad token.type")
  | _ => .ret (.krr "bad dict.type")

/-- The flags for confidentiality, integrity, replay and mutual authentication. -/
def defaultReqFlags : UInt32 := 16 ||| 32 ||| 4 ||| 2

def initWithCred (k_tgt_name : List UInt8) (cred_handle : Pointer) : Code :=
  mgImportName k_tgt_name fun k_err tgt_name =>
    match k_err with
    | some msg => .ret (.krr msg)
    | none =>
        if tgt_name = .null then .ret (.krr "failed to resolve target service")
        else mgInitSecContext1 ⟨cred_handle, .null, tgt_name, defaultReqFlags⟩ none

def mgInitSecContext (k_src_name k_tgt_name : KArg) : Code :=
  match k_src_name with
  | .chars src_name =>
      match k_tgt_name with
      | .chars tgt_name =>
          mgAcquireCred src_name fun k_err cred_handle =>
            match k_err with
            | some msg => .ret (.krr msg)
            | none =>
                if cred_handle = .null then
                  .ret (.krr "failed to acquire credentials for source principal")
                else initWithCred tgt_name cred_handle
      | _ => .ret (.krr "Bad k_tgt_name.type")
  | _ => .ret (.krr "Bad k_src_name.type")

end Gss
end MgKdb
