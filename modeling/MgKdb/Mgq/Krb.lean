import MgKdb.Foundation.Keyed
import MgKdb.Krb5.Custody
import MgKdb.Mgq.Session

/-!
# Kerberos over connections of q

A process that opens connections, and is connected to, has a table of both.  An outgoing connection
keeps the dictionary of its unfinished context until the peer has sent its token.  Rows are never
deleted when a connection is closed, so that a descriptor may come again.
-/

namespace MgKdb
namespace Krb

open Foundation
open Gss

inductive Dir where
  | O
  | I
  deriving DecidableEq, Repr

/--
A row of `.krb.conns`; `none` is a null.  The table has no `deleted`: it says that
the library has deleted the context of `ctx`.
-/
structure Conn where
  src : List UInt8
  tgt : List UInt8
  xpy : Option Int
  ctx : Option InitDict
  dir : Option Dir
  deleted : Bool

/-- The rows by descriptor, of which `none` is `0Ni`. -/
abbrev Conns := Keyed (Option Int) Conn

def Conns.init : Conns :=
  ⟨[(none, ⟨[], [], none, none, none, false⟩)], List.nodup_singleton _⟩

/-- The argument that a row has for the library: a null is no dictionary. -/
def Conn.ctxArg (row : Conn) : KArg :=
  match row.ctx with
  | none => .other
  | some d => mgInitCtxPointersToDict d

def Named : KResult -> Prop
  | .initMore peer _ _ _ => peer ≠ none
  | .initDone peer _ => peer ≠ none
  | _ => True

/-!
## The handlers
-/

/-- `hopen`: what opening a connection with a token gives, if it does not signal. -/
def kopen (conns : Conns) (S T : List UInt8) (hopen : List UInt8 -> Option Int) :
    KResult -> Conns
  | .initMore _ dict token _ =>
      match hopen token with
      | none => conns
      | some rfd => conns.upsert (some rfd) ⟨S, T, none, some dict, some .O, false⟩
  | _ => conns

/-- The row behind `onRemoteId`, with what is live afterwards. -/
def remoteId (row : Conn) (live : Multiset Handle) : KResult -> Conn
  | .initDone (some T) _ => { row with ctx := none, tgt := T }
  | .krr _ =>
      match row.ctx with
      | none => row
      | some d => { row with deleted := !decide (d.contextHandle.handles .ctx ≤ live) }
  | _ => row

/-- `time_rec`, as an integer of q. -/
def timeRec (V : UInt32) : Option Int :=
  if V = 0x80000000 then none else some V.toInt32.toInt

/-- `.z.pw` behind the accept; `now` is `.z.P`. -/
def zpw (conns : Conns) (cfd now : Int) : KResult -> Conns
  | .accepted workflow S T V _ _ =>
      if workflow = 1 then
        conns.upsert (some cfd) ⟨S, T, Web.ttlFromSecs now (timeRec V), none, some .I, false⟩
      else if workflow = 2 then conns.delete (some cfd)
      else conns
  | _ => conns

/-!
## Runs
-/

structure State where
  conns : Conns
  live : Multiset Handle

def State.init : State :=
  ⟨Conns.init, 0⟩

/-- A call of one of the handlers, and what the library answers to it. -/
inductive Call where
  | kopen (S T : List UInt8) (hopen : List UInt8 -> Option Int) (res : KResult)
  | onRemoteId (cfd : Int) (K : KArg) (res : KResult)
  | zpw (cfd now : Int) (K : KArg) (res : KResult)

/--
What may happen next: a connection is opened, a peer sends anything as its token, or a peer
connects.  The context of a row that is used has not been deleted.
-/
inductive Step (s : State) : Call -> State -> Prop where
  | kopen (S T : List UInt8) (hopen : List UInt8 -> Option Int) {res : KResult}
      {live' : Multiset Handle} (hnamed : Named res)
      (hends : (mgInitSecContext (.chars S) (.chars T)).Ends gssEffects s.live res live') :
      Step s (.kopen S T hopen res) ⟨kopen s.conns S T hopen res, live'⟩
  | onRemoteId (cfd : Int) {row : Conn} (hrow : s.conns.lookup (some cfd) = some row)
      (hdir : row.dir = some .O) (hkept : row.deleted = false) (K : KArg) {res : KResult}
      {live' : Multiset Handle} (hnamed : Named res)
      (hends : (mgInitSecContextCont row.ctxArg K).Ends gssEffects s.live res live') :
      Step s (.onRemoteId cfd K res)
        ⟨s.conns.upsert (some cfd) (remoteId row live' res), live'⟩
  | zpw (cfd now : Int) (K : KArg) {res : KResult} {live' : Multiset Handle}
      (hends : (mgAcceptSecContext K).Ends gssEffects s.live res live') :
      Step s (.zpw cfd now K res) ⟨zpw s.conns cfd now res, live'⟩

inductive Reaches (s : State) : State -> Prop where
  | refl : Reaches s s
  | step {s' s'' : State} {call : Call} (h : Reaches s s') (hstep : Step s' call s'') :
      Reaches s s''

inductive Runs : List Call -> State -> Prop where
  | init : Runs [] State.init
  | step {calls : List Call} {s s' : State} {call : Call} (h : Runs calls s)
      (hstep : Step s call s') : Runs (call :: calls) s'

end Krb
end MgKdb
