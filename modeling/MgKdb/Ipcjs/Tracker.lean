import MgKdb.Foundation.Ledger
import MgKdb.Foundation.Run
import MgKdb.Ipcjs.RoundTrip

/-!
# The request tracker

Each request that is sent carries an integer of its own, under which its callback waits for
the response that carries the same integer.
-/

namespace MgKdb
namespace Ipcjs

open Foundation

def utf16 (cs : List Char) : List UInt16 :=
  cs.map fun c => UInt16.ofNat c.toNat

def webRequest : List UInt16 :=
  utf16 ['.', 'w', 'e', 'b', '.', 'r', 'e', 'q', 'u', 'e', 's', 't']

def webResponse : List UInt16 :=
  utf16 ['.', 'w', 'e', 'b', '.', 'r', 'e', 's', 'p', 'o', 'n', 's', 'e']

inductive Thrown where
  | js (e : JsError)
  /-- A name that nothing declares. -/
  | reference (name : String)

structure KdbTracker (γ : Type) where
  isConnected : Bool
  queryId : Int
  queryTracker : Option Int -> Option γ

namespace KdbTracker

variable {γ : Type}

def new : KdbTracker γ where
  isConnected := false
  queryId := 1
  queryTracker := fun _ => none

end KdbTracker

/-!
## Responses
-/

structure Response where
  qid : Option Int
  isErr : Bool
  data : KdbType

def asResponse (msgType : Option Int) (msg : KdbType) : Option Response :=
  if msgType = some KdbMsgTyp.async then
    match msg with
    | .list [.atom .symbol fn, .atom .int qid, .atom .bool isErr, data] _ =>
        if fn = webResponse then some ⟨qid, isErr, data⟩ else none
    | _ => none
  else none

/-- What `onData` has done: the callback that was called, and what was thrown. -/
structure Handled (γ : Type) where
  tracker : KdbTracker γ
  called : Option (Response × γ)
  thrown : Option Thrown

/-- The callback is the last thing that is called, and may throw what it wants. -/
def KdbTracker.onData {γ : Type} (t : KdbTracker γ) (msgType : Option Int) (msg : KdbType) :
    Handled γ :=
  match asResponse msgType msg with
  | some r =>
      match t.queryTracker r.qid with
      | some cbk =>
          { tracker :=
              { t with queryTracker := Function.update t.queryTracker r.qid none }
            called := some (r, cbk)
            thrown := none }
      -- the warning names `val` where it means `qid.val`
      | none => { tracker := t, called := none, thrown := some (.reference "val") }
  | none => { tracker := t, called := none, thrown := none }

/-!
## Requests
-/

inductive Message where
  | array (ary : List KdbType)
  | object (x : KdbType)
  /-- Anything else, with what is thrown where it is used as an object. -/
  | other (e : JsError)

def toSpliced (ary : List KdbType) (qid : KdbType) : List KdbType :=
  ary.take 1 ++ qid :: ary.drop 1

namespace Message

def payload (qid : KdbType) : Message -> Except JsError KdbType
  | array ary => .ok (KdbType.newList (toSpliced ary qid) none)
  | object (.list ary att) => .ok (.list (toSpliced ary qid) att)
  | object x => .ok x
  | other e => .error e

/-- What the message is afterwards: `msg.ary` is assigned to. -/
def after (qid : KdbType) : Message -> Message
  | object (.list ary att) => object (.list (toSpliced ary qid) att)
  | msg => msg

def request (msg : Message) (qid : KdbType) : Except JsError (List UInt8) := do
  let msg ← msg.payload qid
  serialize KdbMsgTyp.async (KdbType.newList [newSymbolAtom webRequest, msg] none)

end Message

/--
What `sendRequest` has done: the tracker and the message afterwards, the id that was
taken, the callback that was registered, the bytes that were sent and what was thrown.
-/
structure Requested (γ : Type) where
  tracker : KdbTracker γ
  msg : Message
  issued : List (Option Int)
  registered : List (Option Int × γ)
  sent : Option (List UInt8)
  thrown : Option Thrown

/--
`sendRequest`, where `none` is a callback that is no function, and the socket may
throw.
-/
def KdbTracker.sendRequest {γ : Type} (t : KdbTracker γ) (msg : Message) (cbk : Option γ)
    (socket : Option Thrown) : Requested γ :=
  if t.isConnected = false then
    { tracker := t, msg, issued := [], registered := [], sent := none
      thrown := some (.js (.error "Not connected")) }
  else
    match cbk with
    | none =>
        { tracker := t, msg, issued := [], registered := [], sent := none
          thrown := some (.js (.typeError (some "Callback must be a function"))) }
    | some cbk =>
        let val := chkIsInt32 t.queryId
        let qid : KdbType := .atom .int val
        let next := { t with queryId := t.queryId + 1 }
        match msg.request qid, socket with
        | .error e, _ =>
            { tracker := next, msg := msg.after qid, issued := [val], registered := []
              sent := none, thrown := some (.js e) }
        | .ok _, some e =>
            { tracker := next, msg := msg.after qid, issued := [val], registered := []
              sent := none, thrown := some e }
        | .ok buf, none =>
            { tracker :=
                { next with queryTracker := Function.update t.queryTracker val (some cbk) }
              msg := msg.after qid
              issued := [val]
              registered := [(val, cbk)]
              sent := some buf
              thrown := none }

theorem KdbTracker.sendRequest_cases {γ : Type} (t : KdbTracker γ) (msg : Message)
    (cbk : Option γ) (socket : Option Thrown) :
    (exists e, t.sendRequest msg cbk socket = ⟨t, msg, [], [], none, some e⟩) ∨
      (exists e, t.sendRequest msg cbk socket =
        ⟨{ t with queryId := t.queryId + 1 }, msg.after (newIntAtom t.queryId),
          [chkIsInt32 t.queryId], [], none, some e⟩) ∨
      exists c buf, cbk = some c ∧ msg.request (newIntAtom t.queryId) = .ok buf ∧
        t.sendRequest msg cbk socket =
          ⟨⟨t.isConnected, t.queryId + 1,
              Function.update t.queryTracker (chkIsInt32 t.queryId) (some c)⟩,
            msg.after (newIntAtom t.queryId), [chkIsInt32 t.queryId],
            [(chkIsInt32 t.queryId, c)], some buf, none⟩ := by
  unfold sendRequest
  split
  · exact Or.inl ⟨_, rfl⟩
  · cases cbk with
    | none => exact Or.inl ⟨_, rfl⟩
    | some c =>
        refine Or.inr ?_
        simp only
        cases hbuf : msg.request (newIntAtom t.queryId) with
        | error e =>
            rw [newIntAtom] at hbuf
            rw [hbuf]
            exact Or.inl ⟨_, rfl⟩
        | ok buf =>
            rw [newIntAtom] at hbuf
            rw [hbuf]
            cases socket with
            | some e => exact Or.inl ⟨_, rfl⟩
            | none => exact Or.inr ⟨c, buf, rfl, rfl, rfl⟩

/-!
## Runs
-/

/-- What happens to a tracker: its socket opens or closes, a request is made, a message comes. -/
inductive Op (γ : Type) where
  | opened
  | closed
  | request (msg : Message) (cbk : Option γ) (socket : Option Thrown)
  | data (msgType : Option Int) (msg : KdbType)

namespace Op

variable {γ : Type}

/-- A callback that makes requests of its own makes them after the message. -/
def step (t : KdbTracker γ) : Op γ -> KdbTracker γ
  | opened => { t with isConnected := true }
  | closed => { t with isConnected := false }
  | request msg cbk socket => (t.sendRequest msg cbk socket).tracker
  | data msgType msg => (t.onData msgType msg).tracker

def isRequest : Op γ -> Bool
  | request _ _ _ => true
  | opened | closed | data _ _ => false

end Op

structure Watched (γ : Type) where
  tracker : KdbTracker γ
  ledger : Ledger (Option Int) γ

namespace Watched

variable {γ : Type}

def new : Watched γ := ⟨KdbTracker.new, Ledger.empty⟩

def entries (t : KdbTracker γ) (l : Ledger (Option Int) γ) : Op γ -> Ledger (Option Int) γ
  | .opened | .closed => l
  | .request msg cbk socket =>
      let out := t.sendRequest msg cbk socket
      { l with
        issued := out.issued ++ l.issued
        registered := out.registered ++ l.registered }
  | .data msgType msg =>
      match (t.onData msgType msg).called with
      | some (r, cbk) => { l with answered := (r.qid, cbk) :: l.answered }
      | none => l

def step (w : Watched γ) (op : Op γ) : Watched γ :=
  ⟨op.step w.tracker, entries w.tracker w.ledger op⟩

def run (ops : List (Op γ)) : Watched γ :=
  ops.foldl step new

structure InOrder (w : Watched γ) : Prop where
  next : 1 <= w.tracker.queryId
  taken : forall k, k ∈ w.ledger.issued ->
    exists n : Int, k = some n ∧ 1 <= n ∧ n < w.tracker.queryId
  orderly : w.ledger.Orderly w.tracker.queryTracker

theorem inOrder_new : (new : Watched γ).InOrder where
  next := Int.le_refl 1
  taken := by
    intro k hk
    cases hk
  orderly := Ledger.orderly_empty

theorem InOrder.fresh {w : Watched γ} (h : w.InOrder) :
    chkIsInt32 w.tracker.queryId = some w.tracker.queryId ∧
      some w.tracker.queryId ∉ w.ledger.issued := by
  have hnext := h.next
  refine ⟨orNull_of_ne (by omega), fun hmem => ?_⟩
  rcases h.taken _ hmem with ⟨n, heq, _, hlt⟩
  cases heq
  exact Int.lt_irrefl _ hlt

theorem InOrder.request {w : Watched γ} (h : w.InOrder) (msg : Message) (cbk : Option γ)
    (socket : Option Thrown) : (w.step (.request msg cbk socket)).InOrder := by
  have hnext := h.next
  rcases h.fresh with ⟨hid, hfresh⟩
  have htaken : forall k, k ∈ some w.tracker.queryId :: w.ledger.issued ->
      exists n : Int, k = some n ∧ 1 <= n ∧ n < w.tracker.queryId + 1 := by
    intro k hk
    rcases List.mem_cons.mp hk with rfl | hk
    · exact ⟨_, rfl, hnext, by omega⟩
    · rcases h.taken k hk with ⟨n, rfl, hpos, hlt⟩
      exact ⟨n, rfl, hpos, by omega⟩
  have hup : 1 <= w.tracker.queryId + 1 := by omega
  have hissued := h.orderly.issue hfresh
  rw [step, Op.step, entries]
  rcases w.tracker.sendRequest_cases msg cbk socket with
    ⟨e, hout⟩ | ⟨e, hout⟩ | ⟨c, buf, _, _, hout⟩
  · rw [hout]
    exact h
  · rw [hout, hid]
    exact ⟨hup, htaken, hissued⟩
  · rw [hout, hid]
    refine ⟨hup, htaken, ?_⟩
    exact hissued.register c List.mem_cons_self (h.orderly.fresh hfresh).left

theorem InOrder.data {w : Watched γ} (h : w.InOrder) (msgType : Option Int) (msg : KdbType) :
    (w.step (.data msgType msg)).InOrder := by
  rw [step, Op.step, entries, KdbTracker.onData]
  cases asResponse msgType msg with
  | none => exact h
  | some r =>
      cases hcbk : w.tracker.queryTracker r.qid with
      | none =>
          simp only [hcbk]
          exact h
      | some cbk =>
          simp only [hcbk]
          exact ⟨h.next, h.taken, h.orderly.answer hcbk⟩

theorem InOrder.step {w : Watched γ} (h : w.InOrder) (op : Op γ) : (w.step op).InOrder := by
  cases op with
  | opened => exact ⟨h.next, h.taken, h.orderly⟩
  | closed => exact ⟨h.next, h.taken, h.orderly⟩
  | request msg cbk socket => exact h.request msg cbk socket
  | data msgType msg => exact h.data msgType msg

theorem inOrder_run (ops : List (Op γ)) : (run ops).InOrder :=
  foldl_of_inv InOrder (fun _ op h => h.step op) ops new inOrder_new

theorem onData_queryId (t : KdbTracker γ) (msgType : Option Int) (msg : KdbType) :
    (t.onData msgType msg).tracker.queryId = t.queryId := by
  unfold KdbTracker.onData
  split
  · split <;> rfl
  · rfl

theorem queryId_step (w : Watched γ) (op : Op γ) :
    (w.step op).tracker.queryId <= w.tracker.queryId + (if op.isRequest then 1 else 0) := by
  have hsame : w.tracker.queryId <= w.tracker.queryId + 0 := by omega
  have hup : w.tracker.queryId <= w.tracker.queryId + 1 := by omega
  cases op with
  | opened => exact hsame
  | closed => exact hsame
  | request msg cbk socket =>
      rw [step, Op.step]
      rcases w.tracker.sendRequest_cases msg cbk socket with
        ⟨e, hout⟩ | ⟨e, hout⟩ | ⟨c, buf, _, _, hout⟩
      · rw [hout]
        exact hup
      · rw [hout]
        exact Int.le_refl _
      · rw [hout]
        exact Int.le_refl _
  | data msgType msg =>
      show (w.tracker.onData msgType msg).tracker.queryId <= _
      rw [onData_queryId]
      exact hsame

theorem queryId_run (ops : List (Op γ)) :
    (run ops).tracker.queryId <= 1 + ops.countP Op.isRequest := by
  induction ops using List.reverseRecOn with
  | nil => exact Int.le_refl 1
  | append_singleton ops op ih =>
      have hstep := queryId_step (run ops) op
      rw [run, List.foldl_append, List.countP_append]
      change ((run ops).step op).tracker.queryId <= _
      rw [List.countP_singleton]
      split at hstep <;> rename_i hop
      · rw [if_pos hop]
        omega
      · rw [if_neg hop]
        omega

/-- A request that can be sent is sent with an id of its own, under which its callback waits. -/
structure Sends (w : Watched γ) (msg : Message) (cbk : γ) (buf : List UInt8) : Prop where
  sent : (w.tracker.sendRequest msg (some cbk) none).sent = some buf ∧
    (w.tracker.sendRequest msg (some cbk) none).thrown = none
  fresh : some w.tracker.queryId ∉ w.ledger.issued
  ledger : (w.step (.request msg (some cbk) none)).ledger =
    { w.ledger with
      issued := some w.tracker.queryId :: w.ledger.issued
      registered := (some w.tracker.queryId, cbk) :: w.ledger.registered }
  table : (w.step (.request msg (some cbk) none)).tracker.queryTracker =
    Function.update w.tracker.queryTracker (some w.tracker.queryId) (some cbk)

structure Matched (w : Watched γ) : Prop where
  sends : forall msg cbk buf, w.tracker.isConnected = true ->
    msg.request (newIntAtom w.tracker.queryId) = .ok buf -> w.Sends msg cbk buf
  /-- A request that sends nothing registers nothing. -/
  unsent : forall msg cbk socket, (w.tracker.sendRequest msg cbk socket).sent = none ->
    (w.step (.request msg cbk socket)).ledger.registered = w.ledger.registered ∧
      (w.step (.request msg cbk socket)).tracker.queryTracker = w.tracker.queryTracker
  /-- No id is given twice, nor are the four bytes of one sent for another. -/
  distinct : w.ledger.issued.Pairwise fun i j =>
    i ≠ j ∧ i32Bytes (i.getD 0) ≠ i32Bytes (j.getD 0)
  keys : (w.ledger.registered.map Prod.fst).Nodup ∧
    forall e, e ∈ w.ledger.registered -> e.1 ∈ w.ledger.issued
  /-- A callback is called with a response that carries the id it was registered under. -/
  own : forall e, e ∈ w.ledger.answered -> e ∈ w.ledger.registered
  once : (w.ledger.answered.map Prod.fst).Nodup
  /-- A response to no request, or to one that has been answered, calls nothing. -/
  strange : forall msgType msg r, asResponse msgType msg = some r ->
    r.qid ∉ w.ledger.registered.map Prod.fst ∨ r.qid ∈ w.ledger.answered.map Prod.fst ->
      (w.tracker.onData msgType msg).called = none ∧
        (w.tracker.onData msgType msg).tracker = w.tracker
  waiting : forall e, e ∈ w.ledger.registered -> e.1 ∉ w.ledger.answered.map Prod.fst ->
    w.tracker.queryTracker e.1 = some e.2
  /-- The first response to a request calls its callback. -/
  answers : forall msgType msg r e, asResponse msgType msg = some r ->
    e ∈ w.ledger.registered -> e.1 = r.qid -> e.1 ∉ w.ledger.answered.map Prod.fst ->
      (w.tracker.onData msgType msg).called = some (r, e.2)

theorem i32Bytes_inj {m n : Int} (hm : Fits 32 m) (hn : Fits 32 n)
    (h : i32Bytes m = i32Bytes n) : m = n := by
  rw [i32Bytes_eq, i32Bytes_eq] at h
  have hword : BitVec.ofInt 32 m = BitVec.ofInt 32 n := by
    have hleft := wordAt_wordBytes_append 4 (BitVec.ofInt 32 m) []
    rw [h, wordAt_wordBytes_append] at hleft
    exact hleft.symm
  rw [<- toInt_ofInt (by decide) hm, hword, toInt_ofInt (by decide) hn]

theorem InOrder.sends {w : Watched γ} (h : w.InOrder) {msg : Message} (cbk : γ)
    {buf : List UInt8} (hopen : w.tracker.isConnected = true)
    (hbuf : msg.request (newIntAtom w.tracker.queryId) = .ok buf) : w.Sends msg cbk buf := by
  rcases h.fresh with ⟨hid, hfresh⟩
  have hout : w.tracker.sendRequest msg (some cbk) none =
      ⟨⟨w.tracker.isConnected, w.tracker.queryId + 1,
          Function.update w.tracker.queryTracker (some w.tracker.queryId) (some cbk)⟩,
        msg.after (newIntAtom w.tracker.queryId), [some w.tracker.queryId],
        [(some w.tracker.queryId, cbk)], some buf, none⟩ := by
    rw [newIntAtom, hid] at hbuf
    simp only [KdbTracker.sendRequest, hopen, Bool.true_eq_false, if_false, newIntAtom, hid,
      hbuf]
  refine ⟨?_, hfresh, ?_, ?_⟩
  · rw [hout]
    exact ⟨rfl, rfl⟩
  · rw [Watched.step, entries, hout]
    rfl
  · rw [Watched.step, Op.step, hout]

theorem unsent {w : Watched γ} {msg : Message} {cbk : Option γ} {socket : Option Thrown}
    (h : (w.tracker.sendRequest msg cbk socket).sent = none) :
    (w.step (.request msg cbk socket)).ledger.registered = w.ledger.registered ∧
      (w.step (.request msg cbk socket)).tracker.queryTracker = w.tracker.queryTracker := by
  rw [step, Op.step, entries]
  rcases w.tracker.sendRequest_cases msg cbk socket with
    ⟨e, hout⟩ | ⟨e, hout⟩ | ⟨c, buf, _, _, hout⟩
  · rw [hout]
    exact ⟨rfl, rfl⟩
  · rw [hout]
    exact ⟨rfl, rfl⟩
  · rw [hout] at h
    cases h

theorem InOrder.matched {w : Watched γ} (h : w.InOrder) (hfew : w.tracker.queryId <= 2 ^ 31) :
    w.Matched where
  sends := fun _ cbk _ hopen hbuf => h.sends cbk hopen hbuf
  unsent := fun _ _ _ hnone => unsent hnone
  distinct := by
    refine h.orderly.issued.imp_of_mem ?_
    intro i j hi hj hne
    refine ⟨hne, fun hbytes => hne ?_⟩
    rcases h.taken i hi with ⟨m, rfl, hm, hm'⟩
    rcases h.taken j hj with ⟨n, rfl, hn, hn'⟩
    have hfits : forall k : Int, 1 <= k -> k < w.tracker.queryId -> Fits 32 k := by
      intro k hk hk'
      unfold Fits
      omega
    exact congrArg some (i32Bytes_inj (hfits m hm hm') (hfits n hn hn') hbytes)
  keys := ⟨h.orderly.keys, h.orderly.known⟩
  own := h.orderly.own
  once := h.orderly.once
  strange := by
    intro msgType msg r hr hclosed
    rw [KdbTracker.onData, hr]
    simp only [h.orderly.closed hclosed]
    exact ⟨trivial, trivial⟩
  waiting := fun e he hopen => (h.orderly.waiting e.1 e.2).mpr ⟨he, hopen⟩
  answers := by
    intro msgType msg r e hr he hid hopen
    have hwaits := (h.orderly.waiting e.1 e.2).mpr ⟨he, hopen⟩
    rw [hid] at hwaits
    rw [KdbTracker.onData, hr]
    simp only [hwaits]

/--
Whatever requests are made and whatever messages come, in any order: the ids are distinct,
each request that is sent registers its callback, and the callback waits for the response
with its id and is called at most once, by it.
-/
theorem matched_run (ops : List (Op γ)) (h : ops.countP Op.isRequest < 2 ^ 31) :
    (run ops).Matched := by
  have hle := queryId_run ops
  exact (inOrder_run ops).matched (by omega)

/-- A request is answered, the answer comes again, and there is a response to no request. -/
def answeredTwice : List (Op Unit) :=
  [.opened, .request (.array [newSymbolAtom [102], newBoolAtom true]) (some ()) none,
    .data (some 0) (response 1), .data (some 0) (response 1), .data (some 0) (response 7)]
where
  response (id : Int) : KdbType :=
    .list [newSymbolAtom webResponse, newIntAtom id, newBoolAtom false, newLongAtom 5] 0

theorem matched_run_answeredTwice : (run answeredTwice).Matched :=
  matched_run answeredTwice (by decide)

/-!
## Unexpected messages
-/

/-- `onData` calls the callback that waits or leaves the table as it is, and does not
throw. -/
def Undisturbed (w : Watched γ) : Op γ -> Prop
  | .data msgType msg =>
      let out := w.tracker.onData msgType msg
      ((exists r cbk, asResponse msgType msg = some r ∧
          w.tracker.queryTracker r.qid = some cbk ∧ out.called = some (r, cbk)) ∨
        (out.called = none ∧ out.tracker.queryTracker = w.tracker.queryTracker)) ∧
      out.thrown = none
  | .opened | .closed | .request _ _ _ => True

/-- If the message is a response, its id is that of a request that has not been answered. -/
def Awaited (w : Watched γ) : Op γ -> Prop
  | .data msgType msg =>
      forall r, asResponse msgType msg = some r ->
        r.qid ∈ w.ledger.registered.map Prod.fst ∧ r.qid ∉ w.ledger.answered.map Prod.fst
  | .opened | .closed | .request _ _ _ => True

theorem InOrder.undisturbed_data {w : Watched γ} (h : w.InOrder) (msgType : Option Int)
    (msg : KdbType) :
    w.Undisturbed (.data msgType msg) <-> w.Awaited (.data msgType msg) := by
  rw [Undisturbed, Awaited, KdbTracker.onData]
  cases hr : asResponse msgType msg with
  | none => exact iff_of_true ⟨Or.inr ⟨rfl, rfl⟩, rfl⟩ (fun r hr' => by cases hr')
  | some r =>
      cases hcbk : w.tracker.queryTracker r.qid with
      | none =>
          simp only [hcbk]
          refine iff_of_false (fun hcalm => by cases hcalm.right) (fun hawaited => ?_)
          rcases hawaited r rfl with ⟨hin, hopen⟩
          rcases List.mem_map.mp hin with ⟨e, he, hkey⟩
          have hwaits := (h.orderly.waiting e.1 e.2).mpr ⟨he, hkey ▸ hopen⟩
          rw [hkey, hcbk] at hwaits
          cases hwaits
      | some cbk =>
          simp only [hcbk]
          rcases (h.orderly.waiting r.qid cbk).mp hcbk with ⟨hin, hopen⟩
          refine iff_of_true ⟨Or.inl ⟨r, cbk, rfl, hcbk, rfl⟩, trivial⟩ ?_
          intro r' hr'
          cases hr'
          exact ⟨List.mem_map_of_mem hin, hopen⟩

theorem InOrder.undisturbed {w : Watched γ} (h : w.InOrder) (op : Op γ) :
    w.Undisturbed op <-> w.Awaited op := by
  cases op with
  | data msgType msg => exact h.undisturbed_data msgType msg
  | opened => exact Iff.rfl
  | closed => exact Iff.rfl
  | request msg cbk socket => exact Iff.rfl

/--
No message of a run disturbs the tracker exactly when each response is the first one to a
request that was made; messages of all other types and shapes are left alone.
-/
theorem undisturbed_iff (ops : List (Op γ)) :
    Along step Undisturbed new ops <-> Along step Awaited new ops :=
  along_iff InOrder (fun _ op _ h => h.undisturbed op) (fun _ op _ h _ => h.step op) new
    inOrder_new

/-- The answer that comes again throws, as does the response to no request. -/
theorem undisturbed_again :
    ((run (answeredTwice.take 3)).tracker.onData (some 0) (answeredTwice.response 1)).thrown =
        some (.reference "val") ∧
      ((new : Watched Unit).tracker.onData (some 0) (answeredTwice.response 7)).thrown =
        some (.reference "val") ∧
      ¬ Along step Undisturbed new answeredTwice := by
  refine ⟨rfl, rfl, ?_⟩
  rintro ⟨_, _, _, hagain, _⟩
  cases hagain.right

end Watched

end Ipcjs
end MgKdb
