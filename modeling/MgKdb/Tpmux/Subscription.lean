import MgKdb.Tpmux.Receiving
import MgKdb.Tpmux.Subscribing

/-!
# A subscription from its first call to its end

`subscribe` awaits the four coroutines one after the other.  Nobody comes after it, so
that whatever it leaves behind is left for good.
-/

namespace MgKdb

open Foundation

inductive SubscribeEnd where
  | noConnection (err : ErrnoMsg)
  | noLogin (err : ErrnoMsg)
  | noReplay (err : ErrnoMsg)
  | received (replayed : Bool) (res : ReceiveResult)
  deriving DecidableEq, Repr

/-- What `subscribe` returns. -/
def SubscribeEnd.value : SubscribeEnd -> Int
  | noConnection err => err.errNum
  | _ => -1

structure SubscribeEnv where
  service : List UInt8
  username : List UInt8
  tables : List (List UInt8)
  counts : TpMsgCounts
  request : SubRequest
  read : ReadMessageEnv

namespace Subscription

def localhost : List UInt8 :=
  [108, 111, 99, 97, 108, 104, 111, 115, 116]

def receive (fd : Nat) (env : SubscribeEnv) (replayed : Bool) (counts : TpMsgCounts) :
    Coroutine IoCall IoCall.Answer UInt32 SubscribeEnd :=
  (kdbReadTcpMessagesCo fd env.tables counts).bind fun res =>
    .straight (.ret (.received replayed res))

/--
What follows the replay.  If that has thrown, its result is the default value, which is not
an error.
-/
def afterReplay (env : SubscribeEnv) (fd : Nat) :
    ReplayResult -> Coroutine IoCall IoCall.Answer UInt32 SubscribeEnd
  | .error err => .straight (.ret (.noReplay err))
  | .ok counts => receive fd env true counts
  | .threw => receive fd env false env.counts

def afterLogin (env : SubscribeEnv) (fd : Nat) :
    Except ErrnoMsg UInt8 -> Coroutine IoCall IoCall.Answer UInt32 SubscribeEnd
  | .error err => .straight (.ret (.noLogin err))
  | .ok _ => (kdbSubscribeAndReplayCo env.read fd env.request env.counts).bind (afterReplay env fd)

def afterConnect (env : SubscribeEnv) :
    Except ErrnoMsg TcpConn -> Coroutine IoCall IoCall.Answer UInt32 SubscribeEnd
  | .error err => .straight (.ret (.noConnection err))
  | .ok conn => (kdbConnectCo conn.sockFd env.username).bind (afterLogin env conn.sockFd)

end Subscription

def subscribeCo (env : SubscribeEnv) : Coroutine IoCall IoCall.Answer UInt32 SubscribeEnd :=
  (tcpConnect Subscription.localhost env.service).bind (Subscription.afterConnect env)

/-!
## What is left behind
-/

/-- The ends at which epoll is left with the address of an awaiter that is gone. -/
def SubscribeEnd.Dangles : SubscribeEnd -> Prop
  | noConnection err => err.msg ∈ keepsEventAwaiter
  | noLogin err => err.msg ≠ "Failed to EpollCtl::add_interest"
  | noReplay _ => False
  | received _ .closed => False
  | received _ .threw => True
  | received _ (.error err) => err.msg ≠ "Failed in EpollCtl::add_interest"

def SubscribeEnd.KeepsOpen : SubscribeEnd -> Prop
  | noConnection err => err.msg ∈ keepsEventFd
  | noLogin _ => True
  | noReplay err => err.msg = ReadMessage.filterFailed
  | received replayed res => replayed = true ∨ res ≠ .closed

namespace Subscription

structure Leaves (res : SubscribeEnd) (r : Holding) : Prop where
  awaiter : r.awaiter = none
  dangles : (exists fd a, r.fds fd = some (some a)) <-> res.Dangles
  keepsOpen : (exists fd, r.fds fd ≠ none) <-> res.KeepsOpen

/-- A wait for a descriptor that is watched, unless a write to the journal has failed. -/
inductive Waits (r : Holding) : Prop where
  | watched (fd a : Nat) (haw : r.awaiter = some a) (hfd : r.fds fd = some (some a))
      (honly : forall fd' a', r.fds fd' = some (some a') -> fd' = fd ∧ a' = a)
      (hjnl : r.jnlFailed = false)
  | lost (hnone : forall fd a, r.fds fd ≠ some (some a)) (hjnl : r.jnlFailed = true)

def Unwatched (fds : FdTable Nat) : Prop :=
  forall fd a, fds fd ≠ some (some a)

theorem unwatched_none : Unwatched Holding.none.fds := by
  intro fd a h
  cases h

theorem unwatched_journalOnly (src_fd : Nat) : Unwatched (Subscribing.journalOnly src_fd) := by
  intro fd a h
  change Function.update (fun _ => none : FdTable Nat) src_fd (some none) fd = some (some a) at h
  rw [Function.update_apply] at h
  split at h
  · cases h
  · cases h

theorem journalOnly_open (src_fd : Nat) : Subscribing.journalOnly src_fd src_fd ≠ none := by
  change Function.update (fun _ => none : FdTable Nat) src_fd (some none) src_fd ≠ none
  rw [Function.update_self]
  exact Option.some_ne_none none

section One

variable {rest : FdTable Nat} {fd : Nat} {w aw : Option Nat} {jf : Bool}

theorem one_fds_self : (Holding.one rest fd w aw jf).fds fd = some w := by
  change Function.update rest fd (some w) fd = some w
  rw [Function.update_self]

theorem one_open : exists fd', (Holding.one rest fd w aw jf).fds fd' ≠ none :=
  ⟨fd, fun h => by rw [one_fds_self] at h; cases h⟩

theorem one_watched (hrest : Unwatched rest) {fd' a' : Nat}
    (h : (Holding.one rest fd w aw jf).fds fd' = some (some a')) : fd' = fd ∧ w = some a' := by
  change Function.update rest fd (some w) fd' = some (some a') at h
  rw [Function.update_apply] at h
  split at h
  · rename_i hfd
    exact ⟨hfd, Option.some.inj h⟩
  · exact absurd h (hrest fd' a')

theorem one_watched_iff (hrest : Unwatched rest) :
    (exists fd' a', (Holding.one rest fd w aw jf).fds fd' = some (some a')) <-> w ≠ none := by
  constructor
  · rintro ⟨fd', a', h⟩
    rw [(one_watched hrest h).right]
    exact Option.some_ne_none a'
  · intro hw
    rcases Option.ne_none_iff_exists'.mp hw with ⟨a, rfl⟩
    exact ⟨fd, a, one_fds_self⟩

theorem waits_one (hrest : Unwatched rest) (a : Nat) :
    Waits (.one rest fd (some a) (some a) false) := by
  refine Waits.watched fd a rfl one_fds_self (fun fd' a' h => ?_) rfl
  rcases one_watched hrest h with ⟨hfd, ha⟩
  exact ⟨hfd, (Option.some.inj ha).symm⟩

end One

theorem leaves_noConnection {err : ErrnoMsg} {r : Holding}
    (h : TcpConnect.Leaves (.error err) r) : Leaves (.noConnection err) r := by
  cases h with
  | nothing e msg hmsg =>
      refine ⟨rfl, iff_of_false ?_ ?_, iff_of_false ?_ hmsg⟩
      · rintro ⟨fd, a, hfd⟩
        exact unwatched_none fd a hfd
      · exact fun hdangles => hmsg (List.mem_cons_of_mem _ hdangles)
      · rintro ⟨fd, hfd⟩
        exact hfd rfl
  | eventFd e msg event_fd hmsg haw =>
      refine ⟨rfl, (one_watched_iff unwatched_none).trans (iff_of_false ?_ haw),
        iff_of_true one_open hmsg⟩
      exact fun hne => hne rfl
  | dangling e msg event_fd a hmsg =>
      refine ⟨rfl, (one_watched_iff unwatched_none).trans (iff_of_true ?_ hmsg),
        iff_of_true one_open (List.mem_cons_of_mem _ hmsg)⟩
      exact Option.some_ne_none a

theorem leaves_noLogin {fd : Nat} {err : ErrnoMsg} {r : Holding}
    (h : KdbConnect.Leaves fd (.error err) r) : Leaves (.noLogin err) r := by
  cases h with
  | unwatched e =>
      refine ⟨rfl, (one_watched_iff unwatched_none).trans (iff_of_false ?_ ?_),
        iff_of_true one_open trivial⟩
      · exact fun hne => hne rfl
      · exact fun hne => hne rfl
  | dangling e msg a hmsg =>
      refine ⟨rfl, (one_watched_iff unwatched_none).trans (iff_of_true ?_ hmsg),
        iff_of_true one_open trivial⟩
      exact Option.some_ne_none a

theorem leaves_noReplay {fd : Nat} {err : ErrnoMsg} {r : Holding}
    (h : Subscribing.Leaves fd (.error err) r) : Leaves (.noReplay err) r := by
  cases h with
  | closed err hmsg =>
      refine ⟨rfl, iff_of_false ?_ id, iff_of_false ?_ hmsg⟩
      · rintro ⟨fd, a, hfd⟩
        exact unwatched_none fd a hfd
      · rintro ⟨fd, hfd⟩
        exact hfd rfl
  | journal e src_fd =>
      refine ⟨rfl, iff_of_false ?_ id, iff_of_true ⟨src_fd, journalOnly_open src_fd⟩ rfl⟩
      rintro ⟨fd, a, hfd⟩
      exact unwatched_journalOnly src_fd fd a hfd

theorem leaves_received {rest : FdTable Nat} {fd : Nat} {replayed : Bool} {res : ReceiveResult}
    {r : Holding} (hrest : Unwatched rest) (hopen : (exists fd, rest fd ≠ none) <-> replayed = true)
    (h : Receiving.Leaves rest fd res r) : Leaves (.received replayed res) r := by
  cases h with
  | closed =>
      refine ⟨rfl, iff_of_false ?_ id, hopen.trans ?_⟩
      · rintro ⟨fd', a, hfd⟩
        exact hrest fd' a hfd
      · exact ⟨Or.inl, fun hkeeps => hkeeps.resolve_right (fun hne => hne rfl)⟩
  | unwatched e =>
      refine ⟨rfl, (one_watched_iff hrest).trans (iff_of_false ?_ ?_),
        iff_of_true one_open (Or.inr ?_)⟩
      · exact fun hne => hne rfl
      · exact fun hne => hne rfl
      · exact fun heq => by cases heq
  | signal e a =>
      refine ⟨rfl, (one_watched_iff hrest).trans (iff_of_true (Option.some_ne_none a) ?_),
        iff_of_true one_open (Or.inr ?_)⟩
      · change "error signal from epoll-revents" ≠ "Failed in EpollCtl::add_interest"
        decide
      · exact fun heq => by cases heq
  | threw a =>
      refine ⟨rfl, (one_watched_iff hrest).trans (iff_of_true (Option.some_ne_none a) trivial),
        iff_of_true one_open (Or.inr ?_)⟩
      exact fun heq => by cases heq

/-!
## The contract
-/

/-- A call that is not in order comes behind a write to the journal that has failed. -/
def endContract : Contract PEmpty SubscribeEnd Holding where
  ret := Leaves
  wait := fun s => s.elim
  goto := fun s => s.elim
  stray := fun r => r.jnlFailed = true

def replayedContract (fd : Nat) : Contract ReceiveAt ReceiveResult Holding :=
  Contract.some fun src_fd : { src_fd : Nat // src_fd ≠ fd } =>
    Receiving.contract (Subscribing.journalOnly src_fd) fd

def receiveContract (fd : Nat) (env : SubscribeEnv) (replayed : Bool) (counts : TpMsgCounts)
    (P : Contract ReceiveAt ReceiveResult Holding) :
    Contract (receive fd env replayed counts).State SubscribeEnd Holding :=
  Coroutine.bindContract P (fun _ => endContract) Leaves (fun r => r.jnlFailed = true)

def replayContract (env : SubscribeEnv) (fd : Nat) :
    (res : ReplayResult) -> Contract (afterReplay env fd res).State SubscribeEnd Holding
  | .error _ => endContract
  | .ok counts => receiveContract fd env true counts (replayedContract fd)
  | .threw => receiveContract fd env false env.counts (Receiving.contract Holding.none.fds fd)

def loginContract (env : SubscribeEnv) (fd : Nat) :
    (res : Except ErrnoMsg UInt8) -> Contract (afterLogin env fd res).State SubscribeEnd Holding
  | .error _ => endContract
  | .ok _ =>
      Coroutine.bindContract (Subscribing.contract env.read fd env.request env.counts)
        (replayContract env fd) Leaves (fun r => r.jnlFailed = true)

def connectContract (env : SubscribeEnv) :
    (res : Except ErrnoMsg TcpConn) -> Contract (afterConnect env res).State SubscribeEnd Holding
  | .error _ => endContract
  | .ok conn =>
      Coroutine.bindContract (KdbConnect.contract conn.sockFd) (loginContract env conn.sockFd)
        Leaves (fun r => r.jnlFailed = true)

def contract (env : SubscribeEnv) : Contract (subscribeCo env).State SubscribeEnd Holding :=
  Coroutine.bindContract TcpConnect.contract (connectContract env) Leaves
    (fun r => r.jnlFailed = true)

theorem keeps_receive {fd : Nat} (env : SubscribeEnv) {replayed : Bool} (counts : TpMsgCounts)
    {Pre : Holding -> Prop} {P : Contract ReceiveAt ReceiveResult Holding}
    (hkeeps : (kdbReadTcpMessagesCo fd env.tables counts).Keeps ioEffects Pre P)
    (hret : forall res r, P.ret res r -> Leaves (.received replayed res) r)
    (hstray : forall r, P.stray r -> r.jnlFailed = true) :
    (receive fd env replayed counts).Keeps ioEffects Pre
      (receiveContract fd env replayed counts P) :=
  hkeeps.bind (fun res => Coroutine.keeps_straight fun r hr => hret res r hr)
    (fun _ _ _ h => h) hstray (fun _ _ h => h)

theorem keeps_afterReplay (env : SubscribeEnv) (fd : Nat) (res : ReplayResult) :
    (afterReplay env fd res).Keeps ioEffects (Subscribing.Leaves fd res)
      (replayContract env fd res) := by
  cases res with
  | error err => exact Coroutine.keeps_straight fun r hr => leaves_noReplay hr
  | ok counts =>
      refine Coroutine.Keeps.imp (R := fun r => exists src_fd : { src_fd : Nat // src_fd ≠ fd },
        r = .one (Subscribing.journalOnly src_fd) fd none none false) ?_ ?_
      · intro r hr
        cases hr with
        | replayed _ src_fd hne => exact ⟨⟨src_fd, hne⟩, rfl⟩
      · refine keeps_receive env counts (Coroutine.Keeps.some fun src_fd => ?_) ?_ ?_
        · exact Receiving.keeps (Function.update_of_ne src_fd.property.symm _ _)
            (unwatched_journalOnly src_fd) env.tables counts
        · rintro res r ⟨src_fd, hr⟩
          refine leaves_received (unwatched_journalOnly src_fd) ?_ hr
          exact iff_of_true ⟨src_fd, journalOnly_open src_fd⟩ rfl
        · rintro r ⟨src_fd, hr⟩
          exact hr
  | threw =>
      refine Coroutine.Keeps.imp (R := fun r => r = .one Holding.none.fds fd none none false)
        ?_ ?_
      · intro r hr
        cases hr
        rfl
      · refine keeps_receive env env.counts
          (Receiving.keeps rfl unwatched_none env.tables env.counts) ?_ (fun _ h => h)
        intro res r hr
        refine leaves_received unwatched_none (iff_of_false ?_ Bool.false_ne_true) hr
        rintro ⟨fd', hfd⟩
        exact hfd rfl

theorem keeps_afterLogin (env : SubscribeEnv) (fd : Nat) (res : Except ErrnoMsg UInt8) :
    (afterLogin env fd res).Keeps ioEffects (KdbConnect.Leaves fd res)
      (loginContract env fd res) := by
  cases res with
  | error err => exact Coroutine.keeps_straight fun r hr => leaves_noLogin hr
  | ok lvl =>
      refine Coroutine.Keeps.imp (R := fun r => r = .only fd none none) ?_ ?_
      · intro r hr
        cases hr
        rfl
      · refine (Subscribing.keeps env.read fd env.request env.counts).bind
          (fun res => keeps_afterReplay env fd res) (fun res b r hr => ?_) (fun _ h => h.elim)
          (fun res r hr => ?_)
        · cases res <;> exact hr
        · cases res <;> exact hr

theorem keeps_afterConnect (env : SubscribeEnv) (res : Except ErrnoMsg TcpConn) :
    (afterConnect env res).Keeps ioEffects (TcpConnect.Leaves res)
      (connectContract env res) := by
  cases res with
  | error err => exact Coroutine.keeps_straight fun r hr => leaves_noConnection hr
  | ok conn =>
      refine Coroutine.Keeps.imp (R := fun r => r = .only conn.sockFd none none) ?_ ?_
      · intro r hr
        cases hr
        rfl
      · refine (KdbConnect.keeps conn.sockFd env.username).bind
          (fun res => keeps_afterLogin env conn.sockFd res) (fun res b r hr => ?_)
          (fun _ h => h.elim) (fun res r hr => ?_)
        · cases res <;> exact hr
        · cases res <;> exact hr

theorem keeps (env : SubscribeEnv) :
    (subscribeCo env).Keeps ioEffects (fun r => r = .none) (contract env) := by
  refine (TcpConnect.keeps localhost env.service).bind (fun res => keeps_afterConnect env res)
    (fun res b r hr => ?_) (fun _ h => h.elim) (fun res r hr => ?_)
  · cases res <;> exact hr
  · cases res <;> exact hr

/-!
## The waits
-/

theorem waits_receiving {rest : FdTable Nat} {fd : Nat} (hrest : Unwatched rest) (s : ReceiveAt)
    (r : Holding) (h : (Receiving.contract rest fd).wait s r) : Waits r := by
  cases s with
  | outer st =>
      cases h with
      | watched a => exact waits_one hrest a
      | lost a => exact Waits.lost hrest rfl
  | inner st => exact h.elim

theorem waits_watches {fd : Nat} {r : Holding} (h : KdbConnect.Watches fd r) : Waits r := by
  rcases h with ⟨a, rfl⟩
  exact waits_one unwatched_none a

theorem waits_replay (env : SubscribeEnv) (fd : Nat) (res : ReplayResult)
    (s : (afterReplay env fd res).State) (r : Holding)
    (h : (replayContract env fd res).wait s r) : Waits r := by
  cases res with
  | error err => exact s.elim
  | ok counts =>
      refine Coroutine.wait_bindContract (W := Waits) ?_ ?_ s r h
      · rintro s r ⟨src_fd, hr⟩
        exact waits_receiving (unwatched_journalOnly src_fd) s r hr
      · rintro _ ⟨⟩
  | threw =>
      refine Coroutine.wait_bindContract (W := Waits) ?_ ?_ s r h
      · exact waits_receiving unwatched_none
      · rintro _ ⟨⟩

theorem waits_subscribing (env : ReadMessageEnv) (fd : Nat) (request : SubRequest)
    (counts : TpMsgCounts) (s : (kdbSubscribeAndReplayCo env fd request counts).State)
    (r : Holding) (h : (Subscribing.contract env fd request counts).wait s r) : Waits r := by
  refine Coroutine.wait_bindContract (W := Waits) ?_ ?_ s r h
  · exact fun _ _ hwait => False.elim hwait
  · intro sent s r hr
    cases sent with
    | error err => exact s.elim
    | ok u =>
        refine Coroutine.wait_bindContract (W := Waits) ?_ ?_ s r hr
        · intro s r hr
          cases s with
          | header mem tot => exact waits_watches hr
          | body mem off numNfrs rdr res => exact hr.elim
          | blocked mem off numNfrs rdr res e => exact waits_watches hr
        · rintro _ ⟨⟩

theorem waits_login (env : SubscribeEnv) (fd : Nat) (res : Except ErrnoMsg UInt8)
    (s : (afterLogin env fd res).State) (r : Holding)
    (h : (loginContract env fd res).wait s r) : Waits r := by
  cases res with
  | error err => exact s.elim
  | ok lvl =>
      exact Coroutine.wait_bindContract (W := Waits)
        (waits_subscribing env.read fd env.request env.counts) (waits_replay env fd) s r h

theorem waits_connect (env : SubscribeEnv) (res : Except ErrnoMsg TcpConn)
    (s : (afterConnect env res).State) (r : Holding)
    (h : (connectContract env res).wait s r) : Waits r := by
  cases res with
  | error err => exact s.elim
  | ok conn =>
      refine Coroutine.wait_bindContract (W := Waits) ?_ (waits_login env conn.sockFd) s r h
      intro s r hr
      cases s with
      | retry off retries => exact hr.elim
      | blocked off retries => exact waits_watches hr
      | answer => exact waits_watches hr

/-- Wherever a subscription waits, it can be woken unless a write to the journal has failed. -/
theorem waits (env : SubscribeEnv) (s : (subscribeCo env).State) (r : Holding)
    (h : (contract env).wait s r) : Waits r := by
  refine Coroutine.wait_bindContract (W := Waits) ?_ (waits_connect env) s r h
  intro s r hr
  cases s with
  | lookup event_fd =>
      rcases hr with ⟨a, rfl⟩
      exact waits_one unwatched_none a
  | address res => exact hr.elim
  | connecting sock_fd more =>
      rcases hr with ⟨a, rfl⟩
      exact waits_one unwatched_none a

end Subscription

end MgKdb
