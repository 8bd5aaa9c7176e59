import MgKdb.Tpmux.Descriptors

/-!
# Connecting to a port

`tcp_connect` has a thread look up the addresses, which signals an event descriptor,
and tries the addresses one by one.
-/

namespace MgKdb

open Foundation

def einprogress : Int := 115

def epollIn : UInt32 := 0x001

def epollOut : UInt32 := 0x004

def sockNonblock : UInt32 := 0x800

structure TcpConn where
  sockFd : Nat
  host : List UInt8
  service : List UInt8
  deriving DecidableEq, Repr

/-- The cuts of `tcp_connect`; `more` are the addresses that are left. -/
inductive TcpConnectAt where
  | lookup (event_fd : Nat)
  | address (res : List AddrInfo)
  | connecting (sock_fd : Nat) (more : List AddrInfo)

namespace TcpConnect

abbrev Code :=
  Segment IoCall IoCall.Answer TcpConnectAt (Except ErrnoMsg TcpConn)

def fails (errNum : Int) (msg : String) : Code :=
  .ret (.error ⟨errNum, msg⟩)

def entry (host service : List UInt8) : Code :=
  .call .eventfd fun result =>
    match result with
    | .error e => fails e "Failed to create event_fd"
    | .ok event_fd =>
        .call .awaiter fun awaiter =>
          .call (.addInterest event_fd epollIn awaiter) fun result =>
            match result with
            | .error e => .call .leave fun _ => fails e "Could not .add_interest"
            | .ok _ =>
                .call (.getaddrinfoA host service event_fd) fun result =>
                  match result with
                  | .error e => .call .leave fun _ => fails e "Failed in getaddrinfo_a"
                  | .ok _ => .wait (.lookup event_fd)

def lookedUp (event_fd : Nat) (events : UInt32) : Code :=
  if epollErr &&& events ≠ 0 then
    .call .leave fun _ => fails 0 "EPOLLERR detected after getadrrinfo_a op"
  else
    .call .leave fun _ =>
      .call .arResult fun res =>
        .call (.clrInterest event_fd) fun result =>
          match result with
          | .error e => fails e "Could not .clr_interest"
          | .ok _ => .call (.close event_fd) fun _ => .goto (.address res)

def awaitConnection (sock_fd : Nat) (more : List AddrInfo) : Code :=
  .call .awaiter fun awaiter =>
    .call (.addInterest sock_fd epollOut awaiter) fun result =>
      match result with
      | .error e =>
          .call (.close sock_fd) fun _ =>
            .call .leave fun _ => fails e "Could not EpollCtl::add_interest"
      | .ok _ => .wait (.connecting sock_fd more)

def tryAddress (host service : List UInt8) (res : AddrInfo) (more : List AddrInfo) : Code :=
  .call (.socket res.aiFamily (res.aiSocktype ||| sockNonblock) res.aiProtocol) fun result =>
    match result with
    | .error _ => .goto (.address more)
    | .ok sock_fd =>
        .call (.connect sock_fd res) fun result =>
          match result with
          | .error e =>
              if e ≠ einprogress ∧ e ≠ eagain then
                .call (.close sock_fd) fun _ => .goto (.address more)
              else awaitConnection sock_fd more
          | .ok val =>
              if val = 0 then
                .call .freeaddrinfo fun _ => .ret (.ok ⟨sock_fd, host, service⟩)
              else awaitConnection sock_fd more

def connected (host service : List UInt8) (sock_fd : Nat) (more : List AddrInfo)
    (revts : UInt32) : Code :=
  if epollErr &&& revts ≠ 0 then
    .call (.clrInterest sock_fd) fun _ =>
      .call (.close sock_fd) fun _ =>
        .call .leave fun _ => fails 0 "EPOLLERR detected after connect-op"
  else
    .call .leave fun _ =>
      .call (.clrInterest sock_fd) fun result =>
        match result with
        | .error e => .call (.close sock_fd) fun _ => fails e "Could not EpollCtl::add_interest"
        | .ok _ =>
            .call (.getsockopt sock_fd) fun result =>
              match result with
              | .error _ => .call (.close sock_fd) fun _ => .goto (.address more)
              | .ok sk_errno =>
                  if sk_errno ≠ 0 then .call (.close sock_fd) fun _ => .goto (.address more)
                  else .ret (.ok ⟨sock_fd, host, service⟩)

end TcpConnect

def tcpConnect (host service : List UInt8) :
    Coroutine IoCall IoCall.Answer UInt32 (Except ErrnoMsg TcpConn) where
  State := TcpConnectAt
  entry := TcpConnect.entry host service
  label
    | .address (res :: more) => TcpConnect.tryAddress host service res more
    | .address [] => TcpConnect.fails 0 "Could not establish TCP connection"
    -- there are no other loops
    | .lookup _ => .undefined
    | .connecting _ _ => .undefined
  resume
    | .lookup event_fd, events => TcpConnect.lookedUp event_fd events
    | .connecting sock_fd more, revts => TcpConnect.connected host service sock_fd more revts
    | .address _, _ => .undefined

/-!
## What is left behind
-/

/-- The errors behind which epoll keeps the address of an awaiter that is gone. -/
def keepsEventAwaiter : List String :=
  ["Failed in getaddrinfo_a", "EPOLLERR detected after getadrrinfo_a op", "Could not .clr_interest"]

def keepsEventFd : List String :=
  "Could not .add_interest" :: keepsEventAwaiter

namespace TcpConnect

/--
The socket that is returned is the only descriptor.  An error leaves nothing, or the event
descriptor, and then maybe with an awaiter that is gone.
-/
inductive Leaves : Except ErrnoMsg TcpConn -> Holding -> Prop where
  | conn (conn : TcpConn) : Leaves (.ok conn) (.only conn.sockFd none none)
  | nothing (e : Int) (msg : String) (h : msg ∉ keepsEventFd) : Leaves (.error ⟨e, msg⟩) .none
  | eventFd (e : Int) (msg : String) (event_fd : Nat) (h : msg ∈ keepsEventFd)
      (haw : msg ∉ keepsEventAwaiter) : Leaves (.error ⟨e, msg⟩) (.only event_fd none none)
  | dangling (e : Int) (msg : String) (event_fd a : Nat) (h : msg ∈ keepsEventAwaiter) :
      Leaves (.error ⟨e, msg⟩) (.only event_fd (some a) none)

/-- A wait is for the only descriptor, for which epoll has the awaiter of the wait. -/
def contract : Contract TcpConnectAt (Except ErrnoMsg TcpConn) Holding where
  ret := Leaves
  wait
    | .lookup event_fd, r => exists a, r = .only event_fd (some a) (some a)
    | .connecting sock_fd _, r => exists a, r = .only sock_fd (some a) (some a)
    | .address _, _ => False
  goto
    | .address _, r => r = .none
    | _, _ => False
  stray := fun _ => False

theorem meets_entry (host service : List UInt8) :
    (entry host service).Meets ioEffects contract .none := by
  refine meets_eventfd (fun e => Leaves.nothing e _ (by decide)) fun event_fd _ => ?_
  refine meets_awaiter fun a => ?_
  refine meets_addInterest (fun e => ?_) ?_
  · exact meets_leave (Leaves.eventFd e _ event_fd (by decide) (by decide))
  · refine meets_plain (allowed_of_target rfl) (fun _ => rfl) fun ans => ?_
    cases ans with
    | error e => exact meets_leave (Leaves.dangling e _ event_fd a (by decide))
    | ok u => exact ⟨a, rfl⟩

theorem meets_lookedUp (event_fd a : Nat) (events : UInt32) :
    (lookedUp event_fd events).Meets ioEffects contract (.only event_fd (some a) (some a)) := by
  unfold lookedUp
  split
  · exact meets_leave (Leaves.dangling 0 _ event_fd a (by decide))
  · refine meets_leave ?_
    refine meets_plain (allowed_of_target rfl) (fun _ => rfl) fun res => ?_
    refine meets_clrInterest (fun e => Leaves.dangling e _ event_fd a (by decide)) ?_
    exact meets_close rfl fun _ => rfl

theorem meets_awaitConnection (sock_fd : Nat) (more : List AddrInfo) :
    (awaitConnection sock_fd more).Meets ioEffects contract (.only sock_fd none none) := by
  refine meets_awaiter fun a => ?_
  refine meets_addInterest (fun e => ?_) ⟨a, rfl⟩
  exact meets_close rfl fun _ => meets_leave (Leaves.nothing e _ (by decide))

theorem meets_tryAddress (host service : List UInt8) (res : AddrInfo) (more : List AddrInfo) :
    (tryAddress host service res more).Meets ioEffects contract .none := by
  refine meets_socket (fun _ => rfl) fun sock_fd _ => ?_
  refine meets_plain (one_allowed rfl) (fun _ => rfl) fun result => ?_
  cases result with
  | error e =>
      dsimp only
      split
      · exact meets_close rfl fun _ => rfl
      · exact meets_awaitConnection sock_fd more
  | ok val =>
      dsimp only
      split
      · refine meets_plain (allowed_of_target rfl) (fun _ => rfl) fun _ => ?_
        exact Leaves.conn ⟨sock_fd, host, service⟩
      · exact meets_awaitConnection sock_fd more

theorem meets_connected (host service : List UInt8) (sock_fd a : Nat) (more : List AddrInfo)
    (revts : UInt32) :
    (connected host service sock_fd more revts).Meets ioEffects contract
      (.only sock_fd (some a) (some a)) := by
  have herror : forall w, Segment.Meets ioEffects contract
      (.call (.close sock_fd) fun _ =>
        .call .leave fun _ => fails 0 "EPOLLERR detected after connect-op")
      (.only sock_fd w (some a)) :=
    fun w => meets_close rfl fun _ => meets_leave (Leaves.nothing 0 _ (by decide))
  unfold connected
  split
  · exact meets_clrInterest (fun _ => herror _) (herror _)
  · refine meets_leave ?_
    refine meets_clrInterest (fun e => ?_) ?_
    · exact meets_close rfl fun _ => Leaves.nothing e _ (by decide)
    · refine meets_plain (one_allowed rfl) (fun _ => rfl) fun result => ?_
      cases result with
      | error e => exact meets_close rfl fun _ => rfl
      | ok sk_errno =>
          dsimp only
          split
          · exact meets_close rfl fun _ => rfl
          · exact Leaves.conn ⟨sock_fd, host, service⟩

theorem keeps (host service : List UInt8) :
    (tcpConnect host service).Keeps ioEffects (fun r => r = .none) contract where
  entry := by
    rintro _ rfl
    exact meets_entry host service
  label := by
    rintro (_ | res | _) r hr
    · exact hr.elim
    · obtain rfl : r = .none := hr
      cases res with
      | nil => exact Leaves.nothing 0 _ (by decide)
      | cons res more => exact meets_tryAddress host service res more
    · exact hr.elim
  resume := by
    rintro (event_fd | _ | ⟨sock_fd, more⟩) revts r hr _
    · rcases hr with ⟨a, rfl⟩
      exact meets_lookedUp event_fd a revts
    · exact hr.elim
    · rcases hr with ⟨a, rfl⟩
      exact meets_connected host service sock_fd a more revts

end TcpConnect

end MgKdb
