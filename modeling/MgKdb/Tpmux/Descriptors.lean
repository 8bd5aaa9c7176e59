import MgKdb.Foundation.Turns
import MgKdb.Tpmux.Connect

/-!
# Descriptors and their awaiters

A coroutine that waits for a descriptor has an `EpollCtl::Awaiter` in its frame and
gives its address to epoll, which keeps the address until the interest is cleared or the
descriptor is closed.  An awaiter is gone at the end of its block, whether or not epoll
has its address.
-/

namespace MgKdb

open Foundation

universe u

structure AddrInfo where
  aiFamily : UInt32
  aiSocktype : UInt32
  aiProtocol : UInt32
  deriving DecidableEq, Repr

/-- The calls of the coroutines, of which two are the begin and the end of an awaiter. -/
inductive IoCall where
  | awaiter
  | leave
  | eventfd
  | getaddrinfoA (host service : List UInt8) (event_fd : Nat)
  /-- `gai_req.ar_result` -/
  | arResult
  | freeaddrinfo
  | socket (domain type protocol : UInt32)
  | connect (fd : Nat) (addr : AddrInfo)
  | getsockopt (fd : Nat)
  | addInterest (fd : Nat) (events : UInt32) (awaiter : Nat)
  | modInterest (fd : Nat) (events : UInt32) (awaiter : Nat)
  | clrInterest (fd : Nat)
  | close (fd : Nat)
  | read (fd len : Nat)
  | write (fd : Nat) (bytes : List UInt8)
  /-- `write` to the journal that all subscriptions share. -/
  | writeJournal (bytes : List UInt8)
  /-- `KdbJournal::init`, of a journal that is read. -/
  | initJournal (src_path : List UInt8)
  | filterMsgs (src_fd msg_count : Nat)

namespace IoCall

/-- The answers, of which `error` has an error number. -/
@[reducible]
def Answer : IoCall -> Type
  | awaiter => Nat
  | leave => Unit
  | eventfd => Except Int Nat
  | getaddrinfoA _ _ _ => Except Int Unit
  | arResult => List AddrInfo
  | freeaddrinfo => Unit
  | socket _ _ _ => Except Int Nat
  | connect _ _ => Except Int Int
  -- what `sk_errno` is set to
  | getsockopt _ => Except Int Int
  | addInterest _ _ _ => Except Int Unit
  | modInterest _ _ _ => Except Int Unit
  | clrInterest _ => Except Int Unit
  | close _ => Except Int Unit
  | read _ _ => Except Int (List UInt8)
  | write _ _ => Except Int Nat
  | writeJournal _ => Except Int Nat
  | initJournal _ => Except String Nat
  | filterMsgs _ _ => Except String (UInt64 × UInt64)

def target : IoCall -> Option Nat
  | connect fd _ => some fd
  | getsockopt fd => some fd
  | addInterest fd _ _ => some fd
  | modInterest fd _ _ => some fd
  | clrInterest fd => some fd
  | close fd => some fd
  | read fd _ => some fd
  | write fd _ => some fd
  | filterMsgs src_fd _ => some src_fd
  | _ => none

end IoCall

/-- Open descriptors, with the awaiter whose address epoll has for them. -/
abbrev FdTable (addr : Type u) := Nat -> Option (Option addr)

inductive FdChange where
  | opened
  | closed
  | watched (awaiter : Nat)
  | unwatched
  deriving DecidableEq, Repr

namespace FdChange

variable {addr : Type u}

def apply (tag : Nat -> addr) : FdChange -> Option (Option addr) -> Option (Option addr)
  | opened, _ => some none
  | closed, _ => none
  | watched a, entry => entry.map (fun _ => some (tag a))
  | unwatched, entry => entry.map (fun _ => none)

end FdChange

namespace IoCall

/-- What a call changes when it is answered.  A descriptor is closed whatever the answer. -/
def change : (c : IoCall) -> c.Answer -> Option (Nat × FdChange)
  | eventfd, .ok fd => some (fd, .opened)
  | socket _ _ _, .ok fd => some (fd, .opened)
  | initJournal _, .ok fd => some (fd, .opened)
  | addInterest fd _ a, .ok _ => some (fd, .watched a)
  | modInterest fd _ a, .ok _ => some (fd, .watched a)
  | clrInterest fd, .ok _ => some (fd, .unwatched)
  | close fd, _ => some (fd, .closed)
  | _, _ => none

variable {addr : Type u}

def onFds (tag : Nat -> addr) (fds : FdTable addr) (c : IoCall) (ans : c.Answer) : FdTable addr :=
  match c.change ans with
  | none => fds
  | some (fd, ch) => Function.update fds fd (ch.apply tag (fds fd))

/-- A new descriptor was not open, and epoll does not have the address of a new awaiter. -/
def Fresh (tag : Nat -> addr) (fds : FdTable addr) : (c : IoCall) -> c.Answer -> Prop
  | awaiter, a => forall fd, fds fd ≠ some (some (tag a))
  | eventfd, .ok fd => fds fd = none
  | socket _ _ _, .ok fd => fds fd = none
  | initJournal _, .ok fd => fds fd = none
  | _, _ => True

end IoCall

theorem FdChange.apply_map {addr : Type u} (tag : Nat -> addr) (ch : FdChange)
    (entry : Option (Option Nat)) :
    ch.apply tag (entry.map (Option.map tag)) = (ch.apply id entry).map (Option.map tag) := by
  cases ch <;> cases entry <;> rfl

theorem IoCall.change_cases {c : IoCall} {ans : c.Answer} {fd : Nat} {ch : FdChange}
    (h : c.change ans = some (fd, ch)) :
    c.target = some fd ∨
      ch = .opened ∧ forall {addr : Type u} (tag : Nat -> addr) (fds : FdTable addr),
        c.Fresh tag fds ans -> fds fd = none := by
  cases c with
  | eventfd =>
      cases ans with
      | error e => cases h
      | ok n =>
          cases h
          exact Or.inr ⟨rfl, fun _ _ hfresh => hfresh⟩
  | socket domain type protocol =>
      cases ans with
      | error e => cases h
      | ok n =>
          cases h
          exact Or.inr ⟨rfl, fun _ _ hfresh => hfresh⟩
  | initJournal src_path =>
      cases ans with
      | error e => cases h
      | ok n =>
          cases h
          exact Or.inr ⟨rfl, fun _ _ hfresh => hfresh⟩
  | addInterest fd events a =>
      cases ans with
      | error e => cases h
      | ok n =>
          cases h
          exact Or.inl rfl
  | modInterest fd events a =>
      cases ans with
      | error e => cases h
      | ok n =>
          cases h
          exact Or.inl rfl
  | clrInterest fd =>
      cases ans with
      | error e => cases h
      | ok n =>
          cases h
          exact Or.inl rfl
  | close fd =>
      cases h
      exact Or.inl rfl
  | _ => cases h

structure Holding where
  fds : FdTable Nat
  /-- The awaiter whose block it is in. -/
  awaiter : Option Nat
  /-- A write to the shared journal has failed. -/
  jnlFailed : Bool

def ioEffects : Effects IoCall IoCall.Answer Holding where
  Allowed := fun r c => forall fd, c.target = some fd -> r.fds fd ≠ none
  Possible := fun r c ans => IoCall.Fresh id r.fds c ans
  after := fun r c ans =>
    { fds := IoCall.onFds id r.fds c ans
      awaiter :=
        match c, ans with
        | .awaiter, a => some a
        | .leave, _ => none
        | _, _ => r.awaiter
      jnlFailed :=
        match c, ans with
        | .writeJournal _, .error _ => true
        | _, _ => r.jnlFailed }
  Wakes := fun r => exists fd a, r.fds fd = some (some a) ∧ r.awaiter = some a

def Holding.one (rest : FdTable Nat) (fd : Nat) (watched aw : Option Nat) (jf : Bool) :
    Holding where
  fds := Function.update rest fd (some watched)
  awaiter := aw
  jnlFailed := jf

def Holding.none : Holding where
  fds := fun _ => Option.none
  awaiter := Option.none
  jnlFailed := false

abbrev Holding.only (fd : Nat) (watched aw : Option Nat) : Holding :=
  .one Holding.none.fds fd watched aw false

/-!
## A rule for every call
-/

section Rules

variable {state value : Type} {P : Contract state value Holding} {rest : FdTable Nat} {fd : Nat}
  {w aw : Option Nat} {jf : Bool}

theorem one_allowed {c : IoCall} (hc : c.target = some fd) :
    ioEffects.Allowed (Holding.one rest fd w aw jf) c := by
  intro fd' hfd'
  obtain rfl : fd = fd' := Option.some.inj (hc.symm.trans hfd')
  change Function.update rest fd (some w) fd ≠ none
  rw [Function.update_self]
  exact Option.some_ne_none w

theorem allowed_of_target {r : Holding} {c : IoCall} (hc : c.target = none) :
    ioEffects.Allowed r c := by
  intro fd' hfd'
  rw [hc] at hfd'
  cases hfd'

theorem meets_plain {r : Holding} {c : IoCall}
    {k : c.Answer -> Segment IoCall IoCall.Answer state value} (hallowed : ioEffects.Allowed r c)
    (hsame : forall ans, ioEffects.after r c ans = r)
    (hk : forall ans, (k ans).Meets ioEffects P r) :
    (Segment.call c k).Meets ioEffects P r := by
  refine Segment.meets_call hallowed fun ans _ => ?_
  rw [hsame ans]
  exact hk ans

theorem meets_awaiter {fds : FdTable Nat}
    {k : Nat -> Segment IoCall IoCall.Answer state value}
    (hk : forall a, (k a).Meets ioEffects P ⟨fds, some a, jf⟩) :
    (Segment.call .awaiter k).Meets ioEffects P ⟨fds, aw, jf⟩ :=
  Segment.meets_call (allowed_of_target rfl) fun a _ => hk a

theorem meets_leave {fds : FdTable Nat} {k : Unit -> Segment IoCall IoCall.Answer state value}
    (hk : (k ()).Meets ioEffects P ⟨fds, none, jf⟩) :
    (Segment.call .leave k).Meets ioEffects P ⟨fds, aw, jf⟩ :=
  Segment.meets_call (allowed_of_target rfl) fun _ _ => hk

theorem meets_eventfd {k : Except Int Nat -> Segment IoCall IoCall.Answer state value}
    (herror : forall e, (k (.error e)).Meets ioEffects P ⟨rest, aw, jf⟩)
    (hok : forall fd, rest fd = none -> (k (.ok fd)).Meets ioEffects P (.one rest fd none aw jf)) :
    (Segment.call .eventfd k).Meets ioEffects P ⟨rest, aw, jf⟩ := by
  refine Segment.meets_call (allowed_of_target rfl) fun ans hans => ?_
  cases ans with
  | error e => exact herror e
  | ok fd => exact hok fd hans

theorem meets_socket {domain type protocol : UInt32}
    {k : Except Int Nat -> Segment IoCall IoCall.Answer state value}
    (herror : forall e, (k (.error e)).Meets ioEffects P ⟨rest, aw, jf⟩)
    (hok : forall fd, rest fd = none -> (k (.ok fd)).Meets ioEffects P (.one rest fd none aw jf)) :
    (Segment.call (.socket domain type protocol) k).Meets ioEffects P ⟨rest, aw, jf⟩ := by
  refine Segment.meets_call (allowed_of_target rfl) fun ans hans => ?_
  cases ans with
  | error e => exact herror e
  | ok fd => exact hok fd hans

theorem meets_initJournal {src_path : List UInt8}
    {k : Except String Nat -> Segment IoCall IoCall.Answer state value}
    (herror : forall e, (k (.error e)).Meets ioEffects P (.one rest fd w aw jf))
    (hok : forall src_fd, src_fd ≠ fd -> rest src_fd = none -> (k (.ok src_fd)).Meets ioEffects P
      (.one (Function.update rest src_fd (some none)) fd w aw jf)) :
    (Segment.call (.initJournal src_path) k).Meets ioEffects P (.one rest fd w aw jf) := by
  refine Segment.meets_call (allowed_of_target rfl) fun ans hans => ?_
  cases ans with
  | error e => exact herror e
  | ok src_fd =>
      have hnew : Function.update rest fd (some w) src_fd = none := hans
      have hne : src_fd ≠ fd := by
        rintro rfl
        rw [Function.update_self] at hnew
        cases hnew
      rw [Function.update_of_ne hne] at hnew
      have hafter : ioEffects.after (.one rest fd w aw jf) (.initJournal src_path) (.ok src_fd) =
          .one (Function.update rest src_fd (some none)) fd w aw jf := by
        refine congrArg (fun fds => Holding.mk fds aw jf) ?_
        exact Function.update_comm hne.symm (some w) (some none) rest
      rw [hafter]
      exact hok src_fd hne hnew

theorem after_watched (a : Nat) :
    Function.update (Function.update rest fd (some w)) fd
        ((FdChange.watched a).apply id (Function.update rest fd (some w) fd)) =
      Function.update rest fd (some (some a)) := by
  rw [Function.update_self, Function.update_idem]
  rfl

theorem meets_addInterest {events : UInt32} {a : Nat}
    {k : Except Int Unit -> Segment IoCall IoCall.Answer state value}
    (herror : forall e, (k (.error e)).Meets ioEffects P (.one rest fd w aw jf))
    (hok : (k (.ok ())).Meets ioEffects P (.one rest fd (some a) aw jf)) :
    (Segment.call (.addInterest fd events a) k).Meets ioEffects P (.one rest fd w aw jf) := by
  refine Segment.meets_call (one_allowed rfl) fun ans _ => ?_
  cases ans with
  | error e => exact herror e
  | ok u =>
      have hafter : ioEffects.after (.one rest fd w aw jf) (.addInterest fd events a) (.ok u) =
          .one rest fd (some a) aw jf :=
        congrArg (fun fds => Holding.mk fds aw jf) (after_watched a)
      rw [hafter]
      exact hok

theorem meets_modInterest {events : UInt32} {a : Nat}
    {k : Except Int Unit -> Segment IoCall IoCall.Answer state value}
    (herror : forall e, (k (.error e)).Meets ioEffects P (.one rest fd w aw jf))
    (hok : (k (.ok ())).Meets ioEffects P (.one rest fd (some a) aw jf)) :
    (Segment.call (.modInterest fd events a) k).Meets ioEffects P (.one rest fd w aw jf) := by
  refine Segment.meets_call (one_allowed rfl) fun ans _ => ?_
  cases ans with
  | error e => exact herror e
  | ok u =>
      have hafter : ioEffects.after (.one rest fd w aw jf) (.modInterest fd events a) (.ok u) =
          .one rest fd (some a) aw jf :=
        congrArg (fun fds => Holding.mk fds aw jf) (after_watched a)
      rw [hafter]
      exact hok

theorem meets_clrInterest {k : Except Int Unit -> Segment IoCall IoCall.Answer state value}
    (herror : forall e, (k (.error e)).Meets ioEffects P (.one rest fd w aw jf))
    (hok : (k (.ok ())).Meets ioEffects P (.one rest fd none aw jf)) :
    (Segment.call (.clrInterest fd) k).Meets ioEffects P (.one rest fd w aw jf) := by
  refine Segment.meets_call (one_allowed rfl) fun ans _ => ?_
  cases ans with
  | error e => exact herror e
  | ok u =>
      have hafter : ioEffects.after (.one rest fd w aw jf) (.clrInterest fd) (.ok u) =
          .one rest fd none aw jf := by
        refine congrArg (fun fds => Holding.mk fds aw jf) ?_
        change Function.update (Function.update rest fd (some w)) fd
          (FdChange.unwatched.apply id (Function.update rest fd (some w) fd)) = _
        rw [Function.update_self, Function.update_idem]
        rfl
      rw [hafter]
      exact hok

theorem meets_close (hrest : rest fd = none)
    {k : Except Int Unit -> Segment IoCall IoCall.Answer state value}
    (hk : forall ans, (k ans).Meets ioEffects P ⟨rest, aw, jf⟩) :
    (Segment.call (.close fd) k).Meets ioEffects P (.one rest fd w aw jf) := by
  refine Segment.meets_call (one_allowed rfl) fun ans _ => ?_
  have hafter : ioEffects.after (.one rest fd w aw jf) (.close fd) ans = ⟨rest, aw, jf⟩ := by
    refine congrArg (fun fds => Holding.mk fds aw jf) ?_
    change Function.update (Function.update rest fd (some w)) fd none = rest
    rw [Function.update_idem, <- hrest, Function.update_eq_self]
  rw [hafter]
  exact hk ans

end Rules

end MgKdb
