import MgKdb.Tpmux.Subscription

/-!
# Subscriptions that share one epoll descriptor

All subscriptions run in one thread, which hands the events that `epoll_wait` reports
to the awaiters whose addresses epoll has.  The kernel's table of descriptors is one for
all of them.  An event for an awaiter that is gone is a call into a frame that is gone.
-/

namespace MgKdb

open Foundation

namespace Reactor

section Kernel

variable {ι : Type}

/-- What the calls of one subscription do to the table of all descriptors. -/
def kernelEffects (i : ι) : Effects IoCall IoCall.Answer (FdTable (ι × Nat)) where
  Allowed := fun _ _ => True
  Possible := fun fds c ans => IoCall.Fresh (Prod.mk i) fds c ans
  after := fun fds c ans => IoCall.onFds (Prod.mk i) fds c ans
  Wakes := fun _ => True

/--
What each one has is in the table, no two have the same descriptor, and nobody has one of
those that are open for other purposes.
-/
structure Split (others : List Nat) (fds : FdTable (ι × Nat)) (held : ι -> Holding) : Prop where
  owned : forall i fd entry, (held i).fds fd = some entry ->
    fds fd = some (entry.map (Prod.mk i))
  watched : forall fd i a, fds fd = some (some (i, a)) -> (held i).fds fd = some (some a)
  apart : forall i j fd, (held i).fds fd ≠ none -> (held j).fds fd ≠ none -> i = j
  spared : forall fd, fd ∈ others -> fds fd ≠ none ∧ forall i, (held i).fds fd = none

variable {others : List Nat} {fds : FdTable (ι × Nat)} {held held' : ι -> Holding}

theorem Split.congr (h : Split others fds held) (hsame : forall i, (held' i).fds = (held i).fds) :
    Split others fds held' where
  owned := fun i fd entry hentry => h.owned i fd entry (hsame i ▸ hentry)
  watched := fun fd i a hfd => (hsame i).symm ▸ h.watched fd i a hfd
  apart := fun i j fd hi hj => h.apart i j fd (hsame i ▸ hi) (hsame j ▸ hj)
  spared := fun fd hfd => ⟨(h.spared fd hfd).left, fun i => hsame i ▸ (h.spared fd hfd).right i⟩

theorem Split.free (h : Split others fds held) {i : ι} {fd : Nat}
    (hi : (held i).fds fd ≠ none) (j : ι) (hj : j ≠ i) : (held j).fds fd = none := by
  by_contra hopen
  exact hj (h.apart j i fd hopen hi)

theorem Split.closed (h : Split others fds held) {fd : Nat} (hfd : fds fd = none) (i : ι) :
    (held i).fds fd = none := by
  rcases hentry : (held i).fds fd with _ | entry
  · rfl
  · rw [h.owned i fd entry hentry] at hfd
    cases hfd

theorem Split.fresh (h : Split others fds held) {i : ι} {c : IoCall} {ans : c.Answer}
    (hfresh : c.Fresh (Prod.mk i) fds ans) : c.Fresh id (held i).fds ans := by
  cases c with
  | awaiter =>
      intro fd hfd
      exact hfresh fd (h.owned i fd _ hfd)
  | eventfd =>
      cases ans with
      | error e => trivial
      | ok fd => exact h.closed hfresh i
  | socket domain type protocol =>
      cases ans with
      | error e => trivial
      | ok fd => exact h.closed hfresh i
  | initJournal src_path =>
      cases ans with
      | error e => trivial
      | ok fd => exact h.closed hfresh i
  | _ => trivial

variable [DecidableEq ι]

theorem Split.set (h : Split others fds held) {i : ι} {fd : Nat}
    (hfree : forall j, j ≠ i -> (held j).fds fd = none) (hfd : fd ∉ others)
    (entry : Option (Option Nat))
    (hself : (held' i).fds = Function.update (held i).fds fd entry)
    (hother : forall j, j ≠ i -> (held' j).fds = (held j).fds) :
    Split others (Function.update fds fd (entry.map (Option.map (Prod.mk i)))) held' := by
  have hlocal : forall j fd', (held' j).fds fd' =
      if fd' = fd then (if j = i then entry else none) else (held j).fds fd' := by
    intro j fd'
    by_cases hj : j = i
    · rw [hj, hself, Function.update_apply, if_pos rfl]
    · rw [hother j hj, if_neg hj]
      by_cases hfd : fd' = fd
      · rw [hfd, if_pos rfl, hfree j hj]
      · rw [if_neg hfd]
  refine ⟨?_, ?_, ?_, ?_⟩
  · intro j fd' e he
    rw [hlocal] at he
    rw [Function.update_apply]
    by_cases hfd : fd' = fd
    · rw [if_pos hfd] at he ⊢
      by_cases hj : j = i
      · rw [if_pos hj] at he
        rw [he, hj]
        rfl
      · rw [if_neg hj] at he
        cases he
    · rw [if_neg hfd] at he ⊢
      exact h.owned j fd' e he
  · intro fd' j a ha
    rw [hlocal]
    rw [Function.update_apply] at ha
    by_cases hfd : fd' = fd
    · rw [if_pos hfd] at ha ⊢
      rcases entry with _ | _ | b
      · cases ha
      · cases ha
      · cases ha
        rw [if_pos rfl]
    · rw [if_neg hfd] at ha ⊢
      exact h.watched fd' j a ha
  · intro j k fd' hj hk
    rw [hlocal] at hj hk
    by_cases hfd : fd' = fd
    · rw [if_pos hfd] at hj hk
      by_cases hji : j = i
      · by_cases hki : k = i
        · rw [hji, hki]
        · rw [if_neg hki] at hk
          exact absurd rfl hk
      · rw [if_neg hji] at hj
        exact absurd rfl hj
    · rw [if_neg hfd] at hj hk
      exact h.apart j k fd' hj hk
  · intro fd' hfd'
    have hne : fd' ≠ fd := by
      rintro rfl
      exact hfd hfd'
    refine ⟨?_, fun j => ?_⟩
    · rw [Function.update_of_ne hne]
      exact (h.spared fd' hfd').left
    · rw [hlocal, if_neg hne]
      exact (h.spared fd' hfd').right j

theorem separate (others : List Nat) :
    Separate ioEffects (kernelEffects (ι := ι)) (Split others) where
  possible := fun h _ hfresh => h.fresh hfresh
  after := by
    intro fds held i c ans h hallowed hfresh
    have hfds : forall j, (Function.update held i (ioEffects.after (held i) c ans) j).fds =
        if j = i then IoCall.onFds id (held i).fds c ans else (held j).fds := by
      intro j
      rw [Function.update_apply]
      split <;> rfl
    change Split others (IoCall.onFds (Prod.mk i) fds c ans) _
    rcases hchange : c.change ans with _ | ⟨fd, ch⟩
    · have hsame : forall {addr : Type} (tag : Nat -> addr) (table : FdTable addr),
          IoCall.onFds tag table c ans = table := by
        intro addr tag table
        rw [IoCall.onFds, hchange]
      have hself : IoCall.onFds id (held i).fds c ans = (held i).fds := by
        rw [IoCall.onFds, hchange]
      rw [hsame]
      refine h.congr fun j => ?_
      rw [hfds]
      split
      · rename_i hj
        rw [hj, hself]
      · rfl
    · have htable : IoCall.onFds (Prod.mk i) fds c ans =
          Function.update fds fd (ch.apply (Prod.mk i) (fds fd)) := by
        rw [IoCall.onFds, hchange]
      have hself : IoCall.onFds id (held i).fds c ans =
          Function.update (held i).fds fd (ch.apply id ((held i).fds fd)) := by
        rw [IoCall.onFds, hchange]
      have hentry : (forall j, j ≠ i -> (held j).fds fd = none) ∧ fd ∉ others ∧
          ch.apply (Prod.mk i) (fds fd) =
            (ch.apply id ((held i).fds fd)).map (Option.map (Prod.mk i)) := by
        rcases IoCall.change_cases hchange with htarget | ⟨rfl, hnew⟩
        · have hopen := hallowed fd htarget
          refine ⟨h.free hopen, fun hfd => hopen ((h.spared fd hfd).right i), ?_⟩
          rcases Option.ne_none_iff_exists'.mp hopen with ⟨entry, hentry⟩
          rw [h.owned i fd entry hentry, hentry]
          exact FdChange.apply_map (Prod.mk i) ch (some entry)
        · have hclosed := hnew (Prod.mk i) fds hfresh
          exact ⟨fun j _ => h.closed hclosed j, fun hfd => (h.spared fd hfd).left hclosed, rfl⟩
      rw [htable, hentry.right.right]
      refine h.set hentry.left hentry.right.left _ ?_ ?_
      · rw [hfds, if_pos rfl, hself]
      · intro j hj
        rw [hfds, if_neg hj]

end Kernel

/-!
## Runs
-/

section Launch

variable {ι : Type}

/-- Nothing has begun; the descriptors of `others` are open for other purposes. -/
def launch {value : Type} (co : ι -> Coroutine IoCall IoCall.Answer UInt32 value)
    (others : List Nat) : Turns co Holding (FdTable (ι × Nat)) where
  status := fun i => .running (co i).entry
  held := fun _ => .none
  world := fun fd => if fd ∈ others then some none else none

theorem split_launch {value : Type} (co : ι -> Coroutine IoCall IoCall.Answer UInt32 value)
    (others : List Nat) : Split others (launch co others).world (launch co others).held where
  owned := by
    intro i fd entry h
    cases h
  watched := by
    intro fd i a h
    change (if fd ∈ others then some none else none) = some (some (i, a)) at h
    split at h
    · cases h
    · cases h
  apart := fun i j fd hi _ => absurd rfl hi
  spared := by
    intro fd hfd
    refine ⟨?_, fun _ => rfl⟩
    change (if fd ∈ others then some none else none) ≠ none
    rw [if_pos hfd]
    exact Option.some_ne_none none

theorem orderly_launch [DecidableEq ι] {value : Type}
    {co : ι -> Coroutine IoCall IoCall.Answer UInt32 value} {others : List Nat}
    {P : (i : ι) -> Contract (co i).State value Holding}
    (hkeeps : forall i, (co i).Keeps ioEffects (fun r => r = .none) (P i))
    {t : Turns co Holding (FdTable (ι × Nat))}
    (hreaches : (launch co others).Reaches ioEffects kernelEffects t) :
    t.Orderly ioEffects (Split others) P := by
  refine Turns.Reaches.orderly (separate others) hkeeps ⟨split_launch co others, ?_⟩ hreaches
  exact fun i => (hkeeps i).entry _ rfl

end Launch

theorem solo_call {value : Type} {co : Unit -> Coroutine IoCall IoCall.Answer UInt32 value}
    {t : Turns co Holding (FdTable (Unit × Nat))} {r : Holding} {fds : FdTable (Unit × Nat)}
    {c : IoCall} {k : c.Answer -> Segment IoCall IoCall.Answer (co ()).State value}
    (ans : c.Answer)
    (h : t.Reaches ioEffects kernelEffects (Turns.solo (.running (.call c k)) r fds))
    (hallowed : ioEffects.Allowed r c) (hfresh : c.Fresh (Prod.mk ()) fds ans) :
    t.Reaches ioEffects kernelEffects (Turns.solo (.running (k ans)) (ioEffects.after r c ans)
      (IoCall.onFds (Prod.mk ()) fds c ans)) :=
  Turns.solo_call ans h hallowed hfresh

section Runs

variable {ι : Type} {env : ι -> SubscribeEnv} {others : List Nat}

/--
Any number of connections in any order of steps: what a connection has, once it has ended, is
the socket that it returns and no other, or nothing, or the descriptor of its lookup.
-/
theorem tcpConnect_leaves [DecidableEq ι] {host service : ι -> List UInt8} {others : List Nat}
    {t : Turns (fun i => tcpConnect (host i) (service i)) Holding (FdTable (ι × Nat))}
    (hreaches : (launch _ others).Reaches ioEffects kernelEffects t) {i : ι}
    {res : Except ErrnoMsg TcpConn} (hi : t.status i = .ended res) :
    TcpConnect.Leaves res (t.held i) :=
  (orderly_launch (fun i => TcpConnect.keeps (host i) (service i)) hreaches).here hi

/-- A lookup that is refused: its descriptor stays open, with an awaiter that is gone. -/
theorem tcpConnect_leaves_refused :
    exists t : Turns (fun _ : Unit => tcpConnect [104] [53]) Holding (FdTable (Unit × Nat)),
      t.status () = .ended (.error ⟨11, "Failed in getaddrinfo_a"⟩) ∧
        t.world 5 = some (some ((), 0)) ∧
        TcpConnect.Leaves (.error ⟨11, "Failed in getaddrinfo_a"⟩) (t.held ()) := by
  have hentry : (launch (fun _ : Unit => tcpConnect [104] [53]) []).Reaches ioEffects kernelEffects
      (Turns.solo (.running (TcpConnect.entry [104] [53])) .none
        (launch (fun _ : Unit => tcpConnect [104] [53]) []).world) := .refl
  have heventfd := solo_call (c := .eventfd) (.ok 5) hentry (allowed_of_target rfl) rfl
  have hnew : forall fd, IoCall.onFds (Prod.mk ()) (fun _ => none) .eventfd (.ok 5) fd ≠
      some (some ((), 0)) := by
    intro fd h
    change Function.update (fun _ : Nat => none) 5 (some none) fd =
      (some (some ((), 0)) : Option (Option (Unit × Nat))) at h
    rw [Function.update_apply] at h
    split at h <;> cases h
  have hawaiter := solo_call (c := .awaiter) 0 heventfd (allowed_of_target rfl) hnew
  have hadd := solo_call (c := .addInterest 5 epollIn 0) (.ok ()) hawaiter
    (fun fd hfd => by cases hfd; exact Option.some_ne_none none) trivial
  have hlookup := solo_call (c := .getaddrinfoA [104] [53] 5) (.error 11) hadd
    (allowed_of_target rfl) trivial
  have hleave := solo_call (c := .leave) () hlookup (allowed_of_target rfl) trivial
  have hreaches := Turns.solo_ret hleave
  exact ⟨_, rfl, rfl, tcpConnect_leaves hreaches (i := ()) rfl⟩

abbrev State (env : ι -> SubscribeEnv) :=
  Turns (fun i => subscribeCo (env i)) Holding (FdTable (ι × Nat))

def start (env : ι -> SubscribeEnv) (others : List Nat) : State env :=
  launch (fun i => subscribeCo (env i)) others

/-- Every subscription waits or has ended, and the thread is in `epoll_wait`. -/
def AtEpollWait {env : ι -> SubscribeEnv} (t : State env) : Prop :=
  forall i, (exists s, t.status i = .waiting s) ∨ exists res, t.status i = .ended res

/-- An event of `fd` is handed to an awaiter that is gone. -/
def DeadAwaiter {env : ι -> SubscribeEnv} (t : State env) (fd : Nat) : Prop :=
  exists i a, t.world fd = some (some (i, a)) ∧ (t.held i).awaiter ≠ some a

/-- The awaiter of `i` is there and epoll has its address. -/
def CanWake {env : ι -> SubscribeEnv} (t : State env) (i : ι) : Prop :=
  exists fd a, t.world fd = some (some (i, a)) ∧ (t.held i).awaiter = some a

variable {t t' : State env}

abbrev Orderly (others : List Nat) (t : State env) : Prop :=
  t.Orderly ioEffects (Split others) (fun i => Subscription.contract (env i))

theorem Orderly.waits (h : Orderly others t) {i : ι} {s : (subscribeCo (env i)).State}
    (hi : t.status i = .waiting s) : Subscription.Waits (t.held i) :=
  Subscription.waits (env i) s _ (h.here hi)

theorem Orderly.leaves (h : Orderly others t) {i : ι} {res : SubscribeEnd}
    (hi : t.status i = .ended res) : Subscription.Leaves res (t.held i) :=
  h.here hi

theorem Orderly.canWake_iff (h : Orderly others t) {i : ι} {s : (subscribeCo (env i)).State}
    (hi : t.status i = .waiting s) : CanWake t i <-> (t.held i).jnlFailed = false := by
  rcases h.waits hi with ⟨fd, a, haw, hfd, _, hjnl⟩ | ⟨hnone, hjnl⟩
  · exact iff_of_true ⟨fd, a, h.split.owned i fd _ hfd, haw⟩ hjnl
  · refine iff_of_false ?_ (by rw [hjnl]; exact Bool.true_eq_false.mp)
    rintro ⟨fd, a, hfd, _⟩
    exact hnone fd a (h.split.watched fd i a hfd)

theorem Orderly.asleep (h : Orderly others t) {i : ι} {s : (subscribeCo (env i)).State}
    (hi : t.status i = .waiting s) (hjnl : (t.held i).jnlFailed = true) :
    ¬ ioEffects.Wakes (t.held i) := by
  rintro ⟨fd, a, hfd, haw⟩
  have hwake := (h.canWake_iff hi).mp ⟨fd, a, h.split.owned i fd _ hfd, haw⟩
  rw [hjnl] at hwake
  cases hwake

variable [DecidableEq ι]

abbrev Reaches (t t' : State env) : Prop :=
  Turns.Reaches ioEffects kernelEffects t t'

theorem orderly_start (hreaches : Reaches (start env others) t) : Orderly others t :=
  orderly_launch (fun i => Subscription.keeps (env i)) hreaches

theorem Orderly.reaches (h : Orderly others t) (hreaches : Reaches t t') : Orderly others t' :=
  Turns.Reaches.orderly (separate others) (fun i => Subscription.keeps (env i)) h hreaches

/--
In every order of steps: when the thread waits for events, epoll has the address of an
awaiter that is gone exactly if some subscription has ended in one of the ways that leave
it behind.
-/
theorem deadAwaiter_iff (hreaches : Reaches (start env others) t) (hwait : AtEpollWait t) :
    (exists fd, DeadAwaiter t fd) <->
      exists i res, t.status i = .ended res ∧ res.Dangles := by
  have horderly := orderly_start hreaches
  constructor
  · rintro ⟨fd, i, a, hfd, hdead⟩
    have hheld := horderly.split.watched fd i a hfd
    rcases hwait i with ⟨s, hi⟩ | ⟨res, hi⟩
    · exfalso
      rcases horderly.waits hi with ⟨fd', a', haw, _, honly, _⟩ | ⟨hnone, _⟩
      · rcases honly fd a hheld with ⟨_, rfl⟩
        exact hdead haw
      · exact hnone fd a hheld
    · exact ⟨i, res, hi, (horderly.leaves hi).dangles.mp ⟨fd, a, hheld⟩⟩
  · rintro ⟨i, res, hi, hdangles⟩
    have hleaves := horderly.leaves hi
    rcases hleaves.dangles.mpr hdangles with ⟨fd, a, hfd⟩
    refine ⟨fd, i, a, horderly.split.owned i fd _ hfd, ?_⟩
    rw [hleaves.awaiter]
    exact (Option.some_ne_none a).symm

/--
A subscription that waits does so for ever exactly if one of its writes to the journal has
failed.
-/
theorem waits_forever_iff (hreaches : Reaches (start env others) t) {i : ι}
    {s : (subscribeCo (env i)).State} (hi : t.status i = .waiting s) :
    (forall t', Reaches t t' -> t'.status i = .waiting s) <-> (t.held i).jnlFailed = true := by
  have horderly := orderly_start hreaches
  constructor
  · intro hforever
    by_contra hjnl
    have hwake := (horderly.canWake_iff hi).mpr (Bool.eq_false_of_not_eq_true hjnl)
    rcases hwake with ⟨fd, a, hfd, haw⟩
    have hwakes : ioEffects.Wakes (t.held i) := ⟨fd, a, horderly.split.watched fd i a hfd, haw⟩
    have hmoved := hforever _ (.step .refl (Turns.Step.event t i s 0 hi hwakes))
    change Function.update t.status i _ i = _ at hmoved
    rw [Function.update_self] at hmoved
    cases hmoved
  · intro hjnl t' hmore
    refine (hmore.place ?_ (fun _ _ => horderly.asleep hi hjnl)).left.trans hi
    rw [hi]
    exact fun _ heq => by cases heq

/--
A descriptor that a subscription has opened stays open for ever, once that has ended, exactly
if it has ended in one of the ways that do not close it.
-/
theorem keepsOpen_iff (hreaches : Reaches (start env others) t) {i : ι} {res : SubscribeEnd}
    (hi : t.status i = .ended res) :
    (exists fd, (t.held i).fds fd ≠ none ∧ forall t', Reaches t t' -> t'.world fd ≠ none) <->
      res.KeepsOpen := by
  have horderly := orderly_start hreaches
  rw [<- (horderly.leaves hi).keepsOpen]
  constructor
  · rintro ⟨fd, hfd, _⟩
    exact ⟨fd, hfd⟩
  · rintro ⟨fd, hfd⟩
    refine ⟨fd, hfd, fun t' hmore => ?_⟩
    have hidle : forall seg, t.status i ≠ .running seg := by
      rw [hi]
      exact fun _ heq => by cases heq
    have hheld := (hmore.place hidle (fun _ hwaiting => by
      rw [hi] at hwaiting
      cases hwaiting)).right
    rw [<- hheld] at hfd
    rcases Option.ne_none_iff_exists'.mp hfd with ⟨entry, hentry⟩
    rw [(horderly.reaches hmore).split.owned i fd entry hentry]
    exact Option.some_ne_none _

/--
As long as no write to the journal has failed in a subscription, a descriptor that it makes a
call about is its own: no other subscription has it, and it is not open for other purposes.
-/
theorem calls_own (hreaches : Reaches (start env others) t) {i : ι} {c : IoCall}
    {k : c.Answer -> Segment IoCall IoCall.Answer (subscribeCo (env i)).State SubscribeEnd}
    (hi : t.status i = .running (.call c k)) (hjnl : (t.held i).jnlFailed = false) {fd : Nat}
    (hc : c.target = some fd) :
    (t.held i).fds fd ≠ none ∧ fd ∉ others ∧ forall j, j ≠ i -> (t.held j).fds fd = none := by
  have horderly := orderly_start hreaches
  have hopen : (t.held i).fds fd ≠ none := by
    by_contra hclosed
    have hnot : ¬ ioEffects.Allowed (t.held i) c := fun hallowed => hallowed fd hc hclosed
    have hstray : (t.held i).jnlFailed = true := (horderly.here hi).right hnot
    rw [hjnl] at hstray
    cases hstray
  exact ⟨hopen, fun hfd => hopen ((horderly.split.spared fd hfd).right i),
    horderly.split.free hopen⟩

end Runs

/-!
## A single subscription
-/

def soloEnv (_ : Unit) : SubscribeEnv where
  service := [51, 48, 48, 57, 56]
  username := [109]
  tables := []
  counts := ⟨0, 0⟩
  request := ⟨.ok, [1]⟩
  read := ⟨.ok (), .ok (), fun _ => true, List.replicate 8 0, by decide⟩

section Solo

theorem fresh_awaiter (fd : Nat) :
    IoCall.onFds (Prod.mk ()) (start soloEnv [3]).world .eventfd (.ok 5) fd ≠
      some (some ((), 0)) := by
  intro h
  change Function.update (fun fd => if fd ∈ [3] then some none else none) 5 (some none) fd =
    (some (some ((), 0)) : Option (Option (Unit × Nat))) at h
  rw [Function.update_apply] at h
  split at h
  · cases h
  · split at h <;> cases h

theorem solo_lookup : exists r fds k, r.fds 5 ≠ none ∧ r.jnlFailed = false ∧
    Reaches (start soloEnv [3]) (Turns.solo (.running (.call (.addInterest 5 epollIn 0) k)) r fds) ∧
    k (.ok ()) = .call (.getaddrinfoA Subscription.localhost (soloEnv ()).service 5) fun ans =>
      match ans with
      | .error e => .call .leave fun _ =>
          .ret (.noConnection ⟨e, "Failed in getaddrinfo_a"⟩)
      | .ok _ => .wait (.inl (.lookup 5)) := by
  have hentry : Reaches (start soloEnv [3])
      (Turns.solo (.running (subscribeCo (soloEnv ())).entry) .none (start soloEnv [3]).world) :=
    .refl
  have heventfd := solo_call (c := .eventfd) (.ok 5) hentry (allowed_of_target rfl) rfl
  have hawaiter := solo_call (c := .awaiter) 0 heventfd (allowed_of_target rfl) fresh_awaiter
  refine ⟨_, _, _, Option.some_ne_none none, rfl, hawaiter, ?_⟩
  refine congrArg (Segment.call _) (funext fun ans => ?_)
  cases ans <;> rfl

theorem solo_waits : exists r fds, r.jnlFailed = false ∧
    Reaches (start soloEnv [3]) (Turns.solo (.waiting (.inl (.lookup 5))) r fds) := by
  rcases solo_lookup with ⟨r, fds, k, hopen, hjnl, hreaches, hk⟩
  have hallowed : ioEffects.Allowed r (.addInterest 5 epollIn 0) := by
    intro fd hfd
    cases hfd
    exact hopen
  have hadd := solo_call (c := .addInterest 5 epollIn 0) (.ok ()) hreaches hallowed trivial
  rw [hk] at hadd
  have hlookup := solo_call (c := .getaddrinfoA Subscription.localhost (soloEnv ()).service 5)
    (.ok ()) hadd (allowed_of_target rfl) trivial
  refine ⟨_, _, ?_, Turns.solo_wait hlookup⟩
  exact hjnl

/-- The lookup is refused. -/
theorem solo_refused : exists r fds, Reaches (start soloEnv [3])
    (Turns.solo (.ended (.noConnection ⟨11, "Failed in getaddrinfo_a"⟩)) r fds) := by
  rcases solo_lookup with ⟨r, fds, k, hopen, _, hreaches, hk⟩
  have hallowed : ioEffects.Allowed r (.addInterest 5 epollIn 0) := by
    intro fd hfd
    cases hfd
    exact hopen
  have hadd := solo_call (c := .addInterest 5 epollIn 0) (.ok ()) hreaches hallowed trivial
  rw [hk] at hadd
  have hlookup := solo_call (c := .getaddrinfoA Subscription.localhost (soloEnv ()).service 5)
    (.error 11) hadd (allowed_of_target rfl) trivial
  have hleave := solo_call (c := .leave) () hlookup (allowed_of_target rfl) trivial
  exact ⟨_, _, Turns.solo_ret hleave⟩

/-- Then the lookup's event is handed to an awaiter that is gone. -/
theorem deadAwaiter_iff_refused : exists t : State soloEnv, Reaches (start soloEnv [3]) t ∧
    AtEpollWait t ∧ exists fd, DeadAwaiter t fd := by
  rcases solo_refused with ⟨r, fds, hreaches⟩
  have hwait : AtEpollWait
      (Turns.solo (.ended (.noConnection ⟨11, "Failed in getaddrinfo_a"⟩)) r fds :
        State soloEnv) := fun _ => Or.inr ⟨_, rfl⟩
  have hmsg : "Failed in getaddrinfo_a" ∈ keepsEventAwaiter := by decide
  exact ⟨_, hreaches, hwait, (deadAwaiter_iff hreaches hwait).mpr ⟨(), _, rfl, hmsg⟩⟩

/-- And its descriptor stays open. -/
theorem keepsOpen_iff_refused : exists (t : State soloEnv) (fd : Nat),
    Reaches (start soloEnv [3]) t ∧ forall t', Reaches t t' -> t'.world fd ≠ none := by
  rcases solo_refused with ⟨r, fds, hreaches⟩
  have hmsg : "Failed in getaddrinfo_a" ∈ keepsEventFd := by decide
  rcases (keepsOpen_iff hreaches (i := ()) rfl).mpr hmsg with ⟨fd, _, hopen⟩
  exact ⟨_, fd, hreaches, hopen⟩

/-- A subscription that waits for its addresses will not do so for ever. -/
theorem waits_forever_iff_lookup : exists (t : State soloEnv) (s : _),
    t.status () = .waiting s ∧ ¬ forall t', Reaches t t' -> t'.status () = .waiting s := by
  rcases solo_waits with ⟨r, fds, hjnl, hreaches⟩
  refine ⟨(Turns.solo (.waiting (.inl (.lookup 5))) r fds : State soloEnv), .inl (.lookup 5), rfl,
    fun hforever => ?_⟩
  have hfailed := (waits_forever_iff hreaches (i := ()) rfl).mp hforever
  exact absurd (hjnl.symm.trans hfailed) Bool.false_ne_true

theorem calls_own_lookup : exists t : State soloEnv, Reaches (start soloEnv [3]) t ∧
    (t.held ()).fds 5 ≠ none := by
  rcases solo_lookup with ⟨r, fds, k, _, hjnl, hreaches, _⟩
  exact ⟨_, hreaches, (calls_own hreaches (i := ()) rfl hjnl rfl).left⟩

end Solo

end Reactor

end MgKdb
