import MgKdb.Reader.Accounting
import MgKdb.Tpmux.ReadWhole

/-!
# `kdb_read_message` and its peer

Whether the loops get on is decided by what the peer sends and whether it closes its end.  A
whole message is read to its end.  Behind a plain header the loops read on through anything
else that fits in the buffer, unless an unfinished object fills the declared length.
-/

namespace MgKdb

open KdbIpcMessageReader

/-- What a peer sends over the connection, and whether it closes its end behind it. -/
structure Peer where
  sent : List UInt8
  closes : Bool

structure Arrival where
  revts : UInt32
  /-- How much is there to be read; behind the last byte the end counts as one more. -/
  size : Nat
  /-- The number with which `read` fails, whatever is there. -/
  failed : Option Int

def Arrival.Whole (ev : Arrival) : Prop :=
  ev.failed ≠ none ∨ ev.size = 0 ∨ 8 <= ev.size

namespace Peer

def offer (p : Peer) (taken : Nat) (ev : Arrival) : SocketOffer :=
  match ev.failed with
  | some e => .refused e
  | none =>
      match (p.sent.drop taken).take ev.size with
      | b :: more => .arrived b more
      | [] =>
          if p.closes = true ∧ p.sent.length < taken + ev.size then .ended else .refused eagain

def turn (p : Peer) (taken : Nat) (ev : Arrival) : SocketTurn :=
  ⟨ev.revts, p.offer taken ev⟩

/-- One pass: the coroutine, and how many bytes it has taken from the socket. -/
def pass (p : Peer) (env : ReadMessageEnv) (st : ReadCo × Nat) (ev : Arrival) : ReadCo × Nat :=
  (readPass env st.1 (p.turn st.2 ev), st.2 + brought (st.1.answer (p.turn st.2 ev)))

def coAt (p : Peer) (env : ReadMessageEnv) (events : Nat -> Arrival) : Nat -> ReadCo × Nat
  | 0 => (kdbReadMessage env, 0)
  | n + 1 => p.pass env (p.coAt env events n) (events n)

def turns (p : Peer) (env : ReadMessageEnv) (events : Nat -> Arrival) (n : Nat) : SocketTurn :=
  p.turn (p.coAt env events n).2 (events n)

theorem coAt_fst (p : Peer) (env : ReadMessageEnv) (events : Nat -> Arrival) (n : Nat) :
    (p.coAt env events n).1 = readCoAt env (p.turns env events) n := by
  induction n with
  | zero => rfl
  | succ n ih => rw [coAt, pass, ih, readCoAt, turns]

/-- An object that is still open, or refused, ends before the declared length. -/
def OpenWithin (sent : List UInt8) : Prop :=
  forall u, u <+: sent.drop 8 -> Front u -> 8 + u.length < declared sent

theorem openWithin_of_lt {sent : List UInt8} (hhdr : PlainHdr sent)
    (hlt : sent.length < declared sent) : OpenWithin sent := by
  intro u hpre _
  have hle := hpre.length_le
  have hlen := hhdr.len
  rw [List.length_drop] at hle
  omega

/-- What the peer does lets every pass get somewhere. -/
inductive Serves (p : Peer) (env : ReadMessageEnv) : Prop
  /-- A whole message comes first, with no unit longer than the buffer. -/
  | message (typ : KdbMsgType) (s : Spelling) (rest : List UInt8)
      (hsent : p.sent <+: s.message typ ++ rest)
      (hopen : p.closes = true -> s.message typ <+: p.sent)
      (hsize : (s.message typ).length < 2 ^ 31) (hunit : s.value.unit <= env.storage.length)
  /-- Less comes than the buffer holds, no object is open at the declared length, and no end. -/
  | short (hopen : p.closes = false) (hhdr : PlainHdr p.sent) (hwithin : OpenWithin p.sent)
      (hroom : p.sent.length < 8 + env.storage.length) (hsmall : p.sent.length < 2 ^ 64)
  /-- No header comes, and no end. -/
  | headless (hopen : p.closes = false) (hlen : p.sent.length < 8)

/-!
## One pass
-/

section Pass

variable {p : Peer} {env : ReadMessageEnv} {st : ReadCo × Nat} {ev : Arrival}

variable (ev) in
theorem offer_cases (hopen : p.closes = true -> st.2 < p.sent.length) :
    (exists e, p.offer st.2 ev = .refused e) ∨
      (exists b more, p.offer st.2 ev = .arrived b more ∧
        b :: more = (p.sent.drop st.2).take ev.size) := by
  unfold offer
  cases hfail : ev.failed with
  | some e => exact Or.inl ⟨e, rfl⟩
  | none =>
      cases hthere : (p.sent.drop st.2).take ev.size with
      | cons b more => exact Or.inr ⟨b, more, rfl, rfl⟩
      | nil =>
          have hlen := congrArg List.length hthere
          rw [List.length_take, List.length_drop, List.length_nil] at hlen
          have hnot : ¬ (p.closes = true ∧ p.sent.length < st.2 + ev.size) := by
            rintro ⟨hclosed, hbehind⟩
            have hbefore := hopen hclosed
            omega
          exact Or.inl ⟨eagain, if_neg hnot⟩

theorem offer_ne_ended (hopen : p.closes = true -> st.2 < p.sent.length) :
    (p.turn st.2 ev).offer ≠ .ended := by
  rcases offer_cases ev hopen with ⟨e, h⟩ | ⟨b, more, h, _⟩
  · rw [turn, h]
    simp
  · rw [turn, h]
    simp

variable (env st ev) in
theorem pass_cases (hpos : 0 < st.1.requested)
    (hopen : p.closes = true -> st.2 < p.sent.length) :
    (exists e, st.1.answer (p.turn st.2 ev) = .error e ∧
        p.pass env st ev = (readPass env st.1 (p.turn st.2 ev), st.2)) ∨
      (exists xs, st.1.answer (p.turn st.2 ev) = .ok xs ∧ xs <+: p.sent.drop st.2 ∧
        0 < xs.length ∧
        xs.length = min st.1.requested (min ev.size (p.sent.length - st.2)) ∧
        p.pass env st ev =
          (readPass env st.1 (p.turn st.2 ev), st.2 + xs.length)) := by
  have hne : ¬ st.1.requested = 0 := Nat.ne_of_gt hpos
  rcases offer_cases ev hopen with ⟨e, hoffer⟩ | ⟨b, more, hoffer, hthere⟩
  · have hans : st.1.answer (p.turn st.2 ev) = .error e := by
      unfold ReadCo.answer ioRead
      rw [if_neg hne, turn, hoffer]
    refine Or.inl ⟨e, hans, ?_⟩
    rw [pass, hans]
    rfl
  · have hans : st.1.answer (p.turn st.2 ev) = .ok ((b :: more).take st.1.requested) := by
      unfold ReadCo.answer ioRead
      rw [if_neg hne, turn, hoffer]
    have hlen : ((b :: more).take st.1.requested).length =
        min st.1.requested (min ev.size (p.sent.length - st.2)) := by
      rw [List.length_take, hthere, List.length_take, List.length_drop]
    refine Or.inr ⟨_, hans, ?_, ?_, hlen, ?_⟩
    · rw [hthere]
      exact (List.take_prefix _ _).trans (List.take_prefix _ _)
    · rw [List.length_take, List.length_cons]
      omega
    · rw [pass, hans]
      rfl

variable (env st) in
theorem pass_refused {e : Int} (hloop : st.1.Looping)
    (hans : st.1.answer (p.turn st.2 ev) = .error e) :
    (exists out, readPass env st.1 (p.turn st.2 ev) = .returned out) ∨
      (exists mem off k rdr res, st.1 = .body mem off k rdr res ∧
        readPass env st.1 (p.turn st.2 ev) = .body mem off (k + 1) rdr res) := by
  rcases st with ⟨co, t⟩
  cases co with
  | header mem tot => exact Or.inl (readPass_header_error env hans)
  | body mem off k rdr res =>
      have hpass := readPass_body_error env hans
      rcases bodyRefused_cases mem off k rdr res (p.turn t ev).revts e with
        ⟨out, hout⟩ | ⟨_, _, hnext⟩
      · exact Or.inl ⟨out, hpass.trans hout⟩
      · exact Or.inr ⟨mem, off, k, rdr, res, rfl, hpass.trans hnext⟩
  | returned out => exact hloop.elim
  | trapped => exact hloop.elim

theorem not_looping_of_returned {co : ReadCo} (h : exists out, co = .returned out) :
    ¬ co.Looping := by
  rcases h with ⟨out, rfl⟩
  exact id

theorem readMessageDone_returned (env : ReadMessageEnv) (res : ReadMsgResult) :
    exists out, readMessageDone env res = .returned out := by
  unfold readMessageDone
  cases env.clrInterest with
  | error e => exact ⟨_, rfl⟩
  | ok _ => exact ⟨_, rfl⟩

end Pass

/-!
## In a message
-/

section Message

variable {p : Peer} {env : ReadMessageEnv} {st : ReadCo × Nat} {typ : KdbMsgType}
  {s : Spelling} {rest : List UInt8}

/-- The reader is in a message, of which no more has been taken than was sent. -/
def InSent (p : Peer) (env : ReadMessageEnv) (typ : KdbMsgType) (s : Spelling)
    (st : ReadCo × Nat) : Prop :=
  InMessage env typ s st ∧ st.2 <= p.sent.length

theorem InSent.opened (h : InSent p env typ s st)
    (hopen : p.closes = true -> s.message typ <+: p.sent) (hclosed : p.closes = true) :
    st.2 < p.sent.length := by
  rcases h.left with ⟨_, _, _, _, _, _, hin⟩
  exact Nat.lt_of_lt_of_le hin.early (hopen hclosed).length_le

theorem InSent.canRead (h : InSent p env typ s st)
    (hopen : p.closes = true -> s.message typ <+: p.sent)
    (hsize : (s.message typ).length < 2 ^ 31) (ev : Arrival) :
    CanRead st.1 (p.turn st.2 ev) := by
  refine ⟨offer_ne_ended (h.opened hopen), ?_⟩
  rcases st with ⟨co, t⟩
  rcases h.left with ⟨mem, off, k, rdr, res, rfl, hin⟩
  have hused := hin.used
  have hearly := hin.early
  refine ⟨hin.room, ?_⟩
  rw [hin.remaining hsize]
  omega

theorem InSent.pass (h : InSent p env typ s st) (hsent : p.sent <+: s.message typ ++ rest)
    (hopen : p.closes = true -> s.message typ <+: p.sent)
    (hsize : (s.message typ).length < 2 ^ 31) (hunit : s.value.unit <= env.storage.length)
    (ev : Arrival) :
    ¬ (p.pass env st ev).1.Looping ∨ InSent p env typ s (p.pass env st ev) := by
  have hfit := s.countsFit_of_length_lt (by rw [Spelling.message_length] at hsize; omega)
  have hclosed := h.opened hopen
  rcases st with ⟨co, t⟩
  rcases h with ⟨⟨mem, off, k, rdr, res, rfl, hin⟩, hle⟩
  simp only at hin hle hclosed
  have hpos := hin.requested_pos k hsize
  rcases pass_cases env (.body mem off k rdr res, t) ev hpos hclosed
    with ⟨e, hans, hpass⟩ | ⟨xs, hans, hxs, _, hcount, hpass⟩
  · rw [hpass]
    rcases pass_refused env (.body mem off k rdr res, t) trivial hans with
      hend | ⟨_, _, _, _, _, hsame, hnext⟩
    · exact Or.inl (not_looping_of_returned hend)
    · cases hsame
      exact Or.inr ⟨⟨_, _, _, _, _, hnext, hin⟩, hle⟩
  · simp only at hxs hcount hans hpass
    have hstream : xs <+: (s.message typ ++ rest).drop t := hxs.trans (hsent.drop t)
    have htaken : t + xs.length <= p.sent.length := by
      have hlen := hxs.length_le
      rw [List.length_drop] at hlen
      omega
    rw [hpass, readPass_body_ok env hans]
    by_cases hlt : t + xs.length < (s.message typ).length
    · have hbound : off + xs.length <= mem.length := by
        rw [ReadCo.requested] at hcount
        have hroom := hin.room
        omega
      rcases hin.more hfit hsize hunit
        (prefix_inside (Nat.le_of_lt hin.early) hstream (Nat.le_of_lt hlt)) hbound hlt with
        ⟨mem', off', rdr', res', hnext, hin'⟩
      exact Or.inr ⟨⟨mem', off', 0, rdr', res', hnext, hin'⟩, htaken⟩
    · left
      rw [hin.last hfit hstream (Nat.le_of_not_lt hlt)]
      exact not_looping_of_returned (readMessageDone_returned _ _)

end Message

/-!
## Less than declared
-/

section Short

variable {p : Peer} {env : ReadMessageEnv} {st : ReadCo × Nat} {mem : List UInt8} {off t : Nat}
  {rdr : KdbIpcMessageReader}

/--
The payload loop when `t` bytes have been taken from the socket: the buffer holds those that
the reader, which follows no message in particular, has not taken.
-/
structure Pausing (p : Peer) (env : ReadMessageEnv) (mem : List UInt8) (off : Nat)
    (rdr : KdbIpcMessageReader) (t : Nat) : Prop where
  account : Accounted env.canAlloc (p.sent.take t) rdr
  header : 8 <= t
  sent : t <= p.sent.length
  used : rdr.bytUsd + off = t
  size : mem.length = env.storage.length
  held : mem.take off = (p.sent.take t).drop rdr.bytUsd

theorem Pausing.behind (h : Pausing p env mem off rdr t) (hhdr : PlainHdr p.sent) :
    PlainAt (declared p.sent) ((p.sent.take t).drop 8) rdr := by
  have hfront := hhdr.front h.header
  have hsame := declared_more hfront.len (p.sent.drop t)
  rw [List.take_append_drop] at hsame
  rw [hsame]
  exact h.account.behind hfront

theorem Pausing.canRead (h : Pausing p env mem off rdr t) (hhdr : PlainHdr p.sent)
    (hwithin : OpenWithin p.sent) (hroom : p.sent.length < 8 + env.storage.length) :
    off < mem.length ∧ rdr.getInputBytesRemaining ≠ 0 := by
  have hat := h.behind hhdr
  have htaken := hwithin _ ((List.take_prefix _ _).trans ((List.take_prefix t _).drop 8))
    hat.front
  rw [List.length_take, Nat.min_eq_left hat.le] at htaken
  have hused := h.used
  have hbehind := hat.used
  have hsent := h.sent
  have hsmall := declared_lt p.sent
  have hsize := h.size
  refine ⟨by omega, ?_⟩
  rw [getInputBytesRemaining, hat.ipcLen, u64]
  omega

theorem offered_done {hav used : Nat} {out : (Bool × ReadMsgResult) × KdbIpcMessageReader}
    (htrue : out.1.1 = true) : ¬ (offered env mem hav used out).Looping := by
  unfold offered
  cases out.1.2.result with
  | trap why => exact id
  | _ =>
      simp only [htrue, if_true]
      exact not_looping_of_returned (readMessageDone_returned _ _)

theorem offered_pausing {mem : List UInt8} {hav used : Nat} (hhdr : PlainHdr p.sent)
    (hsmall : p.sent.length < 2 ^ 64) {out : (Bool × ReadMsgResult) × KdbIpcMessageReader}
    (hfalse : out.1.1 = false) (haccount : Accounted env.canAlloc (p.sent.take t) out.2)
    (hheader : 8 <= t)
    (hsent : t <= p.sent.length) (hused : used + hav = t) (hmem : hav <= mem.length)
    (hsize : mem.length = env.storage.length)
    (hheld : mem.take hav = (p.sent.take t).drop used) :
    ¬ (offered env mem hav used out).Looping ∨
      exists mem' off' rdr' res', offered env mem hav used out = .body mem' off' 0 rdr' res' ∧
        Pausing p env mem' off' rdr' t := by
  have hat := haccount.behind (hhdr.front hheader)
  have hbehind := hat.used
  have hle := hat.le
  rw [List.length_drop, List.length_take] at hle
  have hrem : u64 ((hav : Int) - ((out.2.getInputBytesConsumed : Int) - used)) =
      t - out.2.bytUsd := by
    rw [getInputBytesConsumed, u64]
    omega
  unfold offered
  cases hres : out.1.2.result with
  | trap why => exact Or.inl id
  | _ =>
      simp only [hrem]
      rw [if_neg (by rw [hfalse]; decide)]
      by_cases hshort : hav < t - out.2.bytUsd
      · rw [if_pos hshort]
        exact Or.inl id
      rw [if_neg hshort]
      have hmove : (mem.take hav).drop (hav - (t - out.2.bytUsd)) =
          (p.sent.take t).drop out.2.bytUsd := by
        rw [hheld, List.drop_drop]
        congr 1
        omega
      have hmoved : ((p.sent.take t).drop out.2.bytUsd).length = t - out.2.bytUsd := by
        rw [List.length_drop, List.length_take]
        omega
      refine Or.inr ⟨_, _, _, _, rfl, haccount, hheader, hsent, by omega, ?_, ?_⟩
      · rw [hmove, place_length (by omega), hsize]
      · have hfront := @place_take mem ((p.sent.take t).drop out.2.bytUsd) 0 (Nat.zero_le _)
        rw [hmove, ← hmoved]
        rwa [Nat.zero_add, List.take_zero, List.nil_append] at hfront

theorem declares_take (hhdr : PlainHdr p.sent) (hwithin : OpenWithin p.sent)
    (canAlloc : Nat -> Bool) (t : Nat) : DeclaresLength canAlloc (p.sent.take t) := by
  have hwhole : DeclaresLength canAlloc (p.sent.take t ++ p.sent.drop t) := by
    rw [List.take_append_drop]
    have hpos := hwithin [] List.nil_prefix front_nil
    exact ⟨fun _ => by omega, fun hother => absurd hother.comp hhdr.comp⟩
  exact hwhole.front

def InShort (p : Peer) (env : ReadMessageEnv) (st : ReadCo × Nat) : Prop :=
  exists mem off k rdr res, st.1 = .body mem off k rdr res ∧ Pausing p env mem off rdr st.2

theorem InShort.pass (h : InShort p env st) (hopen : p.closes = false) (hhdr : PlainHdr p.sent)
    (hwithin : OpenWithin p.sent) (hroom : p.sent.length < 8 + env.storage.length)
    (hsmall : p.sent.length < 2 ^ 64) (ev : Arrival) :
    ¬ (p.pass env st ev).1.Looping ∨ InShort p env (p.pass env st ev) := by
  rcases st with ⟨co, t⟩
  rcases h with ⟨mem, off, k, rdr, res, rfl, hin⟩
  simp only at hin
  rcases hin.canRead hhdr hwithin hroom with ⟨hspace, hmore⟩
  have hpos : 0 < (ReadCo.body mem off k rdr res).requested :=
    Nat.lt_min.mpr ⟨Nat.sub_pos_of_lt hspace, Nat.pos_of_ne_zero hmore⟩
  have hclosed : p.closes = true -> t < p.sent.length := fun h =>
    absurd (h.symm.trans hopen) (by decide)
  rcases pass_cases env (.body mem off k rdr res, t) ev hpos hclosed
    with ⟨e, hans, hpass⟩ | ⟨xs, hans, hxs, _, hcount, hpass⟩
  · rw [hpass]
    rcases pass_refused env (.body mem off k rdr res, t) trivial hans with
      hend | ⟨_, _, _, _, _, hsame, hnext⟩
    · exact Or.inl (not_looping_of_returned hend)
    · cases hsame
      exact Or.inr ⟨_, _, _, _, _, hnext, hin⟩
  · simp only at hxs hcount hans hpass
    have hused := hin.used
    have hfront : xs = (p.sent.drop t).take xs.length := List.prefix_iff_eq_take.mp hxs
    have htaken := hxs.length_le
    rw [List.length_drop] at htaken
    have hbound : off + xs.length <= mem.length := by
      rw [ReadCo.requested] at hcount
      omega
    have hmore : p.sent.take t ++ xs = p.sent.take (t + xs.length) := by
      rw [List.take_add, ← hfront]
    have hwindow : (place mem off xs).take (off + xs.length) =
        (p.sent.take (t + xs.length)).drop rdr.bytUsd := by
      rw [place_take (Nat.le_of_lt hspace), hin.held, ← hmore,
        List.drop_append_of_le_length]
      rw [List.length_take]
      omega
    have hcall := hin.account.call (hmore ▸ declares_take hhdr hwithin env.canAlloc _) res
    rw [hmore, ← hwindow] at hcall
    rw [hpass, readPass_body_ok env hans]
    have hheader := hin.header
    rcases hcall with ⟨hfalse, hnext⟩ | ⟨htrue, _⟩
    · rcases offered_pausing hhdr hsmall hfalse hnext (by omega) (by omega)
        (show rdr.getInputBytesConsumed + (off + xs.length) = t + xs.length by
          rw [getInputBytesConsumed]; omega)
        (by rw [place_length hbound]; exact hbound)
        (by rw [place_length hbound, hin.size]) hwindow with hend | ⟨_, _, _, _, hbody, hin'⟩
      · exact Or.inl hend
      · exact Or.inr ⟨_, _, _, _, _, hbody, hin'⟩
    · exact Or.inl (offered_done htrue)

theorem readPass_header_short (hhdr : PlainHdr p.sent) (hwithin : OpenWithin p.sent)
    {turn : SocketTurn} {xs : List UInt8}
    (hans : (ReadCo.header env.storage 0).answer turn = .ok xs)
    (hsignal : epollErr &&& turn.revts = 0) (hxs : xs <+: p.sent) (height : xs.length = 8) :
    ¬ (readPass env (.header env.storage 0) turn).Looping ∨
      InShort p env (readPass env (.header env.storage 0) turn, 8) := by
  have hroom := env.reserved
  rcases @place_front env.storage xs (by omega) with ⟨hplaced, htake⟩
  have hfront : xs = p.sent.take 8 := by
    rw [← height]
    exact List.prefix_iff_eq_take.mp hxs
  have hdecl := declares_take hhdr hwithin env.canAlloc 8
  rw [← hfront] at hdecl
  have hidle : Accounted env.canAlloc [] KdbIpcMessageReader.new :=
    .idle ⟨rfl, rfl, rfl⟩ rfl fun hhdr => absurd hhdr.len (by decide)
  have hcall := hidle.call hdecl unset
  rw [height] at htake
  rw [readPass_header_ok env hans hsignal, if_neg (by omega), headerRead, htake]
  have hshown : ([] ++ xs).drop KdbIpcMessageReader.new.bytUsd = xs := rfl
  rw [hshown, List.nil_append] at hcall
  generalize readMsg env.canAlloc new xs unset = out at hcall ⊢
  cases hres : out.1.2.result with
  | trap why => exact Or.inl id
  | _ =>
      rcases hcall with ⟨hfalse, hnext⟩ | ⟨htrue, _⟩
      · simp only [hfalse]
        rw [hfront] at hnext
        have hat := hnext.behind (hhdr.front (Nat.le_refl 8))
        have hle := hat.le
        have hused := hat.used
        rw [List.length_drop, List.length_take] at hle
        refine Or.inr ⟨_, _, _, _, _, rfl, ?_, Nat.le_refl 8, hhdr.len, ?_, hplaced, ?_⟩
        · exact hnext
        · simp only
          omega
        · rw [List.take_zero]
          refine (List.drop_eq_nil_of_le ?_).symm
          rw [List.length_take]
          omega
      · simp only [htrue, if_true]
        exact Or.inl (not_looping_of_returned (readMessageDone_returned _ _))

end Short

/-!
## Every pass
-/

section Run

variable {p : Peer} {env : ReadMessageEnv} {st : ReadCo × Nat}

inductive Going (p : Peer) (env : ReadMessageEnv) (st : ReadCo × Nat) : Prop
  | returned (h : ¬ st.1.Looping)
  | message (typ : KdbMsgType) (s : Spelling) (rest : List UInt8)
      (hsent : p.sent <+: s.message typ ++ rest)
      (hopen : p.closes = true -> s.message typ <+: p.sent)
      (hsize : (s.message typ).length < 2 ^ 31) (hunit : s.value.unit <= env.storage.length)
      (h : InSent p env typ s st)
  | short (hopen : p.closes = false) (hhdr : PlainHdr p.sent) (hwithin : OpenWithin p.sent)
      (hroom : p.sent.length < 8 + env.storage.length) (hsmall : p.sent.length < 2 ^ 64)
      (h : InShort p env st)
  | headless (hopen : p.closes = false) (hlen : p.sent.length < 8) (mem : List UInt8)
      (hst : st.1 = .header mem st.2) (hle : st.2 <= p.sent.length)

theorem Going.canRead (h : Going p env st) (hloop : st.1.Looping) (ev : Arrival) :
    CanRead st.1 (p.turn st.2 ev) := by
  cases h with
  | returned hover => exact absurd hloop hover
  | message typ s rest _ hopen hsize _ hin => exact hin.canRead hopen hsize ev
  | short hopen hhdr hwithin hroom hsmall hin =>
      refine ⟨offer_ne_ended fun h => absurd (h.symm.trans hopen) (by decide), ?_⟩
      rcases st with ⟨co, t⟩
      rcases hin with ⟨mem, off, k, rdr, res, rfl, hin⟩
      exact hin.canRead hhdr hwithin hroom
  | headless hopen _ mem hst _ =>
      refine ⟨offer_ne_ended fun h => absurd (h.symm.trans hopen) (by decide), ?_⟩
      rw [hst]
      trivial

theorem pass_headless {mem : List UInt8} {t : Nat} (hopen : p.closes = false)
    (hlen : p.sent.length < 8) (hle : t <= p.sent.length) (ev : Arrival) :
    Going p env (p.pass env (.header mem t, t) ev) := by
  have hclosed : p.closes = true -> t < p.sent.length := fun h =>
    absurd (h.symm.trans hopen) (by decide)
  rcases pass_cases env (.header mem t, t) ev (Nat.zero_lt_succ 7)
    hclosed with ⟨e, hans, hpass⟩ | ⟨xs, hans, hxs, _, _, hpass⟩
  · rw [hpass]
    exact .returned (not_looping_of_returned (readPass_header_error env hans))
  · simp only at hxs hans hpass
    have htaken := hxs.length_le
    rw [List.length_drop] at htaken
    rw [hpass]
    by_cases hsignal : epollErr &&& (p.turn t ev).revts = 0
    · rw [readPass_header_ok env hans hsignal, if_pos (by omega)]
      exact .headless hopen hlen _ rfl (by simp only; omega)
    · refine .returned (not_looping_of_returned ?_)
      rw [readPass, headerPass, if_pos hsignal]
      exact ⟨_, rfl⟩

theorem Going.pass (h : Going p env st) (ev : Arrival) : Going p env (p.pass env st ev) := by
  cases h with
  | returned hover =>
      refine .returned ?_
      rcases st with ⟨co, t⟩
      cases co with
      | header mem tot => exact absurd trivial hover
      | body mem off k rdr res => exact absurd trivial hover
      | returned out => exact id
      | trapped => exact id
  | message typ s rest hsent hopen hsize hunit hin =>
      rcases hin.pass hsent hopen hsize hunit ev with hover | hnext
      · exact .returned hover
      · exact .message typ s rest hsent hopen hsize hunit hnext
  | short hopen hhdr hwithin hroom hsmall hin =>
      rcases hin.pass hopen hhdr hwithin hroom hsmall ev with hover | hnext
      · exact .returned hover
      · exact .short hopen hhdr hwithin hroom hsmall hnext
  | headless hopen hlen mem hst hle =>
      rcases st with ⟨co, t⟩
      simp only at hst hle
      subst hst
      exact pass_headless hopen hlen hle ev

theorem Serves.opened (h : p.Serves env) (hclosed : p.closes = true) : 0 < p.sent.length := by
  cases h with
  | message typ s rest _ hopen _ _ =>
      have hlen := (hopen hclosed).length_le
      rw [Spelling.message_length] at hlen
      omega
  | short hopen => exact absurd (hclosed.symm.trans hopen) (by decide)
  | headless hopen => exact absurd (hclosed.symm.trans hopen) (by decide)

theorem length_first {ev : Arrival} {xs : List UInt8} (hwhole : ev.Whole)
    (hans : (ReadCo.header env.storage 0).answer (p.turn 0 ev) = .ok xs) (hpos : 0 < xs.length)
    (hcount : xs.length = min 8 (min ev.size (p.sent.length - 0)))
    (hlen : 8 <= p.sent.length) : xs.length = 8 := by
  rcases hwhole with hfailed | hnone | hwhole
  · rcases Option.ne_none_iff_exists'.mp hfailed with ⟨e, he⟩
    rw [ReadCo.answer, turn, offer, he] at hans
    cases hans
  · omega
  · omega

theorem going_first (h : p.Serves env) {ev : Arrival}
    (hwhole : 8 <= p.sent.length -> ev.Whole) :
    Going p env (p.pass env (.header env.storage 0, 0) ev) := by
  by_cases hlen : p.sent.length < 8
  · refine pass_headless ?_ hlen (Nat.zero_le _) ev
    rw [Bool.eq_false_iff]
    intro hclosed
    cases h with
    | message typ s rest _ hopen _ _ =>
        have hle := (hopen hclosed).length_le
        rw [Spelling.message_length] at hle
        omega
    | short _ hhdr =>
        have hheader := hhdr.len
        omega
    | headless hopen => exact absurd (hclosed.symm.trans hopen) (by decide)
  have hlong := Nat.le_of_not_lt hlen
  rcases pass_cases env (.header env.storage 0, 0) ev
    (Nat.zero_lt_succ 7) h.opened with ⟨e, hans, hpass⟩ | ⟨xs, hans, hxs, hpos, hcount, hpass⟩
  · rw [hpass]
    exact .returned (not_looping_of_returned (readPass_header_error env hans))
  simp only at hxs hcount hans hpass
  have height := length_first (hwhole hlong) hans hpos hcount hlong
  rw [List.drop_zero] at hxs
  rw [hpass, height, Nat.zero_add]
  by_cases hsignal : epollErr &&& (p.turn 0 ev).revts = 0
  · cases h with
    | message typ s rest hsent hopen hsize hunit =>
        have hfit := s.countsFit_of_length_lt (by rw [Spelling.message_length] at hsize; omega)
        have hfront : xs <+: s.message typ := by
          refine List.prefix_of_prefix_length_le (hxs.trans hsent) (List.prefix_append _ _) ?_
          rw [height, Spelling.message_length]
          exact Nat.le_add_right 8 _
        exact .message typ s rest hsent hopen hsize hunit
          ⟨readPass_header_message hfit hsize hans hsignal hfront height, hlong⟩
    | short hopen hhdr hwithin hroom hsmall =>
        rcases readPass_header_short hhdr hwithin hans hsignal hxs height with hover | hin
        · exact .returned hover
        · exact .short hopen hhdr hwithin hroom hsmall hin
    | headless _ hnone => exact absurd hnone hlen
  · refine .returned (not_looping_of_returned ?_)
    rw [readPass, headerPass, if_pos hsignal]
    exact ⟨_, rfl⟩

theorem going_coAt (h : p.Serves env) {events : Nat -> Arrival}
    (hwhole : 8 <= p.sent.length -> (events 0).Whole) (n : Nat) :
    Going p env (p.coAt env events (n + 1)) := by
  induction n with
  | zero =>
      rw [coAt, coAt, kdbReadMessage]
      cases env.addInterest with
      | error e => exact .returned id
      | ok _ => exact going_first h hwhole
  | succ n ih => exact ih.pass (events (n + 1))

theorem canRead_coAt (h : p.Serves env) {events : Nat -> Arrival}
    (hwhole : 8 <= p.sent.length -> (events 0).Whole) (n : Nat)
    (hloop : (p.coAt env events n).1.Looping) :
    CanRead (p.coAt env events n).1 (p.turns env events n) := by
  cases n with
  | zero =>
      refine ⟨offer_ne_ended h.opened, ?_⟩
      rw [coAt, kdbReadMessage]
      cases env.addInterest with
      | error e => trivial
      | ok _ => trivial
  | succ n => exact (going_coAt h hwhole n).canRead hloop (events (n + 1))

end Run

end Peer

/--
A peer that sends a whole message first, or leaves no object open at the declared length, and
its header in one piece: each pass that is not interrupted gets somewhere, and of any four in
a row at least one does, so that no run goes on for ever without new input.
-/
theorem kdbReadMessage_progress (env : ReadMessageEnv) (p : Peer) (events : Nat -> Arrival)
    (hserves : p.Serves env) (hwhole : 8 <= p.sent.length -> (events 0).Whole) (n : Nat)
    (hloop : (p.coAt env events n).1.Looping) :
    ((p.turns env events n).offer ≠ .refused eintr ->
        Progresses env (p.coAt env events n).1 (p.turns env events n)) ∧
      (exists m, n <= m ∧ m <= n + 3 ∧ (p.coAt env events m).1.Looping ∧
        Progresses env (p.coAt env events m).1 (p.turns env events m)) := by
  have hcan : forall m, (readCoAt env (p.turns env events) m).Looping ->
      CanRead (readCoAt env (p.turns env events) m) (p.turns env events m) := by
    intro m hm
    rw [← p.coAt_fst] at hm ⊢
    exact Peer.canRead_coAt hserves hwhole m hm
  rw [p.coAt_fst] at hloop
  have hprog := progresses_of_canRead env (p.turns env events) hcan n hloop
  simp only [p.coAt_fst]
  exact hprog

def sevenPeer : Peer := ⟨(Spelling.atom .int 7).message .response, true⟩

def sevenArrives : Nat -> Arrival
  | 0 => ⟨1, 8, none⟩
  | 1 => ⟨1, 0, none⟩
  | 2 => ⟨1, 5, some eintr⟩
  | _ => ⟨1, 6, none⟩

theorem kdbReadMessage_progress_response :
    ((sevenPeer.turns smallEnv sevenArrives 2).offer ≠ .refused eintr ->
        Progresses smallEnv (sevenPeer.coAt smallEnv sevenArrives 2).1
          (sevenPeer.turns smallEnv sevenArrives 2)) ∧
      (exists m, 2 <= m ∧ m <= 2 + 3 ∧ (sevenPeer.coAt smallEnv sevenArrives m).1.Looping ∧
        Progresses smallEnv (sevenPeer.coAt smallEnv sevenArrives m).1
          (sevenPeer.turns smallEnv sevenArrives m)) :=
  kdbReadMessage_progress smallEnv sevenPeer sevenArrives
    (.message .response (.atom .int 7) [] (by decide) (fun _ => List.prefix_rfl) (by decide)
      (by decide))
    (fun _ => Or.inr (Or.inr (Nat.le_refl 8))) 2 trivial

/-- A payload of an unknown type, one byte short. -/
example : (⟨[1, 2, 0, 0, 12, 0, 0, 0, 200, 7, 7], false⟩ : Peer).Serves smallEnv := by
  have hhdr : PlainHdr [1, 2, 0, 0, 12, 0, 0, 0, 200, 7, 7] := ⟨by decide, rfl, by decide⟩
  exact .short rfl hhdr (Peer.openWithin_of_lt hhdr (by decide)) (by decide) (by decide)

end MgKdb
