import MgKdb.Reader.Leftover
import MgKdb.Tpmux.ReadProgress

/-!
# `kdb_read_message` and short reads

The message that is read may be followed by others.  The loop for the payload asks for as
many bytes as the reader has not taken, also for those that are in the buffer already, and
so a read can reach into the next message.  As long as none does, and the header comes in
one piece, the message is returned and nothing behind it is taken.
-/

namespace MgKdb

open KdbIpcMessageReader

def arrival : List UInt8 -> SocketTurn
  | [] => ⟨1, .refused eagain⟩
  | b :: more => ⟨1, .arrived b more⟩

def brought (ans : Except Int (List UInt8)) : Nat :=
  match ans with
  | .ok xs => xs.length
  | .error _ => 0

section Stream

variable (env : ReadMessageEnv) (stream : List UInt8)

/--
One pass when `size` more bytes of the stream have arrived: the coroutine, and how
many bytes it has taken from the socket.
-/
def streamPass (st : ReadCo × Nat) (size : Nat) : ReadCo × Nat :=
  let turn := arrival ((stream.drop st.2).take size)
  (readPass env st.1 turn, st.2 + brought (st.1.answer turn))

/-- After some passes; before each of them `sizes` says how much has arrived. -/
def streamAt (sizes : Nat -> Nat) : Nat -> ReadCo × Nat
  | 0 => (kdbReadMessage env, 0)
  | n + 1 => streamPass env stream (streamAt sizes n) (sizes n)

end Stream

/-- The message has been returned, and its bytes and no others taken from the socket. -/
def Delivered (typ : KdbMsgType) (s : Spelling) (st : ReadCo × Nat) : Prop :=
  exists res, st = (.returned (.ok res), (s.message typ).length) ∧
    res.result = .ok ∧ res.msgTyp = typ.i8 ∧ res.message = some s.value.obj

def ReturnsMessage (env : ReadMessageEnv) (typ : KdbMsgType) (s : Spelling) (rest : List UInt8)
    (sizes : Nat -> Nat) : Prop :=
  exists n, Delivered typ s (streamAt env (s.message typ ++ rest) sizes n)

/--
A pass spares what follows the message: it finds nothing in the buffer that the reader has
left there, or nothing follows, or what has arrived or the room in the buffer is no more than
the message still lacks.
-/
def Spares (typ : KdbMsgType) (s : Spelling) (rest : List UInt8) (st : ReadCo × Nat)
    (size : Nat) : Prop :=
  match st.1 with
  | .body mem off _ _ _ =>
      off = 0 ∨ rest = [] ∨ min size (mem.length - off) <= (s.message typ).length - st.2
  | _ => True

/-!
## The buffer
-/

theorem place_length {mem xs : List UInt8} {off : Nat} (h : off + xs.length <= mem.length) :
    (place mem off xs).length = mem.length := by
  rw [place, List.length_append, List.length_append, List.length_take, List.length_drop]
  omega

theorem place_take {mem xs : List UInt8} {off : Nat} (h : off <= mem.length) :
    (place mem off xs).take (off + xs.length) = mem.take off ++ xs := by
  have hlen : (mem.take off ++ xs).length = off + xs.length := by
    rw [List.length_append, List.length_take]
    omega
  rw [place, ← hlen, List.take_left]

theorem drop_take_append {l : List UInt8} {u t n : Nat} (hu : u <= t) (ht : t <= l.length) :
    (l.take t).drop u ++ (l.drop t).take n = (l.take (t + n)).drop u := by
  rw [List.take_add, List.drop_append_of_le_length]
  rw [List.length_take]
  omega

theorem arrival_signal (bytes : List UInt8) : epollErr &&& (arrival bytes).revts = 0 := by
  have hsignal : epollErr &&& 1 = 0 := by decide
  cases bytes with
  | nil => exact hsignal
  | cons b more => exact hsignal

theorem answer_arrival {co : ReadCo} {bytes : List UInt8} (hpos : 0 < co.requested)
    (hsome : bytes ≠ []) : co.answer (arrival bytes) = .ok (bytes.take co.requested) := by
  cases bytes with
  | nil => exact absurd rfl hsome
  | cons b more =>
      unfold ReadCo.answer ioRead
      exact if_neg (Nat.ne_of_gt hpos)

section Body

variable {env : ReadMessageEnv} {typ : KdbMsgType} {s : Spelling} {mem : List UInt8}
  {off : Nat} {rdr : KdbIpcMessageReader} {res : ReadMsgResult} {t : Nat}

/--
The payload loop in the middle of a message, of which `t` bytes have been taken from
the socket: the buffer holds those that the reader has not taken.
-/
structure Filling (env : ReadMessageEnv) (typ : KdbMsgType) (s : Spelling) (mem : List UInt8)
    (off : Nat) (rdr : KdbIpcMessageReader) (res : ReadMsgResult) (t : Nat) : Prop where
  reading : Reading s rdr
  ipcLen : rdr.ipcLen = (s.message typ).length
  typed : res.msgTyp = typ.i8
  used : rdr.bytUsd + off = t
  early : t < (s.message typ).length
  room : off < mem.length
  size : mem.length = env.storage.length
  held : mem.take off = ((s.message typ).take t).drop rdr.bytUsd

theorem Filling.remaining (h : Filling env typ s mem off rdr res t)
    (hsize : (s.message typ).length < 2 ^ 31) :
    rdr.getInputBytesRemaining = (s.message typ).length - rdr.bytUsd := by
  have hused := h.used
  have hearly := h.early
  rw [getInputBytesRemaining, h.ipcLen, u64]
  omega

theorem Filling.requested_pos (h : Filling env typ s mem off rdr res t) (numNfrs : Nat)
    (hsize : (s.message typ).length < 2 ^ 31) :
    0 < (ReadCo.body mem off numNfrs rdr res).requested := by
  have hused := h.used
  have hearly := h.early
  have hroom := h.room
  rw [ReadCo.requested, h.remaining hsize]
  omega

theorem Filling.window (h : Filling env typ s mem off rdr res t) {tail xs : List UInt8}
    (hxs : xs <+: (s.message typ ++ tail).drop t) :
    (place mem off xs).take (off + xs.length) =
      ((s.message typ ++ tail).take (t + xs.length)).drop rdr.bytUsd := by
  have hused := h.used
  have hearly := h.early
  have hfront : xs = ((s.message typ ++ tail).drop t).take xs.length :=
    List.prefix_iff_eq_take.mp hxs
  have hheld : (s.message typ).take t = (s.message typ ++ tail).take t :=
    (List.take_append_of_le_length (Nat.le_of_lt hearly)).symm
  rw [place_take (Nat.le_of_lt h.room), h.held, hheld, ← drop_take_append (by omega)
    (by rw [List.length_append]; omega), ← hfront]

theorem Filling.more (h : Filling env typ s mem off rdr res t) (hfit : s.value.CountsFit)
    (hsize : (s.message typ).length < 2 ^ 31) (hunit : s.value.unit <= env.storage.length)
    {xs : List UInt8} (hxs : xs <+: (s.message typ).drop t)
    (hbound : off + xs.length <= mem.length)
    (hlt : t + xs.length < (s.message typ).length) :
    exists mem' off' rdr' res',
      offered env (place mem off xs) (off + xs.length) rdr.getInputBytesConsumed
        (readMsg env.canAlloc rdr ((place mem off xs).take (off + xs.length)) res) =
        .body mem' off' 0 rdr' res' ∧
      Filling env typ s mem' off' rdr' res' (t + xs.length) := by
  have hused := h.used
  have hwin := h.window (show xs <+: (s.message typ ++ []).drop t by rwa [List.append_nil])
  rw [List.append_nil] at hwin
  have hlen := s.message_length typ
  have hread := h.reading.used
  rcases readMsg_again env.canAlloc [] h.reading hfit (by rw [h.ipcLen]; omega)
    (show rdr.bytUsd <= t + xs.length by omega)
    (show _ <= (s.message typ ++ []).length by rw [List.append_nil]; exact Nat.le_of_lt hlt)
    res with ⟨b, hcall, hat, hrem, hpre⟩
  rw [List.append_nil] at hcall
  rcases readMsgBody_more hfit hunit h.reading hat hpre (by omega) res with
    ⟨x, k', hslot, hk, hk', hleft, hbody⟩
  have hplaced := place_length hbound
  -- what the reader leaves goes to the front
  have hback : u64 (((off + xs.length : Nat) : Int) -
      (((rdr.at' x k').getInputBytesConsumed : Int) - rdr.getInputBytesConsumed)) =
        t + xs.length - (8 + k') := by
    rw [getInputBytesConsumed, getInputBytesConsumed, used_at', u64]
    omega
  have hmove : ((place mem off xs).take (off + xs.length)).drop
      (off + xs.length - (t + xs.length - (8 + k'))) =
        ((s.message typ).take (t + xs.length)).drop (8 + k') := by
    rw [hwin, List.drop_drop]
    congr 1
    omega
  have hmoved : (((s.message typ).take (t + xs.length)).drop (8 + k')).length =
      t + xs.length - (8 + k') := by
    rw [List.length_drop, List.length_take]
    omega
  refine ⟨place (place mem off xs) 0
      (((s.message typ).take (t + xs.length)).drop (8 + k')),
    t + xs.length - (8 + k'), rdr.at' x k', { res with result := .incomplete }, ?_, ?_⟩
  · rw [hwin, hcall, hbody, offered]
    simp only [Bool.false_eq_true, if_false]
    rw [hback, if_neg (by omega), hmove]
  · refine ⟨⟨h.reading.plain, rfl, hslot⟩, h.ipcLen, h.typed, ?_, hlt, ?_, ?_, ?_⟩
    · rw [used_at']
      omega
    · rw [place_length (by omega), hplaced, h.size]
      omega
    · rw [place_length (by omega), hplaced, h.size]
    · rw [used_at', ← hmoved]
      have hfront := @place_take (place mem off xs)
        (((s.message typ).take (t + xs.length)).drop (8 + k')) 0 (Nat.zero_le _)
      rwa [Nat.zero_add, List.take_zero, List.nil_append] at hfront

theorem Filling.last (h : Filling env typ s mem off rdr res t) (hfit : s.value.CountsFit)
    {tail xs : List UInt8} (hxs : xs <+: (s.message typ ++ tail).drop t)
    (hend : (s.message typ).length <= t + xs.length) :
    offered env (place mem off xs) (off + xs.length) rdr.getInputBytesConsumed
        (readMsg env.canAlloc rdr ((place mem off xs).take (off + xs.length)) res) =
      readMessageDone env { res with result := .ok, message := some s.value.obj } := by
  have hused := h.used
  have hlen := s.message_length typ
  have hread := h.reading.used
  have hroom := hxs.length_le
  rw [List.length_drop] at hroom
  have hearly := h.early
  have htotal : t + xs.length <= (s.message typ ++ tail).length := by
    rw [List.length_append] at hroom ⊢
    omega
  rcases readMsg_again env.canAlloc tail h.reading hfit (by rw [h.ipcLen]; omega)
    (show rdr.bytUsd <= t + xs.length by omega) htotal res with
    ⟨b, hcall, hat, hrem, hpre⟩
  rcases readMsgBody_of_front hfit h.reading hat hpre res with ⟨_, hbody⟩ | ⟨hlt, _⟩
  · rw [h.window hxs, hcall, hbody, offered]
    simp only [if_true]
  · omega

end Body

/-!
## One pass
-/

section Pass

variable {env : ReadMessageEnv} {typ : KdbMsgType} {s : Spelling} {rest : List UInt8}
  {sizes : Nat -> Nat}

theorem streamPass_eq (env : ReadMessageEnv) {stream : List UInt8} {co : ReadCo}
    {t size : Nat} (hpos : 0 < co.requested) (hsome : 0 < size) (hmore : t < stream.length) :
    exists xs, xs <+: stream.drop t ∧
      xs.length = min co.requested (min size (stream.length - t)) ∧
      co.answer (arrival ((stream.drop t).take size)) = .ok xs ∧
      streamPass env stream (co, t) size =
        (readPass env co (arrival ((stream.drop t).take size)), t + xs.length) := by
  have hne : (stream.drop t).take size ≠ [] := by
    intro hnil
    have hlen := congrArg List.length hnil
    rw [List.length_take, List.length_drop, List.length_nil] at hlen
    omega
  have hans := answer_arrival hpos hne
  refine ⟨((stream.drop t).take size).take co.requested,
    (List.take_prefix _ _).trans (List.take_prefix _ _), ?_, hans, ?_⟩
  · rw [List.length_take, List.length_take, List.length_drop]
  · rw [streamPass, hans]
    rfl

def InMessage (env : ReadMessageEnv) (typ : KdbMsgType) (s : Spelling) (st : ReadCo × Nat) :
    Prop :=
  exists mem off numNfrs rdr res, st.1 = .body mem off numNfrs rdr res ∧
    Filling env typ s mem off rdr res st.2

theorem prefix_inside {msg xs : List UInt8} {t : Nat} (ht : t <= msg.length)
    (hxs : xs <+: (msg ++ rest).drop t) (hle : t + xs.length <= msg.length) :
    xs <+: msg.drop t := by
  rw [List.drop_append_of_le_length ht] at hxs
  refine List.prefix_of_prefix_length_le hxs (List.prefix_append _ _) ?_
  rw [List.length_drop]
  omega

theorem streamPass_takes (rest : List UInt8) {st : ReadCo × Nat} {size : Nat}
    (h : InMessage env typ s st) (hsize : (s.message typ).length < 2 ^ 31) (hsome : 0 < size) :
    exists mem off numNfrs rdr res xs, st.1 = .body mem off numNfrs rdr res ∧
      Filling env typ s mem off rdr res st.2 ∧
      xs <+: (s.message typ ++ rest).drop st.2 ∧ 0 < xs.length ∧
      off + xs.length <= mem.length ∧
      (st.2 + xs.length <= (s.message typ).length <-> Spares typ s rest st size) ∧
      streamPass env (s.message typ ++ rest) st size =
        (offered env (place mem off xs) (off + xs.length) rdr.getInputBytesConsumed
          (readMsg env.canAlloc rdr ((place mem off xs).take (off + xs.length)) res),
          st.2 + xs.length) := by
  rcases st with ⟨co, t⟩
  rcases h with ⟨mem, off, numNfrs, rdr, res, rfl, h⟩
  simp only at h
  have hused := h.used
  have hearly := h.early
  have hroom := h.room
  have hmore : t < (s.message typ ++ rest).length := by
    rw [List.length_append]
    exact Nat.lt_add_right _ hearly
  rcases streamPass_eq env (h.requested_pos numNfrs hsize) hsome hmore with
    ⟨xs, hxs, hcount, hans, hpass⟩
  rw [ReadCo.requested, h.remaining hsize, List.length_append] at hcount
  refine ⟨mem, off, numNfrs, rdr, res, xs, rfl, h, hxs, by omega, by omega, ?_, ?_⟩
  · rw [Spares, ← List.length_eq_zero_iff]
    simp only
    omega
  · rw [hpass, readPass_body_ok env hans]

theorem streamPass_inMessage {st : ReadCo × Nat} {size : Nat} (h : InMessage env typ s st)
    (hfit : s.value.CountsFit) (hsize : (s.message typ).length < 2 ^ 31)
    (hunit : s.value.unit <= env.storage.length) (hclear : env.clrInterest = .ok ())
    (hsome : 0 < size) (hspares : Spares typ s rest st size) :
    st.2 < (streamPass env (s.message typ ++ rest) st size).2 ∧
      (InMessage env typ s (streamPass env (s.message typ ++ rest) st size) ∨
        Delivered typ s (streamPass env (s.message typ ++ rest) st size)) := by
  rcases streamPass_takes rest h hsize hsome with
    ⟨mem, off, numNfrs, rdr, res, xs, _, hin, hxs, hpos, hbound, hiff, hpass⟩
  have hinside := hiff.mpr hspares
  have hfront := prefix_inside (Nat.le_of_lt hin.early) hxs hinside
  rw [hpass]
  refine ⟨Nat.lt_add_of_pos_right hpos, ?_⟩
  rcases Nat.lt_or_eq_of_le hinside with hlt | heq
  · rcases hin.more hfit hsize hunit hfront hbound hlt with
      ⟨mem', off', rdr', res', hnext, hin'⟩
    exact Or.inl ⟨mem', off', 0, rdr', res', hnext, hin'⟩
  · right
    rw [hin.last hfit hxs (Nat.le_of_eq heq.symm), readMessageDone, hclear, heq]
    exact ⟨_, rfl, rfl, hin.typed, rfl⟩

theorem headerRead_message (hfit : s.value.CountsFit)
    (hsize : (s.message typ).length < 2 ^ 31) {mem : List UInt8}
    (hroom : 8 <= mem.length) (hstorage : mem.length = env.storage.length)
    (hhdr : mem.take 8 = (s.message typ).take 8) :
    InMessage env typ s (headerRead env mem, 8) := by
  have hlen := s.message_length typ
  have hpos := s.bytes_pos
  have hidle : Idle KdbIpcMessageReader.new := ⟨rfl, rfl, rfl⟩
  rcases readMsg_header env.canAlloc hsize hidle (Nat.le_refl 8) (by omega) unset with
    ⟨b, hcall, hr, hipc, hat, hrem, hpre⟩
  rcases readMsgBody_more hfit (Nat.le_refl s.value.unit) hr hat hpre
    (show 0 + b.remaining < s.bytes.length by omega) { unset with msgTyp := typ.i8 } with
    ⟨x, k', hslot, _, hk', _, hbody⟩
  have hzero : k' = 0 := Nat.le_zero.mp (by
    rw [show (KdbIpcMessageReader.new.headed typ s.bytes.length).bytDez = 0 from rfl] at hk'
    omega)
  subst hzero
  refine ⟨mem, 0, 0, (KdbIpcMessageReader.new.headed typ s.bytes.length).at' x 0,
    { unset with result := .incomplete, msgTyp := typ.i8 }, ?_, ⟨hr.plain, rfl, hslot⟩, ?_,
    rfl, rfl, ?_, ?_, hstorage, ?_⟩
  · rw [headerRead, hhdr, hcall, hbody]
    rfl
  · rw [hlen]
    exact hipc
  · simp only
    omega
  · omega
  · rw [List.take_zero, used_at']
    exact (List.drop_eq_nil_of_le (List.length_take_le _ _)).symm

theorem readPass_header_message (hfit : s.value.CountsFit)
    (hsize : (s.message typ).length < 2 ^ 31) {turn : SocketTurn} {xs : List UInt8}
    (hans : (ReadCo.header env.storage 0).answer turn = .ok xs)
    (hsignal : epollErr &&& turn.revts = 0) (hxs : xs <+: s.message typ)
    (height : xs.length = 8) :
    InMessage env typ s (readPass env (.header env.storage 0) turn, 8) := by
  have hroom := env.reserved
  rcases @place_front env.storage xs (by omega) with ⟨hplaced, htake⟩
  rw [readPass_header_ok env hans hsignal, if_neg (by omega)]
  refine headerRead_message hfit hsize (by omega) hplaced ?_
  rw [← height, htake]
  exact List.prefix_iff_eq_take.mp hxs

theorem streamPass_header (hfit : s.value.CountsFit)
    (hsize : (s.message typ).length < 2 ^ 31)
    (hadd : env.addInterest = .ok ()) {size : Nat} (hwhole : 8 <= size) :
    InMessage env typ s
      (streamPass env (s.message typ ++ rest) (kdbReadMessage env, 0) size) := by
  have hlen := s.message_length typ
  have hmore : 0 < (s.message typ ++ rest).length := by
    rw [List.length_append]
    omega
  have hstart : kdbReadMessage env = .header env.storage 0 := by
    rw [kdbReadMessage, hadd]
  have hasked : 0 < (ReadCo.header env.storage 0).requested := Nat.zero_lt_succ 7
  rw [hstart]
  rcases streamPass_eq env hasked (Nat.lt_of_lt_of_le (Nat.zero_lt_succ 7) hwhole) hmore with
    ⟨xs, hxs, hcount, hans, hpass⟩
  rw [ReadCo.requested, List.length_append] at hcount
  have height : xs.length = 8 := by omega
  have hfront := prefix_inside (Nat.zero_le _) hxs (by omega)
  rw [List.drop_zero] at hfront
  rw [hpass, height, Nat.zero_add]
  exact readPass_header_message hfit hsize hans (arrival_signal _) hfront height

/-!
## Every sequence of reads
-/

theorem streamAt_mono (env : ReadMessageEnv) (stream : List UInt8) (sizes : Nat -> Nat)
    (n k : Nat) : (streamAt env stream sizes n).2 <= (streamAt env stream sizes (n + k)).2 := by
  induction k with
  | zero => exact Nat.le_refl _
  | succ k ih => exact Nat.le_trans ih (Nat.le_add_right _ _)

theorem streamAt_returned {stream : List UInt8} {n t : Nat} {out : Except ErrnoMsg ReadMsgResult}
    (h : streamAt env stream sizes n = (.returned out, t)) (k : Nat) :
    streamAt env stream sizes (n + k) = (.returned out, t) := by
  induction k with
  | zero => exact h
  | succ k ih =>
      rw [← Nat.add_assoc, streamAt, ih]
      rfl

theorem taken_le_of_returns (h : ReturnsMessage env typ s rest sizes) (m : Nat) :
    (streamAt env (s.message typ ++ rest) sizes m).2 <= (s.message typ).length := by
  rcases h with ⟨n, res, hend, _⟩
  rcases Nat.le_total m n with hle | hle
  · have hmono := streamAt_mono env (s.message typ ++ rest) sizes m (n - m)
    rw [Nat.add_sub_cancel' hle, hend] at hmono
    exact hmono
  · have hstay := streamAt_returned hend (m - n)
    rw [Nat.add_sub_cancel' hle] at hstay
    rw [hstay]

theorem inMessage_of_returns (hfit : s.value.CountsFit)
    (hsize : (s.message typ).length < 2 ^ 31) (hunit : s.value.unit <= env.storage.length)
    (hclear : env.clrInterest = .ok ()) (hsome : forall n, 0 < sizes n)
    (h : ReturnsMessage env typ s rest sizes)
    (hfirst : InMessage env typ s (streamAt env (s.message typ ++ rest) sizes 1)) :
    forall n, InMessage env typ s (streamAt env (s.message typ ++ rest) sizes (n + 1)) ∨
      Delivered typ s (streamAt env (s.message typ ++ rest) sizes (n + 1)) := by
  intro n
  induction n with
  | zero => exact Or.inl hfirst
  | succ n ih =>
      rcases ih with hin | ⟨res, hend, hres⟩
      · have hnext := taken_le_of_returns h (n + 2)
        rcases streamPass_takes rest hin hsize (hsome (n + 1)) with
          ⟨_, _, _, _, _, xs, _, _, _, _, _, hiff, hpass⟩
        rw [streamAt, hpass] at hnext
        exact (streamPass_inMessage hin hfit hsize hunit hclear (hsome (n + 1))
          (hiff.mp hnext)).right
      · exact Or.inr ⟨res, streamAt_returned hend 1, hres⟩

theorem returns_of_inMessage (hfit : s.value.CountsFit)
    (hsize : (s.message typ).length < 2 ^ 31) (hunit : s.value.unit <= env.storage.length)
    (hclear : env.clrInterest = .ok ()) (hsome : forall n, 0 < sizes n)
    (hspares : forall n,
      Spares typ s rest (streamAt env (s.message typ ++ rest) sizes n) (sizes n)) :
    forall left n, InMessage env typ s (streamAt env (s.message typ ++ rest) sizes n) ->
      (s.message typ).length <=
        (streamAt env (s.message typ ++ rest) sizes n).2 + left ->
      ReturnsMessage env typ s rest sizes := by
  intro left
  induction left with
  | zero =>
      intro n hin hle
      rcases hin with ⟨_, _, _, _, _, _, h⟩
      exact absurd h.early (Nat.not_lt.mpr hle)
  | succ left ih =>
      intro n hin hle
      rcases streamPass_inMessage hin hfit hsize hunit hclear (hsome n) (hspares n) with
        ⟨hmoved, hin' | hdone⟩
      · refine ih (n + 1) hin' ?_
        rw [streamAt]
        omega
      · exact ⟨n + 1, hdone⟩

/--
With the header in one piece the message is returned, and nothing behind it is taken,
exactly when every pass spares what follows it.
-/
theorem kdbReadMessage_exact (env : ReadMessageEnv) (typ : KdbMsgType) (s : Spelling)
    (rest : List UInt8) (sizes : Nat -> Nat)
    (hsize : (s.message typ).length < 2 ^ 31) (hunit : s.value.unit <= env.storage.length)
    (hadd : env.addInterest = .ok ()) (hclear : env.clrInterest = .ok ())
    (hsome : forall n, 0 < sizes n) (hwhole : 8 <= sizes 0) :
    ReturnsMessage env typ s rest sizes <-> forall n,
      Spares typ s rest (streamAt env (s.message typ ++ rest) sizes n) (sizes n) := by
  have hfit : s.value.CountsFit := by
    rw [Spelling.message_length] at hsize
    exact s.countsFit_of_length_lt (by omega)
  have hfirst : InMessage env typ s (streamAt env (s.message typ ++ rest) sizes 1) :=
    streamPass_header hfit hsize hadd hwhole
  constructor
  · intro h n
    cases n with
    | zero =>
        rw [streamAt, kdbReadMessage, hadd]
        trivial
    | succ n =>
        rcases inMessage_of_returns hfit hsize hunit hclear hsome h hfirst n with
          hin | ⟨res, hend, _⟩
        · have hnext := taken_le_of_returns h (n + 2)
          rcases streamPass_takes rest hin hsize (hsome (n + 1)) with
            ⟨_, _, _, _, _, xs, _, _, _, _, _, hiff, hpass⟩
          rw [streamAt, hpass] at hnext
          exact hiff.mp hnext
        · rw [hend]
          trivial
  · intro hspares
    exact returns_of_inMessage hfit hsize hunit hclear hsome hspares
      (s.message typ).length 1 hfirst (Nat.le_add_left _ _)

end Pass

/-- Two responses in a row: the header of the first one, its payload, and the second one. -/
theorem kdbReadMessage_exact_pieces :
    ReturnsMessage smallEnv .response (.atom .long 7)
      ((Spelling.atom .int 1).message .response) (fun n => if n = 0 then 8 else 9) := by
  refine (kdbReadMessage_exact smallEnv .response (.atom .long 7)
    ((Spelling.atom .int 1).message .response) (fun n => if n = 0 then 8 else 9) (by decide)
    (by decide) rfl rfl (fun n => ?_) (Nat.le_refl 8)).mpr fun n => ?_
  · split <;> decide
  rcases n with _ | _ | n
  · trivial
  · exact Or.inl rfl
  · have hend : streamAt smallEnv ((Spelling.atom .long 7).message .response ++
        (Spelling.atom .int 1).message .response) (fun n => if n = 0 then 8 else 9) 2 =
          (.returned (.ok ⟨.ok, 2, some (.atom .long 7)⟩), 17) := by
      rfl
    have hstay := streamAt_returned hend n
    rw [Nat.add_comm 2 n] at hstay
    rw [hstay]
    trivial

theorem streamAt_starved {env : ReadMessageEnv} {stream : List UInt8} {sizes : Nat -> Nat}
    {n : Nat} (h : Starved env (streamAt env stream sizes n).1) (k : Nat) :
    Starved env (streamAt env stream sizes (n + k)).1 := by
  induction k with
  | zero => exact h
  | succ k ih => exact (readPass_starved ih _).right

/--
The first payload read brings five bytes, of which the reader leaves four, and the second one
takes four bytes of the next message; or the first read brings a half of the header.
-/
theorem kdbReadMessage_exact_reaches :
    ¬ ReturnsMessage smallEnv .response (.atom .long 7)
        ((Spelling.atom .int 1).message .response) (fun n => if n = 1 then 5 else 8) ∧
      ¬ ReturnsMessage smallEnv .response (.atom .long 7) []
        (fun n => if n = 0 then 4 else 8) := by
  constructor
  · intro h
    exact absurd (taken_le_of_returns h 3) (by decide)
  · rintro ⟨n, res, hend, _⟩
    -- the second half, behind which the first four bytes of the payload stand
    have hsecond : (streamAt smallEnv ((Spelling.atom .long 7).message .response ++ [])
        (fun n => if n = 0 then 4 else 8) 2).1 =
          headerRead smallEnv ([17, 0, 0, 0, 249, 7, 0, 0] ++ List.replicate 8 0) := by
      rfl
    have hstarved : Starved smallEnv (streamAt smallEnv
        ((Spelling.atom .long 7).message .response ++ []) (fun n => if n = 0 then 4 else 8)
          2).1 := by
      rw [hsecond]
      exact headerRead_starved (by decide) (Or.inl (by decide))
    rcases n with _ | _ | n
    · cases hend
    · cases hend
    · have hstill := streamAt_starved hstarved n
      rw [Nat.add_comm 2 n, hend] at hstill
      exact hstill

end MgKdb
