import MgKdb.Reader.Header
import MgKdb.Tpmux.ReadMessage

/-!
# Progress of `kdb_read_message`

A pass gets somewhere if there is something to read and room for it.  Otherwise it reads
nothing and comes back to the same place: after a header that is refused or compressed the
coroutine reads zero bytes at a time for ever.
-/

namespace MgKdb

/-- There is something to read and room for it. -/
def CanRead (co : ReadCo) (turn : SocketTurn) : Prop :=
  turn.offer ≠ .ended ∧
    match co with
    | .body mem off _ rdr _ => off < mem.length ∧ rdr.getInputBytesRemaining ≠ 0
    | _ => True

namespace ReadCo

def Looping : ReadCo -> Prop
  | header _ _ => True
  | body _ _ _ _ _ => True
  | _ => False

/-- The retries that the payload loop has counted since it last read. -/
def retries : ReadCo -> Nat
  | body _ _ numNfrs _ _ => numNfrs
  | _ => 0

theorem requested_pos {co : ReadCo} {turn : SocketTurn} (hloop : co.Looping)
    (hcan : CanRead co turn) : 0 < co.requested := by
  cases co with
  | header mem tot => exact Nat.zero_lt_succ 7
  | body mem off numNfrs rdr res =>
      rcases hcan.right with ⟨hroom, hmore⟩
      exact Nat.lt_min.mpr ⟨Nat.sub_pos_of_lt hroom, Nat.pos_of_ne_zero hmore⟩
  | returned out => exact hloop.elim
  | trapped => exact hloop.elim

theorem answer_cases {co : ReadCo} {turn : SocketTurn} (hpos : 0 < co.requested)
    (hopen : turn.offer ≠ .ended) :
    (exists b xs, co.answer turn = .ok (b :: xs)) ∨
      (exists e, turn.offer = .refused e ∧ co.answer turn = .error e) := by
  unfold answer ioRead
  rw [if_neg (Nat.ne_of_gt hpos)]
  rcases hoffer : turn.offer with ⟨b, more⟩ | _ | e
  · left
    refine ⟨b, more.take (co.requested - 1), ?_⟩
    rw [← Nat.succ_pred_eq_of_pos hpos]
    rfl
  · exact absurd hoffer hopen
  · exact Or.inr ⟨e, rfl, rfl⟩

end ReadCo

section Run

variable {env : ReadMessageEnv} {co : ReadCo} {turn : SocketTurn}

/--
What a pass without a new byte comes to: the coroutine has returned or suspended, unless
the read was interrupted.
-/
theorem readPass_refused (env : ReadMessageEnv) {e : Int} (hloop : co.Looping)
    (hans : co.answer turn = .error e) :
    Progresses env co turn ∨
      (e = eintr ∧ co.retries < 3 ∧
        (readPass env co turn).Looping ∧
        (readPass env co turn).retries = co.retries + 1) := by
  cases co with
  | header mem tot => exact Or.inl (Or.inr (Or.inr (readPass_header_error env hans)))
  | body mem off numNfrs rdr res =>
      have hpass := readPass_body_error env hans
      rcases bodyRefused_cases mem off numNfrs rdr res turn.revts e with
        ⟨out, hout⟩ | ⟨hagain | hintr, hfew, hnext⟩
      · exact Or.inl (Or.inr (Or.inr ⟨out, hpass.trans hout⟩))
      · rw [hagain] at hans
        exact Or.inl (Or.inr (Or.inl ⟨hans, hfew⟩))
      · rw [hpass, hnext]
        exact Or.inr ⟨hintr, hfew, trivial, rfl⟩
  | returned out => exact hloop.elim
  | trapped => exact hloop.elim

theorem readPass_progresses (env : ReadMessageEnv) (hloop : co.Looping) (hcan : CanRead co turn) :
    Progresses env co turn ∨
      (turn.offer = .refused eintr ∧ co.retries < 3 ∧
        (readPass env co turn).Looping ∧
        (readPass env co turn).retries = co.retries + 1) := by
  rcases ReadCo.answer_cases (ReadCo.requested_pos hloop hcan) hcan.left with
    hread | ⟨e, hoffer, hans⟩
  · exact Or.inl (Or.inl hread)
  · rcases readPass_refused env hloop hans with hprog | ⟨rfl, hrest⟩
    · exact Or.inl hprog
    · exact Or.inr ⟨hoffer, hrest⟩

theorem readCoAt_progresses {turns : Nat -> SocketTurn}
    (hcan : forall n, (readCoAt env turns n).Looping ->
      CanRead (readCoAt env turns n) (turns n)) :
    forall left n, (readCoAt env turns n).Looping ->
      3 <= (readCoAt env turns n).retries + left ->
        exists m, n <= m ∧ m <= n + left ∧ (readCoAt env turns m).Looping ∧
          Progresses env (readCoAt env turns m) (turns m) := by
  intro left
  induction left with
  | zero =>
      intro n hloop hlimit
      rcases readPass_progresses env hloop (hcan n hloop) with
        hprog | ⟨_, hfew, _⟩
      · exact ⟨n, Nat.le_refl n, Nat.le_refl n, hloop, hprog⟩
      · omega
  | succ left ih =>
      intro n hloop hlimit
      rcases readPass_progresses env hloop (hcan n hloop) with
        hprog | ⟨_, hfew, hnext, hcount⟩
      · exact ⟨n, Nat.le_refl n, Nat.le_add_right n _, hloop, hprog⟩
      · have hlimit' : 3 <= (readCoAt env turns (n + 1)).retries + left := by
          rw [readCoAt, hcount]
          omega
        rcases ih (n + 1) hnext hlimit' with ⟨m, hle, hge, hloop', hprog⟩
        exact ⟨m, by omega, by omega, hloop', hprog⟩

/--
As long as every pass can read, each one that is not interrupted gets somewhere, and of any
four in a row at least one does.
-/
theorem progresses_of_canRead (env : ReadMessageEnv) (turns : Nat -> SocketTurn)
    (hcan : forall n, (readCoAt env turns n).Looping ->
      CanRead (readCoAt env turns n) (turns n))
    (n : Nat) (hloop : (readCoAt env turns n).Looping) :
    ((turns n).offer ≠ .refused eintr ->
        Progresses env (readCoAt env turns n) (turns n)) ∧
      (exists m, n <= m ∧ m <= n + 3 ∧ (readCoAt env turns m).Looping ∧
        Progresses env (readCoAt env turns m) (turns m)) := by
  constructor
  · intro hsteady
    rcases readPass_progresses env hloop (hcan n hloop) with hprog | ⟨hintr, _⟩
    · exact hprog
    · exact absurd hintr hsteady
  · exact readCoAt_progresses hcan 3 n hloop (Nat.le_add_left 3 _)

end Run

def smallEnv : ReadMessageEnv where
  addInterest := .ok ()
  clrInterest := .ok ()
  canAlloc := fun _ => true
  storage := List.replicate 16 0
  reserved := Nat.le_add_left 8 8

section Starved

variable {env : ReadMessageEnv} {co : ReadCo} {turn : SocketTurn}

/-!
## Passes that get nowhere
-/

def Sated (env : ReadMessageEnv) (rdr : KdbIpcMessageReader) : Prop :=
  rdr.getInputBytesRemaining = 0 ∧
    forall res, rdr.readMsg env.canAlloc [] res =
      ((false, { res with result := .incomplete }), rdr)

/-- The payload loop with an empty buffer and a reader that asks for nothing. -/
def Starved (env : ReadMessageEnv) : ReadCo -> Prop
  | .body _ off _ rdr _ => off = 0 ∧ Sated env rdr
  | _ => False

theorem place_nil (mem : List UInt8) (off : Nat) : place mem off [] = mem := by
  rw [place, List.append_nil, List.length_nil, Nat.add_zero, List.take_append_drop]

theorem starved_looping (h : Starved env co) : co.Looping := by
  cases co with
  | body mem off numNfrs rdr res => trivial
  | header mem tot => exact h.elim
  | returned out => exact h.elim
  | trapped => exact h.elim

theorem readPass_starved (h : Starved env co) (turn : SocketTurn) :
    ¬ Progresses env co turn ∧ Starved env (readPass env co turn) := by
  cases co with
  | header mem tot => exact h.elim
  | returned out => exact h.elim
  | trapped => exact h.elim
  | body mem off numNfrs rdr res =>
      rcases h with ⟨rfl, hnone, hread⟩
      have hans : (ReadCo.body mem 0 numNfrs rdr res).answer turn = .ok [] := by
        refine ReadCo.answer_of_requested ?_ turn
        rw [ReadCo.requested, hnone, Nat.min_zero]
      have hpass : readPass env (.body mem 0 numNfrs rdr res) turn =
          .body mem 0 0 rdr { res with result := .incomplete } := by
        rw [readPass_body_ok env hans, place_nil, List.length_nil, Nat.add_zero,
          List.take_zero, hread, offered]
        simp only [Bool.false_eq_true, if_false, sub_self, Nat.cast_zero]
        exact congrArg (ReadCo.body · 0 0 rdr _) (place_nil mem 0)
      rw [hpass]
      refine ⟨?_, rfl, hnone, hread⟩
      rintro (⟨b, xs, hok⟩ | ⟨hagain, _⟩ | ⟨out, hout⟩)
      · rw [hans] at hok
        cases hok
      · rw [hans] at hagain
        cases hagain
      · rw [hpass] at hout
        cases hout

theorem readCoAt_starved {turns : Nat -> SocketTurn} {n : Nat}
    (h : Starved env (readCoAt env turns n)) : forall k,
      Starved env (readCoAt env turns (n + k)) := by
  intro k
  induction k with
  | zero => exact h
  | succ k ih => exact (readPass_starved ih _).right

theorem sated_of_idle {rdr : KdbIpcMessageReader} (hipc : rdr.ipcLen = 0)
    (hused : rdr.bytUsd = 0) : Sated env rdr := by
  refine ⟨?_, ?_⟩
  · rw [KdbIpcMessageReader.getInputBytesRemaining, hipc, hused]
    rfl
  · intro res
    have hshort : (ReadBuf.new [] (-rdr.bytUsd)).remaining < 8 := Nat.zero_lt_succ 7
    rw [KdbIpcMessageReader.readMsg, KdbIpcMessageReader.readMsgHdr_short res hipc hshort]
    rfl

theorem readMsgBody_bare {rdr : KdbIpcMessageReader} (hplain : rdr.compressed = false)
    (hmsg : rdr.msg = none) {b : ReadBuf} (hcsr : 0 <= b.csr) (hempty : b.remaining = 0)
    (res : ReadMsgResult) :
    rdr.readMsgBody b res = ((false, { res with result := .incomplete }), rdr) := by
  have hnew : newInstance b = (.error .incomplete, b) := by
    rw [newInstance, ReadBuf.cursorActive_of_nonneg hcsr, if_pos rfl,
      if_pos (by rw [ReadBuf.canRead_eq]; omega)]
  rw [KdbIpcMessageReader.readMsgBody, if_pos hplain, KdbIpcMessageReader.readMsgData,
    KdbIpcMessageReader.readMsgData1, hmsg, KdbIpcMessageReader.allocMsg]
  simp only [hnew]
  rw [Nat.sub_self]
  rfl

theorem sated_of_bare {rdr : KdbIpcMessageReader} (hipc : rdr.ipcLen = 8)
    (hused : rdr.bytUsd = 8) (hplain : rdr.compressed = false) (hmsg : rdr.msg = none) :
    Sated env rdr := by
  refine ⟨?_, ?_⟩
  · rw [KdbIpcMessageReader.getInputBytesRemaining, hipc, hused]
    rfl
  · intro res
    have hne : rdr.ipcLen ≠ 0 := by omega
    have hcsr : 0 <= ((ReadBuf.new [] (-rdr.bytUsd)).ffwd 8).csr := by
      rw [ReadBuf.ffwd_csr, ReadBuf.new, hused]
      decide
    rw [KdbIpcMessageReader.readMsg, KdbIpcMessageReader.readMsgHdr_again_eq hne, hplain]
    simp only [Bool.true_eq_false, Bool.false_eq_true, if_false]
    exact readMsgBody_bare hplain hmsg hcsr rfl res

/-- A header that the reader refuses, that says compressed, or that stands for itself. -/
def BadHeader (hdr : List UInt8) : Prop :=
  hdr.headD 0 ≠ 1 ∨ (hdr.drop 2).headD 0 = 1 ∨ u64 (i32At (hdr.drop 4)) = 8

theorem readMsg_badHeader (env : ReadMessageEnv) {hdr : List UInt8} (hlen : hdr.length = 8)
    (hbad : BadHeader hdr) (res : ReadMsgResult) :
    exists reply rdr, KdbIpcMessageReader.readMsg env.canAlloc .new hdr res = (reply, rdr) ∧
      reply.1 = false ∧ (forall why, reply.2.result ≠ .trap why) ∧ Sated env rdr := by
  have hrem : (ReadBuf.new hdr 0).remaining = 8 := hlen
  have hstep := KdbIpcMessageReader.readMsgHdr_step env.canAlloc .new
    (ReadBuf.new hdr 0) res
  have hread : KdbIpcMessageReader.readMsg env.canAlloc .new hdr res =
      if (KdbIpcMessageReader.readMsgHdr env.canAlloc .new (.new hdr 0) res).1.1 = false then
        ((KdbIpcMessageReader.readMsgHdr env.canAlloc .new (.new hdr 0) res).1,
          (KdbIpcMessageReader.readMsgHdr env.canAlloc .new (.new hdr 0) res).2.1)
      else KdbIpcMessageReader.readMsgBody
        (KdbIpcMessageReader.readMsgHdr env.canAlloc .new (.new hdr 0) res).2.1
        (KdbIpcMessageReader.readMsgHdr env.canAlloc .new (.new hdr 0) res).2.2
        (KdbIpcMessageReader.readMsgHdr env.canAlloc .new (.new hdr 0) res).1.2 := rfl
  generalize KdbIpcMessageReader.readMsgHdr env.canAlloc .new (.new hdr 0) res = out
    at hstep hread
  rw [hread]
  cases hstep with
  | again hne => exact absurd rfl hne
  | short _ hshort => omega
  | refused _ hlong => omega
  | compressed _ hlong => omega
  | endian => exact ⟨_, _, if_pos rfl, rfl, by simp, sated_of_idle rfl rfl⟩
  | cut => exact ⟨_, _, if_pos rfl, rfl, by simp, sated_of_idle rfl rfl⟩
  | plain _ _ hend hcomp =>
      have hipc : (ReadBuf.new hdr 0).hdrIpcLen = 8 := by
        rcases hbad with hne | heq | heq
        · exact absurd hend hne
        · exact absurd heq hcomp
        · exact heq
      have hempty : ((ReadBuf.new hdr 0).adj 8).remaining = 0 := by
        rw [ReadBuf.adj_remaining, hrem]
      have hcsr : 0 <= ((ReadBuf.new hdr 0).adj 8).csr := by
        simp [ReadBuf.new]
      refine ⟨_, _, (if_neg (by simp)).trans
        (readMsgBody_bare rfl rfl hcsr hempty _), rfl, by simp, ?_⟩
      exact sated_of_bare hipc rfl rfl rfl

theorem headerRead_starved {mem : List UInt8} (hlen : 8 <= mem.length)
    (hbad : BadHeader (mem.take 8)) : Starved env (headerRead env mem) := by
  have htake : (mem.take 8).length = 8 := by
    rw [List.length_take]
    omega
  rcases readMsg_badHeader env htake hbad KdbIpcMessageReader.unset with
    ⟨reply, rdr, hread, hfalse, htrap, hsated⟩
  rw [headerRead, hread]
  simp only [hfalse]
  cases hres : reply.2.result with
  | trap why => exact absurd hres (htrap why)
  | _ => exact ⟨rfl, hsated⟩

theorem place_front {mem xs : List UInt8} (h : xs.length <= mem.length) :
    (place mem 0 xs).length = mem.length ∧ (place mem 0 xs).take xs.length = xs := by
  rw [place, List.take_zero, List.nil_append, Nat.zero_add]
  refine ⟨?_, List.take_left⟩
  rw [List.length_append, List.length_drop]
  omega

theorem readCoAt_badHeader {turns : Nat -> SocketTurn} {hdr : List UInt8}
    (hadd : env.addInterest = .ok ()) (hsignal : epollErr &&& (turns 0).revts = 0)
    (hread : (ReadCo.header env.storage 0).answer (turns 0) = .ok hdr)
    (hlen : hdr.length = 8) (hbad : BadHeader hdr) (n : Nat) :
    (readCoAt env turns (n + 1)).Looping ∧
      ¬ Progresses env (readCoAt env turns (n + 1)) (turns (n + 1)) := by
  have hroom : hdr.length <= env.storage.length := by
    rw [hlen]
    exact env.reserved
  rcases place_front hroom with ⟨hsize, hfront⟩
  have hfirst : readCoAt env turns 1 = headerRead env (place env.storage 0 hdr) := by
    rw [readCoAt, readCoAt, kdbReadMessage, hadd]
    exact (readPass_header_ok env hread hsignal).trans (if_neg (by omega))
  have hstarved : Starved env (readCoAt env turns 1) := by
    rw [hfirst]
    refine headerRead_starved (by rw [hsize]; exact env.reserved) ?_
    rw [← hlen, hfront]
    exact hbad
  have hall := readCoAt_starved hstarved n
  rw [Nat.add_comm 1 n] at hall
  exact ⟨starved_looping hall, (readPass_starved hall _).left⟩

end Starved

def repeating (b : UInt8) (more : List UInt8) : Nat -> SocketTurn :=
  fun _ => ⟨1, .arrived b more⟩

/-- After a compressed message's header the loop reads nothing for ever. -/
theorem kdbReadMessage_progress_compressed :
    ¬ forall (env : ReadMessageEnv) (turns : Nat -> SocketTurn) (n : Nat),
      (readCoAt env turns n).Looping ->
        exists m, n <= m ∧ ((readCoAt env turns m).Looping ->
          Progresses env (readCoAt env turns m) (turns m)) := by
  intro hclaim
  have hbad := @readCoAt_badHeader smallEnv (repeating 1 [2, 1, 0, 34, 0, 0, 0])
    [1, 2, 1, 0, 34, 0, 0, 0] rfl rfl rfl rfl (Or.inr (Or.inl rfl))
  rcases hclaim smallEnv (repeating 1 [2, 1, 0, 34, 0, 0, 0]) 1 (hbad 0).left with
    ⟨m, hle, hprog⟩
  have hm := hbad (m - 1)
  rw [Nat.sub_add_cancel hle] at hm
  exact hm.right (hprog hm.left)

end MgKdb
