import MgKdb.Foundation.Framing
import MgKdb.Tpmux.RecvTcpMsgs

/-!
# A stream of messages

A tickerplant sends whole messages, but they arrive in pieces.  As long as a piece ends
where a message ends all is well.  A part of a message at the end of a piece is taken
for a parse error, and the socket is closed.
-/

namespace MgKdb

open Foundation

structure TpMsg where
  typ : UInt8
  spare : UInt8
  payload : Outline
  countFits : payload.CountFits
  /-- The length fits the field of the header. -/
  short : 8 + payload.bytes.length < 2 ^ 31

namespace TpMsg

def bytes (m : TpMsg) : List UInt8 :=
  [1, m.typ, 0, m.spare] ++ leBytes 4 (8 + m.payload.bytes.length) ++ m.payload.bytes

theorem bytes_length (m : TpMsg) : m.bytes.length = 8 + m.payload.bytes.length := by
  rw [bytes, List.length_append, List.length_append, leBytes_length]
  rfl

theorem drop_hdr (m : TpMsg) (rest : List UInt8) :
    (m.bytes ++ rest).drop 8 = m.payload.bytes ++ rest := by
  rw [bytes, List.append_assoc]
  exact List.drop_left' (by simp)

def included (tbl_names : List (List UInt8)) (m : TpMsg) : Bool :=
  m.payload.isUpd updName tbl_names

def payloads (tbl_names : List (List UInt8)) (ms : List TpMsg) : List (List UInt8) :=
  (ms.filter (included tbl_names)).map (fun m => m.payload.bytes)

end TpMsg

def TpMsgCounts.after (tbl_names : List (List UInt8)) (counts : TpMsgCounts)
    (ms : List TpMsg) : TpMsgCounts where
  numMsgTotal := counts.numMsgTotal + UInt32.ofNat ms.length
  numMsgIncluded :=
    counts.numMsgIncluded + UInt32.ofNat (TpMsg.payloads tbl_names ms).length

section Filter

variable {tbl_names : List (List UInt8)}

theorem filterMsg_whole (m : TpMsg) (rest : List UInt8) :
    filterMsg (m.bytes ++ rest) updName tbl_names =
      some (if m.included tbl_names then (m.bytes.length : Int) else -m.bytes.length) := by
  have hshort := m.short
  have hlen := m.bytes_length
  have hfield : i32At ((m.bytes ++ rest).drop 4) = m.bytes.length := by
    have hpre : (m.bytes ++ rest).drop 4 <+:
        leBytes 4 (8 + m.payload.bytes.length) ++ (m.payload.bytes ++ rest) := by
      rw [TpMsg.bytes]
      simp
    rw [i32At_of_front (by rw [List.length_drop, List.length_append]; omega) hpre,
      i32_of_lt hshort, hlen]
  have hcomplete : Complete (m.bytes ++ rest) := by
    refine ⟨?_, rfl, ?_, ?_⟩
    · rw [List.length_append]
      omega
    · rw [msgLen, hfield]
      omega
    · rw [msgLen, hfield, List.length_append]
      omega
  have hsub : u64 (msgLen (m.bytes ++ rest) - 8) = m.payload.bytes.length := by
    rw [msgLen, hfield, hlen]
    unfold u64
    omega
  rw [filterMsg_complete hcomplete, hsub, m.drop_hdr,
    filterUpdMsg_outline m.payload m.countFits (by omega), Option.map_some, TpMsg.included]
  cases m.payload.isUpd updName tbl_names
  · have hpos := m.payload.bytes_pos
    simp only [Bool.false_eq_true, if_false]
    rw [if_pos (by omega), show -(m.payload.bytes.length : Int) - 8 = -m.bytes.length by
      omega]
  · simp only [if_true]
    rw [if_neg (by omega), show (m.payload.bytes.length : Int) + 8 = m.bytes.length by
      omega]

theorem filterMsg_part (m : TpMsg) {part : List UInt8} (hpre : part <+: m.bytes)
    (hpart : part.length < m.bytes.length) :
    filterMsg part updName tbl_names = some (-1) := by
  have hshort := m.short
  have hlen := m.bytes_length
  by_cases h8 : part.length < 8
  · exact if_pos h8
  · have hhead : part.headD 0 = 1 := by
      rcases hpre with ⟨tail, htail⟩
      cases part with
      | nil => simp at h8
      | cons b part =>
          rw [TpMsg.bytes] at htail
          exact (List.cons.inj htail).left
    have hfield : i32At (part.drop 4) = m.bytes.length := by
      have hdrop : part.drop 4 <+:
          leBytes 4 (8 + m.payload.bytes.length) ++ m.payload.bytes := by
        have h := hpre.drop 4
        rw [TpMsg.bytes, List.append_assoc] at h
        exact h
      rw [i32At_of_front (by rw [List.length_drop]; omega) hdrop, i32_of_lt hshort, hlen]
    rw [filterMsg, if_neg h8, if_neg (by simpa using hhead), hfield, if_neg (by omega),
      if_pos (by omega)]

/-!
## One piece
-/

theorem payloads_append (xs ys : List TpMsg) : TpMsg.payloads tbl_names (xs ++ ys) =
    TpMsg.payloads tbl_names xs ++ TpMsg.payloads tbl_names ys := by
  rw [TpMsg.payloads, List.filter_append, List.map_append]
  rfl

theorem after_nil (counts : TpMsgCounts) : counts.after tbl_names [] = counts := by
  simp [TpMsgCounts.after, TpMsg.payloads]

theorem after_append (counts : TpMsgCounts) (xs ys : List TpMsg) :
    counts.after tbl_names (xs ++ ys) =
      (counts.after tbl_names xs).after tbl_names ys := by
  simp only [TpMsgCounts.after, payloads_append, List.length_append, UInt32.ofNat_add,
    UInt32.add_assoc]

theorem recvTurn_whole {st : RecvState} (m : TpMsg) {rest : List UInt8}
    (h : st.unread = m.bytes ++ rest) :
    exists written, recvTurn tbl_names st =
        .next { st with
          rdOff := st.rdOff + m.bytes.length
          counts := st.counts.after tbl_names [m] } written ∧
      written.toList = TpMsg.payloads tbl_names [m] := by
  have hlen := m.bytes_length
  rw [recvTurn, h, filterMsg_whole]
  simp only
  cases hmatch : m.included tbl_names with
  | false =>
      have hnone : TpMsg.payloads tbl_names [m] = [] := by
        simp [TpMsg.payloads, hmatch]
      refine ⟨none, ?_, hnone.symm⟩
      simp only [takeMsg, Bool.false_eq_true, if_false, TpMsgCounts.after, hnone]
      rw [if_neg (by omega), if_pos (by omega)]
      simp
  | true =>
      have hone : TpMsg.payloads tbl_names [m] = [m.payload.bytes] := by
        simp [TpMsg.payloads, hmatch]
      have hpayload : (st.unread.drop 8).take ((m.bytes.length : Int) - 8).toNat =
          m.payload.bytes := by
        rw [h, m.drop_hdr,
          show ((m.bytes.length : Int) - 8).toNat = m.payload.bytes.length by omega,
          List.take_left]
      refine ⟨some m.payload.bytes, ?_, hone.symm⟩
      simp only [takeMsg, if_true, TpMsgCounts.after, hone]
      rw [if_pos (by omega), if_neg (by rw [h, List.length_append]; omega), hpayload]
      simp

theorem msgLoop_stream (ms : List TpMsg) {part : List UInt8}
    (hpart : part = [] ∨ exists m : TpMsg, part <+: m.bytes ∧
      part.length < m.bytes.length) :
    forall (n : Nat) (st : RecvState), st.rdOff <= st.wrOff ->
      st.unread = ms.flatMap TpMsg.bytes ++ part -> st.unread.length < n ->
      msgLoop tbl_names n st =
        (TpMsg.payloads tbl_names ms,
          { st with
            rdOff := st.rdOff + (ms.flatMap TpMsg.bytes).length
            counts := st.counts.after tbl_names ms },
          if part = [] then none else some .closed) := by
  induction ms with
  | nil =>
      intro n st hoff hunread hn
      cases n with
      | zero => omega
      | succ n =>
          have hlen : st.unread.length = st.wrOff - st.rdOff := List.length_drop
          rw [List.flatMap_nil, List.nil_append] at hunread
          rw [msgLoop, after_nil, List.flatMap_nil]
          by_cases hnil : part = []
          · rw [hunread, hnil, List.length_nil] at hlen
            rw [if_pos (by omega), if_pos hnil]
            rfl
          · rcases hpart with hnil' | ⟨m, hpre, hlt⟩
            · exact absurd hnil' hnil
            have hpos : 0 < part.length := List.length_pos_of_ne_nil hnil
            rw [hunread] at hlen
            have hturn : recvTurn tbl_names st = .stop .closed := by
              rw [recvTurn, hunread, filterMsg_part m hpre hlt]
              rfl
            rw [if_neg (by omega), if_neg (by omega), hturn, if_neg hnil]
            rfl
  | cons m ms ih =>
      intro n st hoff hunread hn
      cases n with
      | zero => omega
      | succ n =>
          rw [List.flatMap_cons, List.append_assoc] at hunread
          have hlen : st.unread.length = st.wrOff - st.rdOff := List.length_drop
          have hm := m.bytes_length
          have hlong : m.bytes.length <= st.unread.length := by
            rw [hunread, List.length_append]
            omega
          rcases recvTurn_whole m hunread with ⟨written, hturn, hwritten⟩
          obtain ⟨st', hst'⟩ : exists st' : RecvState, st' = { st with
              rdOff := st.rdOff + m.bytes.length
              counts := st.counts.after tbl_names [m] } := ⟨_, rfl⟩
          have hunread' : st'.unread = ms.flatMap TpMsg.bytes ++ part := by
            rw [hst', RecvState.unread, ← List.drop_drop, ← RecvState.unread, hunread,
              List.drop_left]
          have hwr : st'.wrOff = st.wrOff := by rw [hst']; rfl
          have hrd : st'.rdOff = st.rdOff + m.bytes.length := by rw [hst']
          have hlen' : st'.unread.length = st'.wrOff - st'.rdOff := List.length_drop
          have hloop := ih n st' (by omega) hunread' (by omega)
          rw [msgLoop, if_neg (by omega), if_neg (by omega), hturn, ← hst']
          simp only
          rw [hloop, hwritten, ← payloads_append, List.singleton_append, hst']
          simp only [← after_append, List.singleton_append, List.flatMap_cons,
            List.length_append, Nat.add_assoc]

theorem exists_tpMsg_part {ms : List TpMsg} {piece : List UInt8}
    (hpre : piece <+: ms.flatMap TpMsg.bytes) :
    exists part, piece =
        (whole TpMsg.bytes ms piece.length).flatMap TpMsg.bytes ++ part ∧
      (part = [] ∨ exists m : TpMsg, part <+: m.bytes ∧
        part.length < m.bytes.length) := by
  rcases exists_part ms hpre with ⟨part, hpart, hnil | ⟨m, _, _, hm, hlt⟩⟩
  · exact ⟨part, hpart, Or.inl hnil⟩
  · exact ⟨part, hpart, Or.inr ⟨m, hm, hlt⟩⟩

/--
A piece that arrives where a message begins: its whole messages are taken, and if it
does not end with a message the socket is closed.
-/
theorem onEvent_data (counts : TpMsgCounts) {ms : List TpMsg} {piece : List UInt8}
    (hpre : piece <+: ms.flatMap TpMsg.bytes) :
    exists st part,
      piece = (whole TpMsg.bytes ms piece.length).flatMap TpMsg.bytes ++ part ∧
      onEvent tbl_names (recvStart counts) (.data piece) =
        (TpMsg.payloads tbl_names (whole TpMsg.bytes ms piece.length), st,
          if part = [] then none else some .closed) ∧
      st.counts = counts.after tbl_names (whole TpMsg.bytes ms piece.length) ∧
      (part = [] -> st = recvStart
        (counts.after tbl_names (whole TpMsg.bytes ms piece.length))) := by
  rcases exists_tpMsg_part hpre with ⟨part, hpiece, hpart⟩
  obtain ⟨ws, hws⟩ : exists ws, ws = whole TpMsg.bytes ms piece.length := ⟨_, rfl⟩
  rw [← hws] at hpiece ⊢
  have hloop := @msgLoop_stream tbl_names ws part hpart
    ((recvStart counts).unread.length + piece.length + 1)
    { recvStart counts with ary := (recvStart counts).ary ++ piece }
    (Nat.zero_le _) hpiece (by simp [RecvState.unread, recvStart])
  by_cases hnil : part = []
  · rw [if_pos hnil] at hloop
    refine ⟨recvStart (counts.after tbl_names ws), part, hpiece, ?_, rfl, fun _ => rfl⟩
    rw [hnil, List.append_nil] at hpiece
    rw [onEvent, hloop, if_pos hnil]
    simp only [compact, RecvState.wrOff, recvStart, List.nil_append, Nat.zero_add]
    rw [hpiece, if_pos rfl]
  · rw [if_neg hnil] at hloop
    exact ⟨_, part, hpiece, by rw [onEvent, hloop, if_neg hnil], rfl,
      fun h => absurd h hnil⟩

end Filter

/-!
## All pieces
-/

section Stream

variable (tbl_names : List (List UInt8))

/-- What `read` may answer: some bytes, and no more than it was asked for. -/
def Reads : RecvState -> List (List UInt8) -> Prop
  | _, [] => True
  | st, piece :: rest =>
      piece ≠ [] ∧ piece.length <= readRoom st ∧
        ((onEvent tbl_names st (.data piece)).2.2 = none ->
          Reads (onEvent tbl_names st (.data piece)).2.1 rest)

def EndsAtMessages : List TpMsg -> List (List UInt8) -> Prop
  | _, [] => True
  | ms, piece :: rest =>
      exists ws more, ms = ws ++ more ∧ piece = ws.flatMap TpMsg.bytes ∧
        EndsAtMessages more rest

variable {tbl_names}

theorem TpMsg.bytes_pos (m : TpMsg) : 0 < m.bytes.length := by
  have := m.bytes_length
  omega

theorem kdbReadTcpMessages_pieces (pieces : List (List UInt8)) :
    forall {counts : TpMsgCounts} {ms : List TpMsg},
      pieces.flatten = ms.flatMap TpMsg.bytes ->
        ((kdbReadTcpMessages tbl_names (recvStart counts)
            (pieces.map IoEvent.data)).2.2 = none <-> EndsAtMessages ms pieces) ∧
        (EndsAtMessages ms pieces ->
          kdbReadTcpMessages tbl_names (recvStart counts) (pieces.map IoEvent.data) =
            (TpMsg.payloads tbl_names ms, recvStart (counts.after tbl_names ms),
              none)) := by
  induction pieces with
  | nil =>
      intro counts ms hbytes
      have hnil : ms = [] := by
        cases ms with
        | nil => rfl
        | cons m ms =>
            have hpos := m.bytes_pos
            have hlen := congrArg List.length hbytes
            rw [List.flatMap_cons, List.length_append, List.flatten_nil,
              List.length_nil] at hlen
            omega
      refine ⟨⟨fun _ => trivial, fun _ => rfl⟩, fun _ => ?_⟩
      rw [hnil, after_nil]
      rfl
  | cons piece rest ih =>
      intro counts ms hbytes
      rw [List.flatten_cons] at hbytes
      have hpre : piece <+: ms.flatMap TpMsg.bytes := ⟨_, hbytes⟩
      rcases @onEvent_data tbl_names counts ms piece hpre with
        ⟨st, part, hpiece, hevent, _, hst⟩
      rw [List.map_cons, kdbReadTcpMessages, hevent]
      by_cases hnil : part = []
      · rw [hst hnil, if_pos hnil]
        rcases whole_front TpMsg.bytes ms piece.length with ⟨more, hms⟩
        obtain ⟨ws, hws⟩ : exists ws, ws = whole TpMsg.bytes ms piece.length := ⟨_, rfl⟩
        rw [← hws] at hpiece hms ⊢
        rw [hnil, List.append_nil] at hpiece
        have hmore : rest.flatten = more.flatMap TpMsg.bytes := by
          rw [hpiece, ← hms, List.flatMap_append] at hbytes
          exact List.append_cancel_left hbytes
        rcases @ih (counts.after tbl_names ws) more hmore with ⟨hopen, hall⟩
        have hends : EndsAtMessages ms (piece :: rest) <-> EndsAtMessages more rest := by
          constructor
          · rintro ⟨ws', more', hms', hpiece', h⟩
            have hsame : ws = ws' := by
              rw [hws, hms', hpiece', whole_exact TpMsg.bytes_pos]
            rw [← hms, ← hsame] at hms'
            rwa [List.append_cancel_left hms']
          · exact fun h => ⟨ws, more, hms.symm, hpiece, h⟩
        simp only
        rw [hends]
        refine ⟨hopen, fun h => ?_⟩
        rw [hall h, ← payloads_append, ← after_append, hms]
      · have hno : ¬ EndsAtMessages ms (piece :: rest) := by
          rintro ⟨ws', more', hms', hpiece', _⟩
          rw [hms', hpiece', whole_exact TpMsg.bytes_pos] at hpiece
          exact hnil (List.append_cancel_left ((List.append_nil _).trans hpiece)).symm
        rw [if_neg hnil]
        refine ⟨⟨fun h => ?_, fun h => absurd h hno⟩, fun h => absurd h hno⟩
        cases h

structure Received (tbl_names : List (List UInt8)) (counts : TpMsgCounts)
    (ms : List TpMsg) (out : RecvOut) : Prop where
  written : out.1 = TpMsg.payloads tbl_names ms
  stillOpen : out.2.2 = none
  total : out.2.1.counts.numMsgTotal.toNat = counts.numMsgTotal.toNat + ms.length
  included : out.2.1.counts.numMsgIncluded.toNat =
    counts.numMsgIncluded.toNat + (TpMsg.payloads tbl_names ms).length

/--
However a stream of messages is cut, receiving it comes to what it is to come to exactly
when every piece consists of whole messages, and no counter overflows.
-/
theorem kdbReadTcpMessages_stream (tbl_names : List (List UInt8)) (counts : TpMsgCounts)
    (ms : List TpMsg) (pieces : List (List UInt8))
    (hbytes : pieces.flatten = ms.flatMap TpMsg.bytes) :
    Received tbl_names counts ms
        (kdbReadTcpMessages tbl_names (recvStart counts) (pieces.map IoEvent.data)) <->
      EndsAtMessages ms pieces ∧ counts.numMsgTotal.toNat + ms.length < 2 ^ 32 ∧
        counts.numMsgIncluded.toNat + (TpMsg.payloads tbl_names ms).length < 2 ^ 32 := by
  rcases @kdbReadTcpMessages_pieces tbl_names pieces counts ms hbytes with ⟨hopen, hall⟩
  have htotal := toNat_add_ofNat counts.numMsgTotal ms.length
  have hincluded := toNat_add_ofNat counts.numMsgIncluded
    (TpMsg.payloads tbl_names ms).length
  constructor
  · intro h
    have hends := hopen.mp h.stillOpen
    have htot := h.total
    have hinc := h.included
    rw [hall hends] at htot hinc
    exact ⟨hends, htotal.mp htot, hincluded.mp hinc⟩
  · rintro ⟨hends, htot, hinc⟩
    rw [hall hends]
    exact ⟨rfl, rfl, htotal.mpr htot, hincluded.mpr hinc⟩

end Stream

/-- The call `(`upd;`t;7)`. -/
def updOutline : Outline :=
  .list 0 [.symbolAtom ⟨updName, nulFree_updName⟩, .symbolAtom ⟨[116], nulFree_tblName⟩,
    .other KdbType.longAtom.i8 [7, 0, 0, 0, 0, 0, 0, 0] (by decide)]

theorem updOutline_countFits : updOutline.CountFits := by
  rw [updOutline, Outline.CountFits]
  decide

theorem updOutline_short : 8 + updOutline.bytes.length < 2 ^ 31 := by
  decide +kernel

def updMsg : TpMsg where
  typ := KdbMsgType.async.i8
  spare := 0
  payload := updOutline
  countFits := updOutline_countFits
  short := updOutline_short

theorem kdbReadTcpMessages_stream_upd :
    Received [[116]] ⟨0, 0⟩ [updMsg, updMsg]
      (kdbReadTcpMessages [[116]] (recvStart ⟨0, 0⟩)
        ([updMsg.bytes, updMsg.bytes].map IoEvent.data)) :=
  (kdbReadTcpMessages_stream [[116]] ⟨0, 0⟩ [updMsg, updMsg] [updMsg.bytes, updMsg.bytes]
    (by decide +kernel)).mpr
    ⟨⟨[updMsg], [updMsg], rfl, by decide +kernel, [updMsg], [], rfl, by decide +kernel,
      trivial⟩, by decide, by decide +kernel⟩

/-- A message in two pieces: the first one has the socket closed. -/
theorem kdbReadTcpMessages_stream_cut :
    ¬ forall (tbl_names : List (List UInt8)) (counts : TpMsgCounts) (ms : List TpMsg),
      (forall m, m ∈ ms -> m.bytes.length < 64 * 1024) ->
      forall pieces : List (List UInt8), pieces.flatten = ms.flatMap TpMsg.bytes ->
        Reads tbl_names (recvStart counts) pieces ->
        Received tbl_names counts ms
          (kdbReadTcpMessages tbl_names (recvStart counts)
            (pieces.map IoEvent.data)) := by
  intro hclaim
  have hfirst : (onEvent [[116]] (recvStart ⟨0, 0⟩)
      (.data (updMsg.bytes.take 10))).2.2 = some .closed := by decide +kernel
  have hreceived := hclaim [[116]] ⟨0, 0⟩ [updMsg]
    (by
      intro m hm
      rw [List.mem_singleton.mp hm]
      decide +kernel)
    [updMsg.bytes.take 10, updMsg.bytes.drop 10] (by decide +kernel)
    ⟨by decide +kernel, by decide +kernel, fun hopen => by rw [hfirst] at hopen; cases hopen⟩
  have hopen := hreceived.stillOpen
  rw [List.map_cons, kdbReadTcpMessages, hfirst] at hopen
  cases hopen

end MgKdb
