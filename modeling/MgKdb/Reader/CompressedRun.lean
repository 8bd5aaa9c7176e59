import MgKdb.Reader.Compressed

/-!
# Every way of delivering a compressed message

The calls agree with a single call exactly when the root object is not there
before the last one.
-/

namespace MgKdb

open Foundation

namespace KdbIpcMessageReader

variable {canAlloc : Nat -> Bool} {m : CompressedMsg} {r : KdbIpcMessageReader}
  {sf s : KdbIpcDecompressor} {o : KdbBase} {bf : ReadBuf}

/-!
## Before the root object
-/

theorem inflater_of_nil (m : CompressedMsg) :
    m.inflater.uncompress (ReadBuf.new [] 0) = .ok (m.inflater, ReadBuf.new [] 0) := by
  unfold KdbIpcDecompressor.uncompress
  cases m.inflater.msgLen - m.inflater.off with
  | zero => rfl
  | succ n =>
      have hstop : m.inflater.nextBlock (ReadBuf.new [] 0) = none := rfl
      rw [KdbIpcDecompressor.loop, hstop]
      split <;> rfl

theorem not_rootInflated_of_short {got : List UInt8} (hgot : got.length <= 12) :
    ¬ m.RootInflated got := by
  rintro ⟨s, b, o, b1, hinf, hnew⟩
  rw [List.drop_of_length_le hgot, inflater_of_nil] at hinf
  cases hinf
  cases hnew

theorem deliver_early (hone : OneShot canAlloc m sf o bf) :
    forall (pieces : List (ReadMsgResult × List UInt8)) {r : KdbIpcMessageReader}
      {got : List UInt8}, BetweenZ m got.length r ->
      got ++ Consumer.delivered pieces <+: m.bytes ->
      ¬ m.RootInflated (got ++ Consumer.delivered pieces) ->
        (forall reply, reply ∈ ((consumer canAlloc).deliver r got pieces).1 ->
          Pending reply) ∧
        BetweenZ m (got ++ Consumer.delivered pieces).length
          ((consumer canAlloc).deliver r got pieces).2 ∧
        (forall call, call ∈ (consumer canAlloc).calls r got pieces ->
          ResumesExactly canAlloc call) := by
  intro pieces
  induction pieces with
  | nil =>
      intro r got hr _hpre _hroot
      refine ⟨?_, by simpa using hr, ?_⟩
      · intro reply hreply
        cases hreply
      · intro call hcall
        cases hcall
  | cons piece rest ih =>
      intro r got hr hpre hroot
      rw [Consumer.delivered_cons, ← List.append_assoc] at hpre hroot ⊢
      have hgot : got ++ piece.2 <+: m.bytes := (List.prefix_append _ _).trans hpre
      have hwin : got ++ piece.2 = m.bytes.take (got ++ piece.2).length :=
        List.prefix_iff_eq_take.mp hgot
      have hle : got.length <= (got ++ piece.2).length := by simp
      have hearly : ¬ m.RootInflated (m.bytes.take (got ++ piece.2).length) := by
        intro hhere
        apply hroot
        rw [List.prefix_iff_eq_take.mp hpre]
        refine hone.root_mono ?_ hpre.length_le hhere
        simp
      rcases readMsg_early hone hr hle hgot.length_le hearly piece.1 with
        ⟨hpending, hbetween, hresumes⟩
      rw [← hwin] at hpending hbetween hresumes
      rcases ih hbetween hpre hroot with ⟨hpendings, hfinal, hall⟩
      refine ⟨?_, hfinal, ?_⟩
      · intro reply hreply
        rcases List.mem_cons.mp hreply with hhead | htail
        · rw [hhead]
          exact hpending
        · exact hpendings reply htail
      · intro call hcall
        rcases List.mem_cons.mp hcall with hhead | htail
        · rw [hhead]
          exact hresumes
        · exact hall call htail

/-!
## After the root object
-/

theorem Rooted.not_resumes {d n d' : Nat} (hr : Rooted m d n s o r)
    (hone : OneShot canAlloc m sf o bf) (hn : 0 < n) (hd : d <= d')
    (hle : d' <= m.bytes.length) (result : ReadMsgResult) :
    ¬ ResumesExactly canAlloc (r, result, (m.bytes.take d').drop r.bytUsd) := by
  intro hresumes
  have hne : r.ipcLen ≠ 0 := by
    rw [hr.ipcLen]
    omega
  rw [CompressedMsg.bytes_length] at hle
  have hbody : d' - 12 <= m.body.length := by omega
  rcases inflatesTo_front hone.size hbody hone.inflates with ⟨s', hs', _⟩
  rcases readMsgHdr_again canAlloc hone.size hr.compressed hne hr.inflater hr.used
    hr.inflates hd hs' result with ⟨b, j, hhdr, hagain, _, hdst⟩
  have hdez : 0 < r.bytDez := by
    have hahead := (read_shrinks o ((ReadBuf.new s.dst 0).adj n)).right
    rw [ReadBuf.adj_off] at hahead
    rw [hr.dez]
    omega
  have hshown : 0 < s'.dst.length :=
    Nat.lt_of_lt_of_le hn (Nat.le_trans hr.shown hdst.length_le)
  have hsame : s'.dst = s'.dst.drop r.bytDez := by
    refine hresumes ?_ s' (b.adj j) (ReadBuf.new s'.dst r.bytDez) ?_ |>.trans ?_
    · simp only [hhdr]
    · simp only [hhdr]
      exact hagain
    · simp only [hhdr]
  have hlen := congrArg List.length hsame
  rw [List.length_drop] at hlen
  omega

theorem deliver_rooted (hone : OneShot canAlloc m sf o bf)
    (last : ReadMsgResult × List UInt8) :
    forall (pieces : List (ReadMsgResult × List UInt8)) {r : KdbIpcMessageReader}
      {got : List UInt8}, BetweenZ m got.length r -> ¬ m.RootInflated got ->
      got ++ Consumer.delivered pieces ++ last.2 = m.bytes ->
      m.RootInflated (got ++ Consumer.delivered pieces) ->
        exists call, call ∈ (consumer canAlloc).calls r got (pieces ++ [last]) ∧
          ¬ ResumesExactly canAlloc call := by
  rcases readMsg_rooted hone with ⟨n, hn, hrooted⟩
  intro pieces
  induction pieces with
  | nil =>
      intro r got _hr hgot _hbytes hroot
      rw [Consumer.delivered_nil, List.append_nil] at hroot
      exact absurd hroot hgot
  | cons piece rest ih =>
      intro r got hr _hgot hbytes hroot
      rw [Consumer.delivered_cons, ← List.append_assoc] at hbytes hroot
      have hpre : got ++ piece.2 <+: m.bytes := by
        rw [← hbytes, List.append_assoc]
        exact List.prefix_append _ _
      have hwin : got ++ piece.2 = m.bytes.take (got ++ piece.2).length :=
        List.prefix_iff_eq_take.mp hpre
      have hle : got.length <= (got ++ piece.2).length := by simp
      by_cases hhere : m.RootInflated (got ++ piece.2)
      · -- the next call is the one that goes wrong
        have h12 : 12 <= (got ++ piece.2).length := by
          by_contra hshort
          exact not_rootInflated_of_short (by omega) hhere
        have hhere' : m.RootInflated (m.bytes.take (got ++ piece.2).length) := by
          rwa [← hwin]
        rcases hrooted hr hle h12 hpre.length_le hhere' piece.1 with
          ⟨s, result1, hafter, _, _⟩
        rw [← hwin] at hafter
        have hnext : forall next : ReadMsgResult × List UInt8,
            got ++ piece.2 ++ next.2 <+: m.bytes ->
            forall others, exists call, call ∈ (consumer canAlloc).calls r got
              (piece :: next :: others) ∧ ¬ ResumesExactly canAlloc call := by
          intro next hprenext others
          refine ⟨_, List.mem_cons_of_mem _ List.mem_cons_self, ?_⟩
          have hgrow : (got ++ piece.2).length <= (got ++ piece.2 ++ next.2).length :=
            by simp
          have hnot := hafter.not_resumes hone hn hgrow hprenext.length_le next.1
          rw [← List.prefix_iff_eq_take.mp hprenext] at hnot
          exact hnot
        cases rest with
        | nil =>
            refine hnext last ?_ []
            rw [Consumer.delivered_nil, List.append_nil] at hbytes
            rw [hbytes]
        | cons next others =>
            refine hnext next ?_ (others ++ [last])
            rw [← hbytes, Consumer.delivered_cons]
            simp
      · have hearly : ¬ m.RootInflated (m.bytes.take (got ++ piece.2).length) := by
          rwa [← hwin]
        have hbetween :=
          (readMsg_early hone hr hle hpre.length_le hearly piece.1).right.left
        rw [← hwin] at hbetween
        rcases ih hbetween hhere hbytes hroot with ⟨call, hcall, hnot⟩
        exact ⟨call, List.mem_cons_of_mem _ hcall, hnot⟩

/-!
## The whole delivery
-/

def Resuming (canAlloc : Nat -> Bool) (r : KdbIpcMessageReader)
    (pieces : List (ReadMsgResult × List UInt8)) : Prop :=
  forall call, call ∈ (consumer canAlloc).calls r [] pieces ->
    ResumesExactly canAlloc call

theorem rootReply_fst (o : KdbBase) (b : ReadBuf) (result result' : ReadMsgResult) :
    (rootReply o b result).1 = (rootReply o b result').1 := by
  unfold rootReply
  rcases o.read b with ⟨rr, o', b'⟩
  cases rr <;> rfl

theorem rootReply_ok {o : KdbBase} {b : ReadBuf} {result : ReadMsgResult}
    (h : (rootReply o b result).1 = true) :
    (rootReply o b result).2.result = .ok ∧
      (rootReply o b result).2.message = some (o.read b).2.1 := by
  unfold rootReply at h ⊢
  rcases hread : o.read b with ⟨rr, o', b'⟩
  rw [hread] at h
  cases rr
  case ok => exact ⟨rfl, rfl⟩
  all_goals cases h

theorem OneShot.rootInflated (hone : OneShot canAlloc m sf o bf) :
    m.RootInflated m.bytes := by
  have hbody := m.take_drop_hdr m.bytes.length
  rw [List.take_length, m.bytes_length, Nat.add_sub_cancel_left] at hbody
  refine ⟨sf, (ReadBuf.new m.body 0).adj sf.rdx, o, bf, ?_, hone.root⟩
  rw [hbody, List.take_length]
  simpa [InflatesTo] using hone.inflates

/--
A compressed message that a single call reads completely is read in pieces with
the same outcome if and only if the bytes delivered before the last call do not
inflate to the complete header of the root object.
-/
theorem readMsg_compressed_chunked (canAlloc : Nat -> Bool) (m : CompressedMsg)
    (hsize : m.bytes.length < 2 ^ 31) (r : KdbIpcMessageReader)
    (single : ReadMsgResult)
    (hcomplete : (readMsg canAlloc r.reset m.bytes single).1.1 = true)
    (pieces : List (ReadMsgResult × List UInt8)) (last : ReadMsgResult × List UInt8)
    (hdelivered : Consumer.delivered pieces ++ last.2 = m.bytes) :
    (AgreesWith canAlloc r.reset pieces last
        (readMsg canAlloc r.reset m.bytes single) ∧
      Resuming canAlloc r.reset (pieces ++ [last])) <->
      ¬ m.RootInflated (Consumer.delivered pieces) := by
  rcases oneShot_of_complete hsize hcomplete with ⟨sf, o, bf, hone⟩
  have hstart : BetweenZ m ([] : List UInt8).length r.reset := Or.inl (idle_reset r)
  have hnil : ¬ m.RootInflated [] := not_rootInflated_of_short (Nat.zero_le _)
  constructor
  · rintro ⟨_, hresuming⟩ hroot
    rcases deliver_rooted hone last pieces hstart hnil hdelivered hroot with
      ⟨call, hcall, hnot⟩
    exact hnot (hresuming call hcall)
  · intro hroot
    have hpre : [] ++ Consumer.delivered pieces <+: m.bytes := by
      rw [← hdelivered]
      exact List.prefix_append _ _
    rcases deliver_early hone pieces hstart hpre hroot with
      ⟨hpending, hbetween, hresumes⟩
    rcases readMsg_rooted hone with ⟨n, _, hrooted⟩
    have hwhole : m.RootInflated (m.bytes.take m.bytes.length) := by
      rw [List.take_length]
      exact hone.rootInflated
    have h12 : 12 <= m.bytes.length := by
      rw [CompressedMsg.bytes_length]
      omega
    rcases hrooted hbetween hpre.length_le h12 (Nat.le_refl _) hwhole last.1 with
      ⟨s, result1, hafter, hreply, hresume⟩
    rcases hrooted hstart (Nat.zero_le _) h12 (Nat.le_refl _) hwhole single with
      ⟨s', result1', honce, hreply', _⟩
    have hsame : s' = s := by
      have h := honce.inflates.symm.trans hafter.inflates
      exact congrArg Prod.fst (Except.ok.inj h)
    subst hsame
    rw [List.take_length] at hafter hreply hresume honce hreply'
    have hzero : r.reset.bytUsd = 0 := rfl
    rw [hzero, List.drop_zero] at honce hreply'
    rw [hreply'] at hcomplete
    have htrue := (rootReply_fst o _ result1 result1').trans hcomplete
    rcases rootReply_ok hcomplete with ⟨_, hmsg'⟩
    rcases rootReply_ok htrue with ⟨hok, hmsg⟩
    obtain ⟨reply, r', hcall⟩ : exists reply r',
        readMsg canAlloc ((consumer canAlloc).deliver r.reset [] pieces).2
          (m.bytes.drop ((consumer canAlloc).deliver r.reset [] pieces).2.bytUsd)
          last.1 = (reply, r') := ⟨_, _, rfl⟩
    rw [hcall] at hafter hreply
    rw [← hreply] at htrue hok hmsg
    have hout := deliver_last hdelivered hcall
    refine ⟨⟨hpending, ⟨reply, ?_, htrue, hok, ?_⟩, ?_, ?_⟩, ?_⟩
    · rw [hout]
    · rw [hmsg, hreply', hmsg']
    · rw [hout]
      exact hafter.used.trans honce.used.symm
    · rw [hout]
      exact hafter.dez.trans honce.dez.symm
    · intro call hcall
      rw [Consumer.calls_append] at hcall
      rcases List.mem_append.mp hcall with hcall | hcall
      · exact hresumes call hcall
      · rw [List.nil_append, Consumer.calls, hdelivered] at hcall
        rw [List.mem_singleton.mp hcall]
        exact hresume

/-- `KdbCharVector::getString`, of an object that may be of another class. -/
def getString : KdbBase -> Option (List (BitVec 8))
  | .vector .char _ _ vec => some vec
  | _ => none

/-- The char vector `"abc"`, compressed without back-references. -/
def abc : CompressedMsg where
  typ := KdbMsgType.async.i8
  spare := 0
  msgLen := 17
  body := [0, 10, 0, 3, 0, 0, 0, 97, 98] ++ [0, 99]

/-- Cut behind its header, the message is read as in one piece. -/
theorem abc_cut_behind_header :
    AgreesWith (fun _ => true) new.reset [(unset, abc.bytes.take 12)]
        (unset, abc.bytes.drop 12)
        (readMsg (fun _ => true) new.reset abc.bytes unset) ∧
      Resuming (fun _ => true) new.reset
        ([(unset, abc.bytes.take 12)] ++ [(unset, abc.bytes.drop 12)]) :=
  (readMsg_compressed_chunked (fun _ => true) abc (by decide) new unset
    (by decide +kernel) [(unset, abc.bytes.take 12)] (unset, abc.bytes.drop 12)
    (by decide)).mpr (not_rootInflated_of_short (by decide))

/--
Cut between its two blocks, the message is delivered as `"ab"` and a line feed:
the last character is taken from the first inflated byte, the type code.
-/
theorem abc_cut_between_blocks :
    (readMsg (fun _ => true) new.reset abc.bytes unset).1.1 = true ∧
      (readMsg (fun _ => true) new.reset abc.bytes unset).1.2.message.bind getString =
        some [97, 98, 99] ∧
      ((consumer (fun _ => true)).deliver new.reset []
          [(unset, abc.bytes.take 21), (unset, abc.bytes.drop 21)]).1.map
          (fun reply => (reply.1, reply.2.message.bind getString)) =
        [(false, none), (true, some [97, 98, 10])] ∧
      ¬ AgreesWith (fun _ => true) new.reset [(unset, abc.bytes.take 21)]
        (unset, abc.bytes.drop 21) (readMsg (fun _ => true) new.reset abc.bytes unset) := by
  have honce : (readMsg (fun _ => true) new.reset abc.bytes unset).1.2.message.bind
      getString = some [97, 98, 99] := by
    decide +kernel
  have hpieces : ((consumer (fun _ => true)).deliver new.reset []
      [(unset, abc.bytes.take 21), (unset, abc.bytes.drop 21)]).1.map
      (fun reply => (reply.1, reply.2.message.bind getString)) =
        [(false, none), (true, some [97, 98, 10])] := by
    decide +kernel
  refine ⟨by decide +kernel, honce, hpieces, ?_⟩
  intro hagrees
  rcases hagrees.completes with ⟨reply, hdeliver, _, _, hmsg⟩
  have hlast := congrArg List.getLast? hpieces
  rw [List.singleton_append] at hdeliver
  rw [hdeliver, List.map_append, List.map_singleton, List.getLast?_concat, hmsg,
    honce] at hlast
  simp at hlast

end KdbIpcMessageReader

end MgKdb
