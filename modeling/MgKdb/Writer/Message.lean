import MgKdb.Foundation.Delivery
import MgKdb.Writer.Progress

/-!
# The message writer

A message is written into as many buffers as it takes.  The writer remembers only
how many bytes are still to be written, and finds its place again in every call.
-/

namespace MgKdb

open Foundation WriteBuf

/-- `KdbUtil::ipcMessageLen`, for an object without missing parts. -/
def ipcMessageLen (payload : KdbBase) : Option Nat :=
  payload.wireSz.map (fun n => 8 + n)

structure KdbIpcMessageWriter where
  msgTyp : KdbMsgType
  ipcLen : Nat
  root : KdbBase
  bytRem : Nat

namespace KdbIpcMessageWriter

def new (msg_typ : KdbMsgType) (msg : KdbBase) : Option KdbIpcMessageWriter :=
  (ipcMessageLen msg).map fun n =>
    { msgTyp := msg_typ, ipcLen := n, root := msg, bytRem := n }

def ipcLength (w : KdbIpcMessageWriter) : Nat :=
  w.ipcLen

def bytesRemaining (w : KdbIpcMessageWriter) : Nat :=
  w.bytRem

def writeMsgHdr (w : KdbIpcMessageWriter) (b : WriteBuf) : Bool × WriteBuf :=
  ((((b.write [1]).2.write [w.msgTyp.i8]).2.write [0]).2.write [0]).2.writeI32 w.ipcLen

abbrev Out := WriteResult × List UInt8 × KdbIpcMessageWriter

def writeRoot (w : KdbIpcMessageWriter) (b : WriteBuf) : Out :=
  let out := w.root.write b
  (out.1, out.2.out, { w with bytRem := ((w.bytRem : Int) - out.2.csr).toNat })

def write (w : KdbIpcMessageWriter) (cap : Nat) : Out :=
  let hdr := (WriteBuf.new cap (-((w.ipcLen : Int) - w.bytRem))).writeHead 8
    (whenRoom 8 w.writeMsgHdr)
  if hdr.1 = .ok then w.writeRoot hdr.2 else (hdr.1, hdr.2.out, w)

def producer : Producer UInt8 KdbIpcMessageWriter WriteResult where
  call := write
  left := bytesRemaining

/-!
## One call
-/

def writeAll (w : KdbIpcMessageWriter) (b : WriteBuf) : WriteOut :=
  (b.writeHead 8 (whenRoom 8 w.writeMsgHdr)).andThen w.root.write

theorem writeHead_not_ok {b : WriteBuf} {n : Nat} {f : WriteBuf -> Bool × WriteBuf}
    (h : (b.writeHead n (whenRoom n f)).1 ≠ .ok) :
    b.writeHead n (whenRoom n f) = (.incomplete, b) ∧ 0 <= b.csr := by
  unfold writeHead whenRoom at h ⊢
  by_cases hcsr : b.cursorActive = true
  · by_cases hroom : b.canWrite n = false
    · have hpos : 0 <= b.csr := of_decide_eq_true hcsr
      simp [hcsr, hroom, hpos]
    · simp [hcsr, hroom] at h
  · simp [hcsr] at h

theorem write_eq_writeAll {w : KdbIpcMessageWriter} (hle : w.bytRem <= w.ipcLen)
    (cap : Nat) {out : WriteOut}
    (hout : w.writeAll (WriteBuf.new cap (-((w.ipcLen : Int) - w.bytRem))) = out) :
    w.write cap = (out.1, out.2.out,
      { w with bytRem := ((w.bytRem : Int) - out.2.csr).toNat }) := by
  rw [← hout, write, writeAll, WriteOut.andThen]
  by_cases hok : ((WriteBuf.new cap (-((w.ipcLen : Int) - w.bytRem))).writeHead 8
      (whenRoom 8 w.writeMsgHdr)).1 = .ok
  · simp only [hok, if_true]
    rfl
  · rcases writeHead_not_ok hok with ⟨hhdr, hcsr⟩
    have hnew : (WriteBuf.new cap (-((w.ipcLen : Int) - w.bytRem))).csr = 0 := by
      simp only [WriteBuf.new] at hcsr ⊢
      omega
    simp only [hhdr, hnew]
    simp

variable {typ : KdbMsgType} {o : KdbBase} {xs : List UInt8}

theorem writeMsgHdr_appends (w : KdbIpcMessageWriter) {n : Nat} (hipc : w.ipcLen = 8 + n) :
    Appends w.writeMsgHdr (KVal.msgHdr w.msgTyp n) := by
  have hall := ((((puts_write [1]).appends.then (puts_write [w.msgTyp.i8]).appends).then
    (puts_write [0]).appends).then (puts_write [0]).appends).then
    (puts_writeI32 w.ipcLen).appends
  rw [hipc] at hall
  intro b
  unfold writeMsgHdr
  rw [hipc]
  exact hall b

structure Sending (typ : KdbMsgType) (xs : List UInt8) (stop : Nat -> Prop)
    (w : KdbIpcMessageWriter) : Prop where
  writes : Writes (KVal.msgHdr typ xs.length ++ xs) stop w.writeAll
  ipcLen : w.ipcLen = (KVal.msgHdr typ xs.length ++ xs).length
  bytRem : w.bytRem <= w.ipcLen
  place : stop (w.ipcLen - w.bytRem)

structure Advancing (unit : Nat) (typ : KdbMsgType) (xs : List UInt8) (stop : Nat -> Prop)
    (w : KdbIpcMessageWriter) : Prop where
  sending : Sending typ xs stop w
  moves : Moves unit (KVal.msgHdr typ xs.length ++ xs) stop w.writeAll

theorem advancing_new (typ : KdbMsgType) (hxs : o.bytes = some xs) :
    exists w stop, new typ o = some w ∧ Advancing (max 8 o.unit) typ xs stop w ∧
      w.bytRem = w.ipcLen := by
  rcases write_steady o (Nat.le_max_right 8 _) hxs with ⟨stop, hroot⟩
  have hsz := o.wireSz_of_bytes hxs
  have hnew : new typ o = some
      { msgTyp := typ, ipcLen := 8 + xs.length, root := o, bytRem := 8 + xs.length } := by
    rw [new, ipcMessageLen, hsz]
    rfl
  have hhdr := Steady.head (puts_whenRoom (writeMsgHdr_appends
      { msgTyp := typ, ipcLen := 8 + xs.length, root := o, bytRem := 8 + xs.length } rfl)
    (KVal.msgHdr_length typ xs.length)) (KVal.msgHdr_length typ xs.length)
    (Nat.le_max_left 8 o.unit)
  have hall := hhdr.andThen hroot
  refine ⟨_, _, hnew, ⟨⟨hall.writes, ?_, Nat.le_refl _, ?_⟩, hall.moves⟩, rfl⟩
  · rw [List.length_append, KVal.msgHdr_length]
  · rw [Nat.sub_self]
    exact hall.writes.start

theorem sending_new (typ : KdbMsgType) (hxs : o.bytes = some xs) :
    exists w stop, new typ o = some w ∧ Sending typ xs stop w ∧
      w.bytRem = w.ipcLen := by
  rcases advancing_new typ hxs with ⟨w, stop, hnew, hw, hfresh⟩
  exact ⟨w, stop, hnew, hw.sending, hfresh⟩

theorem passed_new {stop : Nat -> Prop} {w : KdbIpcMessageWriter}
    (hw : Sending typ xs stop w) (cap : Nat) :
    (WriteBuf.new cap (-((w.ipcLen : Int) - w.bytRem))).passed
      (KVal.msgHdr typ xs.length ++ xs).length = w.ipcLen - w.bytRem := by
  have hipc := hw.ipcLen
  unfold passed WriteBuf.new
  simp only
  omega

theorem write_step {stop : Nat -> Prop} {w : KdbIpcMessageWriter}
    (hw : Sending typ xs stop w) (cap : Nat) :
    Sending typ xs stop (w.write cap).2.2 ∧
      w.bytRem = (w.write cap).2.2.bytRem + (w.write cap).2.1.length ∧
      (w.write cap).2.1 <+:
        (KVal.msgHdr typ xs.length ++ xs).drop (w.ipcLen - w.bytRem) ∧
      (w.write cap).2.1.length <= cap ∧
      (w.write cap).1 =
        (if (w.write cap).2.2.bytRem = 0 then .ok else .incomplete) ∧
      (w.bytRem <= cap -> (w.write cap).2.2.bytRem = 0) := by
  have hipc := hw.ipcLen
  have hle := hw.bytRem
  obtain ⟨out, hout⟩ : exists out,
      w.writeAll (WriteBuf.new cap (-((w.ipcLen : Int) - w.bytRem))) = out := ⟨_, rfl⟩
  have hwrite := write_eq_writeAll hle cap hout
  have hpassed := passed_new hw cap
  have hwritten := hw.writes.resume
    (b := WriteBuf.new cap (-((w.ipcLen : Int) - w.bytRem)))
    (by rw [hpassed]; exact hw.place)
  rw [hout, Written, hpassed] at hwritten
  rcases hwritten with ⟨j, hj, hstop, hstored, hcode, hroom⟩
  have hcap := hstored.cap
  have hbytes := hstored.out
  have hcsr := hstored.csr
  have hlen : (((KVal.msgHdr typ xs.length ++ xs).drop
      (w.ipcLen - w.bytRem)).take j).length = j := by
    rw [List.length_take, List.length_drop]
    omega
  rw [hlen] at hcsr
  simp only [WriteBuf.new, List.nil_append] at hcap hbytes hcsr
  have hrem : ((w.bytRem : Int) - out.2.csr).toNat = w.bytRem - j := by omega
  have hfits := out.2.fits
  have hsize : out.2.out.length = j := by rw [hbytes, hlen]
  rw [hwrite]
  simp only [hrem]
  refine ⟨⟨hw.writes, hw.ipcLen, ?_, ?_⟩, ?_, ?_, ?_, ?_, ?_⟩
  · simp only
    omega
  · simp only
    rw [show w.ipcLen - (w.bytRem - j) = w.ipcLen - w.bytRem + j by omega]
    exact hstop
  · omega
  · rw [hbytes]
    exact List.take_prefix j _
  · omega
  · rw [hcode]
    by_cases hdone : w.bytRem - j = 0
    · rw [if_pos hdone, if_pos (by omega)]
    · rw [if_neg hdone, if_neg (by omega)]
  · intro hcap'
    have hspace : (WriteBuf.new cap (-((w.ipcLen : Int) - w.bytRem))).remaining = cap :=
      Nat.sub_zero cap
    rw [hspace] at hroom
    omega

theorem write_advances {unit : Nat} {stop : Nat -> Prop} {w : KdbIpcMessageWriter}
    (hw : Advancing unit typ xs stop w) {cap : Nat} (hcap : unit <= cap) :
    Advancing unit typ xs stop (w.write cap).2.2 ∧
      (w.write cap).2.2.bytRem <= w.bytRem - 1 := by
  rcases write_step hw.sending cap with ⟨hsending, hcounts, _⟩
  obtain ⟨out, hout⟩ : exists out,
      w.writeAll (WriteBuf.new cap (-((w.ipcLen : Int) - w.bytRem))) = out := ⟨_, rfl⟩
  have hwrite := write_eq_writeAll hw.sending.bytRem cap hout
  have hmoves : Moves unit (KVal.msgHdr typ xs.length ++ xs) stop
      (w.write cap).2.2.writeAll := by
    rw [hwrite]
    exact hw.moves
  refine ⟨⟨hsending, hmoves⟩, ?_⟩
  rcases Nat.eq_zero_or_pos w.bytRem with hzero | hpos
  · omega
  · have hipc := hw.sending.ipcLen
    have hle := hw.sending.bytRem
    have hpassed := passed_new hw.sending cap
    have hmoved := hw.moves
      (b := WriteBuf.new cap (-((w.ipcLen : Int) - w.bytRem)))
      (by rw [hpassed]; exact hw.sending.place) (by omega)
      (by rw [show (WriteBuf.new cap (-((w.ipcLen : Int) - w.bytRem))).remaining = cap from
        Nat.sub_zero cap]; exact hcap)
    rw [hout] at hmoved
    have hstored : (w.write cap).2.1 = out.2.out := by rw [hwrite]
    have hsome : 0 < (w.write cap).2.1.length := by
      rw [hstored]
      exact Nat.lt_of_le_of_lt (Nat.zero_le _) hmoved
    omega

/-!
## Every sequence of buffers
-/

/-- What each call shows: no overrun, and `WR_OK` exactly at the end. -/
def Fair (c : Producer.Call UInt8 WriteResult) : Prop :=
  c.buffer.length <= c.room ∧ (c.reply = .ok <-> c.after = 0) ∧
    (c.reply = .ok ∨ c.reply = .incomplete) ∧ (c.before = 0 -> c.share = [])

theorem producer_emits (typ : KdbMsgType) (xs : List UInt8) (stop : Nat -> Prop) :
    producer.Emits (KVal.msgHdr typ xs.length ++ xs) (Sending typ xs stop) Fair where
  left_le := by
    intro w hw
    exact hw.ipcLen ▸ hw.bytRem
  inv := by
    intro w cap hw
    exact (write_step hw cap).left
  counts := by
    intro w cap hw
    exact (write_step hw cap).right.left
  next := by
    intro w cap hw
    have hstep := (write_step hw cap).right.right.left
    rw [hw.ipcLen] at hstep
    exact hstep
  good := by
    intro w cap hw
    rcases write_step hw cap with ⟨_, _, _, hroom, hcode, _⟩
    refine ⟨hroom, ?_, ?_, ?_⟩
    · refine (iff_of_eq (congrArg (· = WriteResult.ok) hcode)).trans ?_
      show _ <-> (w.write cap).2.2.bytRem = 0
      split <;> simp_all
    · show (w.write cap).1 = .ok ∨ (w.write cap).1 = .incomplete
      rw [hcode]
      split <;> simp
    · intro hzero
      have hbefore : w.bytRem = 0 := hzero
      show ((w.write cap).2.1).take (w.bytRem - (w.write cap).2.2.bytRem) = []
      rw [hbefore, Nat.zero_sub, List.take_zero]

theorem write_once (typ : KdbMsgType) (hxs : o.bytes = some xs) {cap : Nat}
    (hcap : 8 + xs.length <= cap) :
    exists w, new typ o = some w ∧ (producer.run w [cap]).2.bytesRemaining = 0 := by
  rcases sending_new typ hxs with ⟨w, stop, hnew, hw, hfresh⟩
  have hipc := hw.ipcLen
  rw [List.length_append, KVal.msgHdr_length] at hipc
  exact ⟨w, hnew, (write_step hw cap).right.right.right.right.right (by omega)⟩

theorem run_output {stop : Nat -> Prop} {w : KdbIpcMessageWriter}
    (hw : Sending typ xs stop w) (hfresh : w.bytRem = w.ipcLen) (caps : List Nat) :
    (forall c, c ∈ (producer.run w caps).1 -> Fair c) ∧
      (producer.run w caps).2.bytesRemaining <= 8 + xs.length ∧
      Producer.output (producer.run w caps).1 =
        (KVal.msgHdr typ xs.length ++ xs).take
          (8 + xs.length - (producer.run w caps).2.bytesRemaining) := by
  rcases Producer.run_of_emits (producer_emits typ xs stop) caps hw with
    ⟨hlast, hfair, hout⟩
  have hipc := hw.ipcLen
  have hleft : producer.left w = (KVal.msgHdr typ xs.length ++ xs).length := by
    rw [← hipc]
    exact hfresh
  have hle : (producer.run w caps).2.bytesRemaining <=
      (KVal.msgHdr typ xs.length ++ xs).length := hlast.ipcLen ▸ hlast.bytRem
  rw [hleft, Nat.sub_self, List.take_zero, List.nil_append] at hout
  rw [List.length_append, KVal.msgHdr_length] at hle hout
  exact ⟨hfair, hle, hout⟩

theorem write_all (typ : KdbMsgType) (hxs : o.bytes = some xs)
    {w : KdbIpcMessageWriter} (hw : new typ o = some w) (caps : List Nat)
    (hdone : (producer.run w caps).2.bytesRemaining = 0) :
    Producer.output (producer.run w caps).1 = KVal.msgHdr typ xs.length ++ xs := by
  rcases sending_new typ hxs with ⟨w', stop, hnew, hw', hfresh⟩
  have hsame : w' = w := Option.some.inj (hnew.symm.trans hw)
  rw [hsame] at hw' hfresh
  rw [(run_output hw' hfresh caps).right.right, hdone, Nat.sub_zero, List.take_of_length_le]
  rw [List.length_append, KVal.msgHdr_length]

theorem producer_advances (unit : Nat) (typ : KdbMsgType) (xs : List UInt8)
    (stop : Nat -> Prop) :
    producer.Advances (Advancing unit typ xs stop) (fun cap => unit <= cap) where
  inv := fun hcap hw => (write_advances hw hcap).left
  less := fun hcap hw => (write_advances hw hcap).right

theorem write_wide (typ : KdbMsgType) (hxs : o.bytes = some xs)
    {w : KdbIpcMessageWriter} (hnew : new typ o = some w) {caps : List Nat}
    (hcaps : forall cap, cap ∈ caps -> max 8 o.unit <= cap)
    (hmany : 8 + xs.length <= caps.length) :
    (producer.run w caps).2.bytesRemaining = 0 ∧
      Producer.output (producer.run w caps).1 = KVal.msgHdr typ xs.length ++ xs := by
  rcases advancing_new typ hxs with ⟨w', stop, hnew', hw, hfresh⟩
  cases hnew'.symm.trans hnew
  rcases Producer.run_of_advances (producer_advances (max 8 o.unit) typ xs stop) caps hcaps
    hw with ⟨_, hleft⟩
  have hipc := hw.sending.ipcLen
  rw [List.length_append, KVal.msgHdr_length] at hipc
  have hstart : producer.left w = 8 + xs.length := hfresh.trans hipc
  have hdone : (producer.run w caps).2.bytesRemaining = 0 := by
    change producer.left (producer.run w caps).2 = 0
    omega
  exact ⟨hdone, write_all typ hxs hnew caps hdone⟩

/--
Chunk invariance: whatever the capacities, the calls together contribute a prefix
of the message, which is all of it once nothing remains, and enough large buffers take all of it.
-/
theorem write_chunked (typ : KdbMsgType) (o : KdbBase) (xs : List UInt8)
    (hxs : o.bytes = some xs) (caps : List Nat) :
    exists w, new typ o = some w ∧
      (forall c, c ∈ (producer.run w caps).1 -> Fair c) ∧
      Producer.output (producer.run w caps).1 <+: KVal.msgHdr typ xs.length ++ xs ∧
      (Producer.output (producer.run w caps).1).length +
        (producer.run w caps).2.bytesRemaining = 8 + xs.length ∧
      o.wireSz = some xs.length ∧
      ((forall cap, cap ∈ caps -> max 8 o.unit <= cap) -> 8 + xs.length <= caps.length ->
        Producer.output (producer.run w caps).1 = KVal.msgHdr typ xs.length ++ xs) := by
  rcases sending_new typ hxs with ⟨w, stop, hnew, hw, hfresh⟩
  rcases run_output hw hfresh caps with ⟨hfair, hle, hout⟩
  refine ⟨w, hnew, hfair, ?_, ?_, o.wireSz_of_bytes hxs, fun hcaps hmany =>
    (write_wide typ hxs hnew hcaps hmany).right⟩
  · rw [hout]
    exact List.take_prefix _ _
  · rw [hout, List.length_take, List.length_append, KVal.msgHdr_length]
    omega

/-- A dict that is written into six buffers, two of them too small for anything. -/
theorem write_chunked_dict :
    exists w, new .sync (KVal.dict (.vector .short 0 [1, 2]) (.atom .int 3)).obj = some w ∧
      (forall c, c ∈ (producer.run w [0, 9, 9, 1, 20, 4]).1 -> Fair c) ∧
      Producer.output (producer.run w [0, 9, 9, 1, 20, 4]).1 <+:
        KVal.msgHdr .sync
            (KVal.encode (.dict (.vector .short 0 [1, 2]) (.atom .int 3))).length ++
          KVal.encode (.dict (.vector .short 0 [1, 2]) (.atom .int 3)) ∧
      (Producer.output (producer.run w [0, 9, 9, 1, 20, 4]).1).length +
        (producer.run w [0, 9, 9, 1, 20, 4]).2.bytesRemaining =
          8 + (KVal.encode (.dict (.vector .short 0 [1, 2]) (.atom .int 3))).length ∧
      (KVal.dict (.vector .short 0 [1, 2]) (.atom .int 3)).obj.wireSz =
        some (KVal.encode (.dict (.vector .short 0 [1, 2]) (.atom .int 3))).length ∧
      ((forall cap, cap ∈ [0, 9, 9, 1, 20, 4] ->
          max 8 (KVal.dict (.vector .short 0 [1, 2]) (.atom .int 3)).obj.unit <= cap) ->
        8 + (KVal.encode (.dict (.vector .short 0 [1, 2]) (.atom .int 3))).length <=
            [0, 9, 9, 1, 20, 4].length ->
          Producer.output (producer.run w [0, 9, 9, 1, 20, 4]).1 =
            KVal.msgHdr .sync
                (KVal.encode (.dict (.vector .short 0 [1, 2]) (.atom .int 3))).length ++
              KVal.encode (.dict (.vector .short 0 [1, 2]) (.atom .int 3))) :=
  write_chunked .sync _ _ (KVal.bytes_of_holds _ (KVal.holds_obj _)) [0, 9, 9, 1, 20, 4]

/--
Progress: with buffers for the largest unit every call writes something as long as
something is left, and one of so many calls answers `WR_OK`.
-/
theorem write_progress (typ : KdbMsgType) (o : KdbBase) (xs : List UInt8)
    (hxs : o.bytes = some xs) (caps : List Nat)
    (hcaps : forall cap, cap ∈ caps -> max 8 o.unit <= cap) :
    exists w, new typ o = some w ∧
      (forall c, c ∈ (producer.run w caps).1 -> 0 < c.before -> c.after < c.before) ∧
      (8 + xs.length <= caps.length ->
        (exists c, c ∈ (producer.run w caps).1 ∧ c.reply = .ok) ∧
          Producer.output (producer.run w caps).1 = KVal.msgHdr typ xs.length ++ xs) := by
  rcases advancing_new typ hxs with ⟨w, stop, hnew, hw, hfresh⟩
  rcases Producer.run_of_advances (producer_advances (max 8 o.unit) typ xs stop) caps hcaps
    hw with ⟨hcalls, hleft⟩
  refine ⟨w, hnew, hcalls, ?_⟩
  intro hmany
  rcases write_wide typ hxs hnew hcaps hmany with ⟨hdone, hout⟩
  have hipc := hw.sending.ipcLen
  rw [List.length_append, KVal.msgHdr_length] at hipc
  have hstart : producer.left w = 8 + xs.length := hfresh.trans hipc
  rcases producer.exists_last_of_run caps (by rw [hstart]; omega) hdone with ⟨c, hc, hlast⟩
  exact ⟨⟨c, hc, ((run_output hw.sending hfresh caps).left c hc).right.left.mpr hlast⟩, hout⟩

/-- The dict again, with thirty buffers of nine bytes. -/
theorem write_progress_dict :
    exists w, new .sync (KVal.dict (.vector .short 0 [1, 2]) (.atom .int 3)).obj = some w ∧
      (forall c, c ∈ (producer.run w (List.replicate 30 9)).1 ->
        0 < c.before -> c.after < c.before) ∧
      Producer.output (producer.run w (List.replicate 30 9)).1 =
        KVal.msgHdr .sync
            (KVal.encode (.dict (.vector .short 0 [1, 2]) (.atom .int 3))).length ++
          KVal.encode (.dict (.vector .short 0 [1, 2]) (.atom .int 3)) := by
  rcases write_progress .sync _ _
    (KVal.bytes_of_holds _ (KVal.holds_obj (.dict (.vector .short 0 [1, 2]) (.atom .int 3))))
    (List.replicate 30 9) (by decide) with ⟨w, hnew, hcalls, hdone⟩
  exact ⟨w, hnew, hcalls, (hdone (by decide)).right⟩

end KdbIpcMessageWriter

end MgKdb
