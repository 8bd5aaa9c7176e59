import MgKdb.Core.MapTypes
import MgKdb.Foundation.Fifo

/-!
# The circular buffer

The same bytes are mapped twice, one half of the mapping behind the other, so that a range
that begins in the first half and runs over its end comes out at the head of it.  The
buffer is a bounded queue.
-/

namespace MgKdb

open Foundation

structure CircularBuffer where
  mapping : Mapping
  memFd : Int32
  pos : UInt64
  len : UInt64
  deriving DecidableEq, Repr

namespace CircularBuffer

def new (base : Address) (pgs : PageCount) (mem_fd : Int32) : CircularBuffer :=
  ⟨⟨base, pgs, 0, 0, -1, 0⟩, mem_fd, 0, 0⟩

def magicLen (buf : CircularBuffer) : UInt64 :=
  buf.mapping.pages.bytes64

def mapLen (buf : CircularBuffer) : UInt64 :=
  buf.magicLen / 2

def readPtr (buf : CircularBuffer) : Address :=
  buf.mapping.addr + buf.pos

def writeOffset (buf : CircularBuffer) : UInt64 :=
  buf.pos + buf.len

def writePtr (buf : CircularBuffer) : Address :=
  buf.mapping.addr + buf.writeOffset

def readable (buf : CircularBuffer) : UInt64 :=
  buf.len

def writeable (buf : CircularBuffer) : UInt64 :=
  buf.mapLen - buf.len

def setConsumed (buf : CircularBuffer) (count : UInt64) : CircularBuffer :=
  { buf with
    pos := if buf.pos + count >= buf.mapLen then buf.pos + count - buf.mapLen
      else buf.pos + count
    len := buf.len - count }

def setAppended (buf : CircularBuffer) (count : UInt64) : CircularBuffer :=
  { buf with len := buf.len + count }

end CircularBuffer

/-!
## Setting it up
-/

structure CircSys extends Sys where
  memfdCreate : Except Int32 Int32
  ftruncate : Int32 -> UInt64 -> Except Int32 Unit
  strerror : Int32 -> String

/-- The manual's `EINVAL`: there is no mapping of no length. -/
def Sys.RejectsEmpty (sys : Sys) : Prop :=
  forall args, args.len = 0 -> exists err, sys.mmap args = .error err

def protRead : Int32 := 1
def protWrite : Int32 := 2
def mapShared : Int32 := 1

def Address.format (addr : Address) : String :=
  "0x" ++ String.ofList (Nat.toDigits 16 addr.toNat)

/-- The call that places the file behind `addr`. -/
def halfArgs (addr : Address) (buf_len : UInt64) (mfd : Int32) : MmapArgs :=
  ⟨addr, buf_len, protRead ||| protWrite, mapShared ||| mapFixed, mfd, 0⟩

def rootArgs (buf_len : UInt64) : MmapArgs :=
  ⟨0, 2 * buf_len, protNone, mapPrivate ||| mapAnonymous, -1, 0⟩

/-- Both halves are to be placed exactly where they were asked for. -/
def misplaced (addr tmp : Address) : String :=
  "expected MAP_FIXED addr and response to be the same, have addr=" ++ addr.format ++
    " and result=" ++ tmp.format

/-- `init_circ_buffer`; what a failure undoes again is left out. -/
def initCircBuffer (sys : CircSys) (map_pgs : PageCount) : Except String CircularBuffer :=
  let buf_len := map_pgs.bytes64
  match sys.mmap (rootArgs buf_len) with
  | .error e => .error ("Failed to reserve private address range: " ++ sys.strerror e)
  | .ok base =>
      match sys.memfdCreate with
      | .error e => .error ("Failed in memfd_create: " ++ sys.strerror e)
      | .ok mfd =>
          match sys.ftruncate mfd buf_len with
          | .error e => .error ("Failed in ftruncate: " ++ sys.strerror e)
          | .ok _ =>
              match sys.mmap (halfArgs base buf_len mfd) with
              | .error e =>
                  .error (s!"Failed in mmap(base, len={buf_len}, .. MAP_FIXED): " ++
                    sys.strerror e)
              | .ok tmp =>
                  if tmp ≠ base then .error (misplaced base tmp)
                  else
                    match sys.mmap (halfArgs (base + buf_len) buf_len mfd) with
                    | .error e =>
                        .error (s!"Failed in mmap(base + buf_len, len={buf_len}, .. " ++
                          "MAP_FIXED): " ++ sys.strerror e)
                    | .ok seam =>
                        if seam ≠ base + buf_len then .error (misplaced base seam)
                        else .ok (.new base (.fromBytes (buf_len * 2)) mfd)

/-!
## The buffer and its bytes
-/

structure Ring where
  buf : CircularBuffer
  mem : Nat -> UInt8

namespace Ring

def Inside (r : Ring) (ptr : Address) (n : Nat) : Prop :=
  r.buf.mapping.addr.toNat <= ptr.toNat ∧
    ptr.toNat + n <= r.buf.mapping.addr.toNat + r.buf.magicLen.toNat

instance (r : Ring) (ptr : Address) (n : Nat) : Decidable (r.Inside ptr n) :=
  inferInstanceAs (Decidable (_ ∧ _))

/-- The bytes at an offset in the double mapping, which shows each byte twice. -/
def load (r : Ring) (off n : Nat) : List UInt8 :=
  ringLoad r.buf.mapLen.toNat r.mem off n

def store (r : Ring) (off : Nat) (xs : List UInt8) : Ring :=
  { r with mem := ringStore r.buf.mapLen.toNat r.mem off xs }

/-- Write at `write_ptr()`, or read at `read_ptr()`, and account for it. -/
def react (r : Ring) : QueueOp UInt8 -> Option (List UInt8) × Ring
  | .append xs =>
      if r.Inside r.buf.writePtr xs.length then
        let stored := r.store (r.buf.writePtr.toNat - r.buf.mapping.addr.toNat) xs
        (some [], { stored with buf := r.buf.setAppended (.ofNat xs.length) })
      else (none, r)
  | .consume n =>
      if r.Inside r.buf.readPtr n then
        (some (r.load (r.buf.readPtr.toNat - r.buf.mapping.addr.toNat) n),
          { r with buf := r.buf.setConsumed (.ofNat n) })
      else (none, r)

def Allowed (r : Ring) : QueueOp UInt8 -> Prop
  | .append xs => xs.length <= r.buf.writeable.toNat
  | .consume n => n <= r.buf.readable.toNat

instance (r : Ring) (op : QueueOp UInt8) : Decidable (r.Allowed op) :=
  match op with
  | .append _ => inferInstanceAs (Decidable (_ <= _))
  | .consume _ => inferInstanceAs (Decidable (_ <= _))

def Touches (r : Ring) : QueueOp UInt8 -> Prop
  | .append xs => r.Inside r.buf.writePtr xs.length
  | .consume n => r.Inside r.buf.readPtr n

structure Bounded (r : Ring) : Prop where
  pos_lt : r.buf.pos < r.buf.mapLen
  len_le : r.buf.len <= r.buf.mapLen
  room : r.buf.readable + r.buf.writeable = r.buf.mapLen

/-!
## The queue in it
-/

/-- The mapping that the set-up makes: two halves of a size other than zero. -/
structure Mirrored (r : Ring) : Prop where
  size_pos : 0 < r.buf.mapLen.toNat
  halves : r.buf.magicLen.toNat = 2 * r.buf.mapLen.toNat
  placed : r.buf.mapping.addr.toNat + r.buf.magicLen.toNat < 2 ^ 64

structure Holds (cap : Nat) (r : Ring) (q : List UInt8) : Prop where
  mirrored : r.Mirrored
  size : r.buf.mapLen.toNat = cap
  pos_lt : r.buf.pos.toNat < cap
  len : r.buf.len.toNat = q.length
  rings : Rings cap r.mem r.buf.pos.toNat q

variable {cap : Nat} {r : Ring} {q : List UInt8}

theorem Holds.bounded (h : Holds cap r q) : r.Bounded := by
  have hsize := h.size
  have hpos := h.pos_lt
  have hlen := h.len
  have hfits := h.rings.fits
  refine ⟨UInt64.lt_iff_toNat_lt.mpr (by omega), UInt64.le_iff_toNat_le.mpr (by omega), ?_⟩
  rw [CircularBuffer.readable, CircularBuffer.writeable]
  exact add_sub_cancel _ _

theorem Holds.writePtr (h : Holds cap r q) :
    r.buf.writePtr.toNat = r.buf.mapping.addr.toNat + (r.buf.pos.toNat + q.length) := by
  have hhalves := h.mirrored.halves
  have hplaced := h.mirrored.placed
  have hsize := h.size
  have hpos := h.pos_lt
  have hlen := h.len
  have hfits := h.rings.fits
  rw [CircularBuffer.writePtr, CircularBuffer.writeOffset, UInt64.toNat_add,
    UInt64.toNat_add]
  omega

theorem Holds.readPtr (h : Holds cap r q) :
    r.buf.readPtr.toNat = r.buf.mapping.addr.toNat + r.buf.pos.toNat := by
  have hhalves := h.mirrored.halves
  have hplaced := h.mirrored.placed
  have hsize := h.size
  have hpos := h.pos_lt
  rw [CircularBuffer.readPtr, UInt64.toNat_add]
  omega

theorem Holds.allowed_iff (h : Holds cap r q) (op : QueueOp UInt8) :
    r.Allowed op <-> op.Fits cap q := by
  have hsize := h.size
  have hlen := h.len
  have hfits := h.rings.fits
  cases op with
  | append xs =>
      have hroom : r.buf.writeable.toNat = cap - q.length := by
        rw [CircularBuffer.writeable, UInt64.toNat_sub_of_le _ _
          (UInt64.le_iff_toNat_le.mpr (by omega)), hsize, hlen]
      rw [Allowed, QueueOp.Fits]
      omega
  | consume n =>
      rw [Allowed, QueueOp.Fits, CircularBuffer.readable]
      omega

theorem Holds.touches (h : Holds cap r q) {op : QueueOp UInt8} (hop : r.Allowed op) :
    r.Touches op := by
  have hfits := (h.allowed_iff op).mp hop
  have hhalves := h.mirrored.halves
  have hsize := h.size
  have hpos := h.pos_lt
  have hlen := h.rings.fits
  cases op with
  | append xs =>
      have hptr := h.writePtr
      rw [QueueOp.Fits] at hfits
      rw [Touches, Inside]
      omega
  | consume n =>
      have hptr := h.readPtr
      rw [QueueOp.Fits] at hfits
      rw [Touches, Inside]
      omega

theorem setConsumed_pos {buf : CircularBuffer} {n : Nat}
    (hpos : buf.pos.toNat < buf.mapLen.toNat) (hn : n <= buf.mapLen.toNat) :
    (buf.setConsumed (.ofNat n)).pos.toNat =
      if buf.mapLen.toNat <= buf.pos.toNat + n then buf.pos.toNat + n - buf.mapLen.toNat
      else buf.pos.toNat + n := by
  have hhalf : buf.mapLen.toNat < 2 ^ 63 := by
    have hlt := buf.magicLen.toNat_lt
    rw [CircularBuffer.mapLen, UInt64.toNat_div]
    change buf.magicLen.toNat / 2 < 2 ^ 63
    omega
  have hsum : (buf.pos + .ofNat n).toNat = buf.pos.toNat + n := by
    rw [UInt64.toNat_add, UInt64.toNat_ofNat']
    omega
  simp only [CircularBuffer.setConsumed, ge_iff_le, UInt64.le_iff_toNat_le, hsum]
  split
  · rename_i hwrap
    rw [UInt64.toNat_sub_of_le _ _ (UInt64.le_iff_toNat_le.mpr (by omega)), hsum]
  · exact hsum

theorem Holds.react (h : Holds cap r q) {op : QueueOp UInt8} (hop : r.Allowed op) :
    (r.react op).1 = (queueReact cap q op).1 ∧
      Holds cap (r.react op).2 (queueReact cap q op).2 := by
  have hfits := (h.allowed_iff op).mp hop
  have hinside := h.touches hop
  have hsize := h.size
  have hpos := h.pos_lt
  have hlen := h.len
  have hroom := h.rings.fits
  have hhalves := h.mirrored.halves
  have hplaced := h.mirrored.placed
  cases op with
  | append xs =>
      rw [QueueOp.Fits] at hfits
      have hcount : (UInt64.ofNat xs.length).toNat = xs.length := by
        rw [UInt64.toNat_ofNat']
        omega
      rw [queueReact_append hfits, Ring.react,
        if_pos (show r.Inside r.buf.writePtr xs.length from hinside)]
      refine ⟨rfl, ⟨h.mirrored.size_pos, hhalves, hplaced⟩, hsize, hpos, ?_, ?_⟩
      · rw [CircularBuffer.setAppended, UInt64.toNat_add, hcount, List.length_append]
        omega
      · have happend := h.rings.append hfits
        rw [show r.buf.pos.toNat + q.length =
          r.buf.writePtr.toNat - r.buf.mapping.addr.toNat by rw [h.writePtr]; omega,
          ← hsize] at happend
        rw [← hsize]
        exact happend
  | consume n =>
      rw [QueueOp.Fits] at hfits
      have hcount : (UInt64.ofNat n).toNat = n := by
        rw [UInt64.toNat_ofNat']
        omega
      rw [queueReact_consume hfits, Ring.react,
        if_pos (show r.Inside r.buf.readPtr n from hinside)]
      have hnext := setConsumed_pos (show r.buf.pos.toNat < r.buf.mapLen.toNat by omega)
        (show n <= r.buf.mapLen.toNat by omega)
      refine ⟨?_, ⟨h.mirrored.size_pos, hhalves, hplaced⟩, hsize, ?_, ?_, ?_⟩
      · simp only
        rw [h.readPtr, Nat.add_sub_cancel_left, load, hsize, h.rings.taken hfits]
      · simp only
        rw [hnext]
        split <;> omega
      · simp only [CircularBuffer.setConsumed]
        rw [UInt64.toNat_sub_of_le _ _ (UInt64.le_iff_toNat_le.mpr (by omega)), hcount,
          List.length_drop, hlen]
      · simp only
        rw [hnext]
        split
        · rename_i hwrap
          rw [hsize] at hwrap ⊢
          exact (h.rings.consume hfits).unwrap hwrap
        · exact h.rings.consume hfits

end Ring

/-! The set-up maps twice what it was asked for, or fails. -/

theorem initCircBuffer_eq_ok {sys : CircSys} {map_pgs : PageCount} {buf : CircularBuffer}
    (h : initCircBuffer sys map_pgs = .ok buf) :
    exists base mfd, buf = .new base (.fromBytes (map_pgs.bytes64 * 2)) mfd ∧
      sys.mmap (rootArgs map_pgs.bytes64) = .ok base := by
  rw [initCircBuffer] at h
  split at h
  · cases h
  · rename_i base hbase
    split at h
    · cases h
    · rename_i mfd _
      split at h
      · cases h
      · split at h
        · cases h
        · split at h
          · cases h
          · split at h
            · cases h
            · split at h
              · cases h
              · exact ⟨base, mfd, (Except.ok.inj h).symm, hbase⟩

theorem fromBytes_twice (pgs : PageCount) :
    (PageCount.fromBytes (pgs.bytes64 * 2)).bytes64 = pgs.bytes64 * 2 ∧
      (pgs.bytes64 * 2).toNat = 2 * ((pgs.bytes64 * 2) / 2).toNat := by
  have hbytes : (pgs.bytes64 * 2).toNat = (pgs.toNat * 4096 % 2 ^ 64) * 2 % 2 ^ 64 := by
    rw [UInt64.toNat_mul, PageCount.bytes64, UInt64.toNat_mul]
    rfl
  have hhalf : ((pgs.bytes64 * 2) / 2).toNat = (pgs.bytes64 * 2).toNat / 2 :=
    UInt64.toNat_div _ _
  refine ⟨UInt64.toNat_inj.mp ?_, by omega⟩
  have hpages : (PageCount.fromBytes (pgs.bytes64 * 2)).toNat =
      (pgs.bytes64 * 2).toNat / 4096 := UInt64.toNat_div _ _
  have hback : (PageCount.fromBytes (pgs.bytes64 * 2)).bytes64.toNat =
      (PageCount.fromBytes (pgs.bytes64 * 2)).toNat * 4096 % 2 ^ 64 := UInt64.toNat_mul _ _
  omega

theorem Ring.holds_init {sys : CircSys} (hdoc : sys.Documented) (hempty : sys.RejectsEmpty)
    {map_pgs : PageCount} {buf : CircularBuffer}
    (hinit : initCircBuffer sys map_pgs = .ok buf) (mem : Nat -> UInt8) :
    Ring.Holds buf.mapLen.toNat ⟨buf, mem⟩ [] := by
  rcases initCircBuffer_eq_ok hinit with ⟨base, mfd, rfl, hbase⟩
  rcases fromBytes_twice map_pgs with ⟨hbytes, hhalves⟩
  have hloose : (rootArgs map_pgs.bytes64).isFixed = false := by
    change ((mapPrivate ||| mapAnonymous) &&& mapFixed != 0) = false
    decide
  rcases hdoc.chosen hloose rfl hbase with ⟨_, _, hplaced⟩
  obtain ⟨buf, hbuf⟩ : exists buf, buf = CircularBuffer.new base
      (.fromBytes (map_pgs.bytes64 * 2)) mfd := ⟨_, rfl⟩
  have hmagic : buf.magicLen = map_pgs.bytes64 * 2 := by
    rw [hbuf]
    exact hbytes
  have hmap : buf.mapLen = map_pgs.bytes64 * 2 / 2 := by rw [CircularBuffer.mapLen, hmagic]
  have hlen : (rootArgs map_pgs.bytes64).len = map_pgs.bytes64 * 2 := UInt64.mul_comm _ _
  have hpos : map_pgs.bytes64 * 2 ≠ 0 := by
    intro hzero
    rcases hempty _ (hlen.trans hzero) with ⟨err, herr⟩
    rw [herr] at hbase
    cases hbase
  have hnat : (map_pgs.bytes64 * 2).toNat ≠ 0 := fun hzero => hpos (UInt64.toNat_inj.mp hzero)
  rw [hlen] at hplaced
  rw [← hbuf]
  have haddr : buf.mapping.addr = base := by rw [hbuf]; rfl
  have hstart : buf.pos = 0 ∧ buf.len = 0 := by rw [hbuf]; exact ⟨rfl, rfl⟩
  have hsize : 0 < buf.mapLen.toNat := by
    rw [hmap]
    omega
  refine ⟨⟨hsize, ?_, ?_⟩, rfl, ?_, ?_, ⟨Nat.zero_le _, rfl⟩⟩
  · simp only
    rw [hmagic, hmap]
    exact hhalves
  · simp only
    rw [haddr, hmagic]
    exact hplaced
  · simp only
    rw [hstart.left]
    exact hsize
  · simp only
    rw [hstart.right]
    rfl

/-!
## The buffer acts as a queue
-/

def Ring.next (r : Ring) (op : QueueOp UInt8) : Ring :=
  (r.react op).2

structure ActsAsQueue (r : Ring) (ops : List (QueueOp UInt8)) : Prop where
  /-- The bounds hold before every operation, which touches nothing but the mapping. -/
  bounded : Along Ring.next (fun r op => r.Bounded ∧ r.Touches op) r ops
  final : (settle Ring.react r ops).Bounded
  /-- The queue refuses nothing, and gives out what the buffer does. -/
  accepted : Along (fun q op => (queueReact r.buf.mapLen.toNat q op).2)
    (fun q op => op.Fits r.buf.mapLen.toNat q) [] ops
  queue : observe Ring.react r ops = observe (queueReact r.buf.mapLen.toNat) [] ops
  /-- The bytes read and those that are still to be read are the bytes appended. -/
  bytes : given (observe Ring.react r ops) ++
      (settle Ring.react r ops).load (settle Ring.react r ops).buf.pos.toNat
        (settle Ring.react r ops).buf.readable.toNat =
    ops.flatMap QueueOp.brought

/--
However appends and reads of any size that the counters allow follow each other, the
circular buffer is a bounded queue of `map_len` bytes.
-/
theorem circularBuffer_queue {sys : CircSys} (hdoc : sys.Documented)
    (hempty : sys.RejectsEmpty) {map_pgs : PageCount} {buf : CircularBuffer}
    (hinit : initCircBuffer sys map_pgs = .ok buf) (mem : Nat -> UInt8)
    (ops : List (QueueOp UInt8)) (hops : Along Ring.next Ring.Allowed ⟨buf, mem⟩ ops) :
    ActsAsQueue ⟨buf, mem⟩ ops := by
  have hstart := Ring.holds_init hdoc hempty hinit mem
  obtain ⟨cap, hcap⟩ : exists cap, cap = buf.mapLen.toNat := ⟨_, rfl⟩
  rw [← hcap] at hstart
  have hbounds : Along Ring.next (fun r op => r.Bounded ∧ r.Touches op) ⟨buf, mem⟩ ops ∧ _ :=
    along_of_inv (fun r => exists q, Ring.Holds cap r q)
      (fun r op ⟨_, hr⟩ hop => ⟨⟨hr.bounded, hr.touches hop⟩, _, (hr.react hop).right⟩)
      ops ⟨buf, mem⟩ ⟨[], hstart⟩ hops
  have hstep : forall (r : Ring) q op, Ring.Holds cap r q -> r.Allowed op ->
      (r.react op).1 = (queueReact cap q op).1 ∧
        Ring.Holds cap (r.react op).2 (queueReact cap q op).2 :=
    fun r q op hr hop => hr.react hop
  have hsim : observe Ring.react ⟨buf, mem⟩ ops = observe (queueReact cap) [] ops ∧
      Ring.Holds cap (settle Ring.react ⟨buf, mem⟩ ops) (settle (queueReact cap) [] ops) :=
    observe_simulates hstep ops ⟨buf, mem⟩ [] hstart hops
  have haccepted : Along (fun q op => (queueReact cap q op).2)
      (fun q op => op.Fits cap q) [] ops :=
    along_simulates (fun r q op hr hop => (hstep r q op hr hop).right)
      (fun r q op hr hop => (hr.allowed_iff op).mp hop) ops ⟨buf, mem⟩ [] hstart hops
  rcases hsim with ⟨hqueue, hfinal⟩
  have hgiven := given_append_queue cap ops [] haccepted
  refine ⟨hbounds.left, hfinal.bounded, ?_, ?_, ?_⟩
  · rw [← hcap]
    exact haccepted
  · rw [← hcap]
    exact hqueue
  · rw [hqueue, CircularBuffer.readable, hfinal.len, Ring.load, hfinal.size,
      hfinal.rings.holds, hgiven, List.nil_append]

/-- A system that places mappings of reasonable size at one address. -/
def circSys : CircSys where
  mmap args :=
    if args.len = 0 then .error 22
    else if args.isFixed then .ok args.addr
    else if args.len.toNat < 2 ^ 40 then .ok 0x7f001000 else .error 12
  munmap _ _ := .ok ()
  memfdCreate := .ok 4
  ftruncate _ _ := .ok ()
  strerror _ := ""

theorem circSys_documented : circSys.Documented where
  fixed := by
    intro args addr hfixed hok
    simp only [circSys, hfixed, if_true] at hok
    split at hok
    · cases hok
    · exact (Except.ok.inj hok).symm
  chosen := by
    intro args addr hfixed _ hok
    simp only [circSys, hfixed, Bool.false_eq_true, if_false] at hok
    split at hok
    · cases hok
    · split at hok
      · rename_i hlen
        cases hok
        refine ⟨by decide, by decide, ?_⟩
        have haddr : (0x7f001000 : UInt64).toNat = 0x7f001000 := rfl
        omega
      · cases hok

/-- One page: ten bytes that begin six bytes before its end, when it was full once. -/
theorem circularBuffer_queue_page :
    ActsAsQueue ⟨.new 0x7f001000 2 4, fun _ => 0⟩
      [.append (List.replicate 4096 7), .consume 4090,
        .append [0, 1, 2, 3, 4, 5, 6, 7, 8, 9], .consume 16] :=
  circularBuffer_queue circSys_documented (fun _ hlen => ⟨22, if_pos hlen⟩)
    (show initCircBuffer circSys 1 = .ok (.new 0x7f001000 2 4) from rfl) _ _
    (by
      refine ⟨?_, ?_, ?_, ?_, trivial⟩
      all_goals decide +kernel)

end MgKdb
