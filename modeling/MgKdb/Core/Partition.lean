import MgKdb.Core.MapTypes
import MgKdb.Foundation.Run

/-!
# The pages of a reservation

An active mapping and what remains of its reservation share out the pages that were
reserved, as long as nobody asks for the very end of the reservation.
-/

namespace MgKdb

open Foundation

/-!
## Page arithmetic
-/

theorem PageCount.toNat_bytes64 (ct : PageCount) :
    ct.bytes64.toNat = ct.toNat * 4096 % 2 ^ 64 := by
  rw [PageCount.bytes64, UInt64.toNat_mul]
  rfl

theorem PageCount.toNat_fromBytesAlignUp {ext : Extent} (h : ext.toNat + 4096 < 2 ^ 64) :
    (PageCount.fromBytesAlignUp ext).toNat = ext.toNat / 4096 + 1 := by
  have hpg : PageCount.pgSz.toNat = 4096 := rfl
  rw [PageCount.fromBytesAlignUp, UInt64.toNat_div, UInt64.toNat_add, hpg]
  omega

theorem Address.toNat_difference {lhs rhs : Address} (h : lhs.toNat < rhs.toNat) :
    (lhs.difference rhs).toNat = rhs.toNat - lhs.toNat := by
  rw [Address.difference, if_pos (UInt64.lt_iff_toNat_lt.mpr h),
    UInt64.toNat_sub_of_le _ _ (UInt64.le_iff_toNat_le.mpr (Nat.le_of_lt h))]

theorem or_mapFixed (flags : Int32) : (mapFixed ||| flags) &&& mapFixed = mapFixed := by
  apply Int32.toBitVec_inj.mp
  rw [Int32.toBitVec_and, Int32.toBitVec_or]
  ext i
  rw [BitVec.getElem_and, BitVec.getElem_or, Bool.and_comm]
  cases mapFixed.toBitVec[i] <;> rfl

/-!
## What a call can do
-/

namespace ReservedMapping

def grown (m : ReservedMapping) (ct : PageCount) : ReservedMapping where
  resv := { m.resv with addr := m.resv.addr + ct.bytes64, pages := m.resv.pages - ct }
  actv := { m.actv with pages := m.actv.pages + ct }

def wanted (m : ReservedMapping) (addr : Address) : PageCount :=
  PageCount.fromBytesAlignUp (m.actv.endAddr.difference addr)

theorem extend_cases (sys : Sys) {m : ReservedMapping} (addr : Address)
    (hfixed : m.actv.flags &&& mapFixed ≠ 0) :
    (addr <= m.actv.endAddr ∧ m.extendActiveToInclude sys addr = (0, m, [])) ∨
      (m.actv.endAddr < addr ∧
        (m.extendActiveToInclude sys addr =
            (-1, m, [m.actv.stealArgs m.resv (m.wanted addr)]) ∨
          m.extendActiveToInclude sys addr = (0, m.grown (m.wanted addr),
            [m.actv.stealArgs m.resv (m.wanted addr)]))) := by
  rw [extendActiveToInclude]
  by_cases hend : m.actv.endAddr >= addr
  · rw [if_pos hend]
    exact Or.inl ⟨hend, rfl⟩
  · rw [if_neg hend, Mapping.stealHeadPages,
      if_neg (by rw [Int32.and_comm]; exact hfixed)]
    refine Or.inr ⟨UInt64.not_le.mp hend, ?_⟩
    split
    · exact Or.inl rfl
    · exact Or.inr rfl

end ReservedMapping

/-!
## The invariant
-/

structure Placed (base : Address) (resv : PageCount) : Prop where
  pos : 0 < base.toNat
  aligned : 4096 ∣ base.toNat
  room : base.toNat + resv.bytes64.toNat < 2 ^ 64

structure Shared (base : Address) (resv : PageCount) (m : ReservedMapping) : Prop where
  head : m.actv.addr = base
  fixed : m.actv.flags &&& mapFixed ≠ 0
  within : m.actv.pages.bytes64.toNat <= resv.bytes64.toNat
  adjacent : m.resv.addr.toNat = base.toNat + m.actv.pages.bytes64.toNat
  total : m.actv.pages.toNat + m.resv.pages.toNat = resv.toNat
  left : (resv.bytes64.toNat - m.actv.pages.bytes64.toNat) / 4096 <= m.resv.pages.toNat

theorem Shared.toNat_endAddr {base : Address} {resv : PageCount} {m : ReservedMapping}
    (h : Shared base resv m) (hplaced : Placed base resv) :
    m.actv.endAddr.toNat = base.toNat + m.actv.pages.bytes64.toNat := by
  have hroom := hplaced.room
  have hpos := hplaced.pos
  have hwithin := h.within
  have hne : ¬ base = 0 := by
    intro hzero
    rw [hzero] at hpos
    exact absurd hpos (by decide)
  rw [Mapping.endAddr, h.head, if_neg hne, UInt64.toNat_add]
  omega

structure Request where
  sys : Sys
  addr : Address

namespace ReservedMapping

def after (m : ReservedMapping) (req : Request) : ReservedMapping :=
  (m.extendActiveToInclude req.sys req.addr).2.1

/-- The address asked for is the end of the reservation, and not all of it is active. -/
def AsksForEnd (base : Address) (resv : PageCount) (m : ReservedMapping) (req : Request) :
    Prop :=
  m.actv.endAddr < req.addr ∧ req.addr.toNat = base.toNat + resv.bytes64.toNat

end ReservedMapping

def Inside (base : Address) (resv : PageCount) (issued : List MmapArgs) : Prop :=
  forall args, args ∈ issued -> args.isFixed = true ->
    base.toNat <= args.addr.toNat ∧
      args.addr.toNat + args.len.toNat <= base.toNat + resv.bytes64.toNat

structure Partition (resv : PageCount) (m : ReservedMapping) : Prop where
  adjacent : m.actv.endAddr = m.resv.addr
  total : m.actv.pages.toNat + m.resv.pages.toNat = resv.toNat

structure Extends (base : Address) (resv : PageCount) (m : ReservedMapping)
    (req : Request) : Prop where
  partition : Partition resv (m.after req)
  inside : Inside base resv (m.extendActiveToInclude req.sys req.addr).2.2
  included : (m.extendActiveToInclude req.sys req.addr).1 = 0 ->
    req.addr <= (m.after req).actv.endAddr
  unchanged : (m.extendActiveToInclude req.sys req.addr).1 ≠ 0 -> m.after req = m

section Extension

variable {base : Address} {resv : PageCount} {m : ReservedMapping} {req : Request}

theorem Shared.partition (h : Shared base resv m) (hplaced : Placed base resv) :
    Partition resv m where
  adjacent := by
    apply UInt64.toNat_inj.mp
    rw [h.toNat_endAddr hplaced, h.adjacent]
  total := h.total

theorem Shared.toNat_wanted (h : Shared base resv m) (hplaced : Placed base resv)
    (hlt : m.actv.endAddr < req.addr)
    (hle : req.addr.toNat <= base.toNat + resv.bytes64.toNat) :
    (m.wanted req.addr).toNat = (req.addr.toNat - m.actv.endAddr.toNat) / 4096 + 1 ∧
      (m.wanted req.addr).bytes64.toNat =
        ((req.addr.toNat - m.actv.endAddr.toNat) / 4096 + 1) * 4096 := by
  have hlt' := UInt64.lt_iff_toNat_lt.mp hlt
  have hend := h.toNat_endAddr hplaced
  have hdiff := Address.toNat_difference hlt'
  rcases hplaced with ⟨hpos, haligned, hroom⟩
  have hct : (m.wanted req.addr).toNat =
      (req.addr.toNat - m.actv.endAddr.toNat) / 4096 + 1 := by
    rw [ReservedMapping.wanted, PageCount.toNat_fromBytesAlignUp (by omega), hdiff]
  refine ⟨hct, ?_⟩
  rw [PageCount.toNat_bytes64, hct]
  omega

theorem Shared.grown (h : Shared base resv m) (hplaced : Placed base resv)
    {ct : PageCount} (hbytes : ct.bytes64.toNat = ct.toNat * 4096)
    (hleft : m.actv.pages.bytes64.toNat + ct.bytes64.toNat <= resv.bytes64.toNat) :
    Shared base resv (m.grown ct) := by
  rcases h with ⟨hbase, hfixed, hwithin, hadjacent, htotal, hrest⟩
  have hroom := hplaced.room
  have hresv := resv.toNat_lt
  have hmultiple := PageCount.toNat_bytes64 resv
  have hactive := PageCount.toNat_bytes64 m.actv.pages
  have hpages : (m.actv.pages + ct).toNat = m.actv.pages.toNat + ct.toNat := by
    rw [UInt64.toNat_add]
    omega
  have hgrown : (m.actv.pages + ct : PageCount).bytes64.toNat =
      m.actv.pages.bytes64.toNat + ct.bytes64.toNat := by
    rw [PageCount.toNat_bytes64 (m.actv.pages + ct), hpages]
    omega
  have hdonor : (m.resv.pages - ct).toNat = m.resv.pages.toNat - ct.toNat := by
    apply UInt64.toNat_sub_of_le
    apply UInt64.le_iff_toNat_le.mpr
    omega
  refine ⟨hbase, hfixed, ?_, ?_, ?_, ?_⟩
  · show (m.actv.pages + ct : PageCount).bytes64.toNat <= _
    omega
  · show (m.resv.addr + ct.bytes64).toNat =
      base.toNat + (m.actv.pages + ct : PageCount).bytes64.toNat
    rw [UInt64.toNat_add]
    omega
  · show (m.actv.pages + ct).toNat + (m.resv.pages - ct).toNat = _
    omega
  · show (resv.bytes64.toNat - (m.actv.pages + ct : PageCount).bytes64.toNat) / 4096 <=
      (m.resv.pages - ct).toNat
    omega

theorem Shared.wanted_left (h : Shared base resv m) (hplaced : Placed base resv)
    (hlt : m.actv.endAddr < req.addr)
    (hle : req.addr.toNat < base.toNat + resv.bytes64.toNat) :
    m.actv.pages.bytes64.toNat + (m.wanted req.addr).bytes64.toNat <=
      resv.bytes64.toNat := by
  rcases h.toNat_wanted hplaced hlt (Nat.le_of_lt hle) with ⟨_, hbytes⟩
  have hlt' := UInt64.lt_iff_toNat_lt.mp hlt
  have hend := h.toNat_endAddr hplaced
  have hmultiple := PageCount.toNat_bytes64 resv
  have hactive := PageCount.toNat_bytes64 m.actv.pages
  omega

theorem Shared.wanted_end (h : Shared base resv m) (hplaced : Placed base resv)
    (hend : m.AsksForEnd base resv req) :
    base.toNat + resv.bytes64.toNat < m.resv.addr.toNat +
      (m.wanted req.addr).bytes64.toNat := by
  rcases hend with ⟨hlt, heq⟩
  rcases h.toNat_wanted hplaced hlt (Nat.le_of_eq heq) with ⟨_, hbytes⟩
  have hlt' := UInt64.lt_iff_toNat_lt.mp hlt
  have hstop := h.toNat_endAddr hplaced
  have hadjacent := h.adjacent
  omega

theorem Shared.isFixed (h : Shared base resv m) (ct : PageCount) :
    (m.actv.stealArgs m.resv ct).isFixed = true :=
  bne_iff_ne.mpr h.fixed

theorem Shared.inside (h : Shared base resv m) {ct : PageCount}
    (hleft : m.actv.pages.bytes64.toNat + ct.bytes64.toNat <= resv.bytes64.toNat) :
    Inside base resv [m.actv.stealArgs m.resv ct] := by
  intro args hargs _
  cases List.mem_singleton.mp hargs
  show base.toNat <= m.resv.addr.toNat ∧ m.resv.addr.toNat + ct.bytes64.toNat <= _
  have hadjacent := h.adjacent
  omega

theorem Shared.extends (h : Shared base resv m) (hplaced : Placed base resv)
    (hle : req.addr.toNat <= base.toNat + resv.bytes64.toNat)
    (hend : ¬ m.AsksForEnd base resv req) :
    Extends base resv m req ∧ Shared base resv (m.after req) := by
  rcases m.extend_cases req.sys req.addr h.fixed with ⟨hreached, hout⟩ | ⟨hlt, hout⟩
  · have hafter : m.after req = m := by rw [ReservedMapping.after, hout]
    rw [hafter]
    refine ⟨⟨?_, ?_, ?_, ?_⟩, h⟩
    · rw [hafter]
      exact h.partition hplaced
    · rw [hout]
      exact fun args hargs => absurd hargs List.not_mem_nil
    · rw [hafter]
      exact fun _ => hreached
    · exact fun _ => hafter
  · have hshort : req.addr.toNat < base.toNat + resv.bytes64.toNat := by
      have hne : req.addr.toNat ≠ base.toNat + resv.bytes64.toNat :=
        fun heq => hend ⟨hlt, heq⟩
      omega
    have hleft := h.wanted_left hplaced hlt hshort
    rcases h.toNat_wanted hplaced hlt hle with ⟨hct, hbytes⟩
    have hgrown := h.grown hplaced (by rw [hbytes, hct]) hleft
    rcases hout with hout | hout
    · have hafter : m.after req = m := by rw [ReservedMapping.after, hout]
      rw [hafter]
      refine ⟨⟨?_, ?_, ?_, ?_⟩, h⟩
      · rw [hafter]
        exact h.partition hplaced
      · rw [hout]
        exact h.inside hleft
      · rw [hout]
        exact fun hzero => absurd hzero (show (-1 : Int32) ≠ 0 by decide)
      · exact fun _ => hafter
    · have hafter : m.after req = m.grown (m.wanted req.addr) := by
        rw [ReservedMapping.after, hout]
      rw [hafter]
      refine ⟨⟨?_, ?_, ?_, ?_⟩, hgrown⟩
      · rw [hafter]
        exact hgrown.partition hplaced
      · rw [hout]
        exact h.inside hleft
      · intro _
        rw [hafter]
        apply UInt64.le_iff_toNat_le.mpr
        rw [hgrown.toNat_endAddr hplaced]
        have hstop := h.toNat_endAddr hplaced
        have hpages := hgrown.adjacent
        have hdonor : (m.grown (m.wanted req.addr)).resv.addr.toNat =
            m.resv.addr.toNat + (m.wanted req.addr).bytes64.toNat := by
          show (m.resv.addr + (m.wanted req.addr).bytes64).toNat = _
          have hroom := hplaced.room
          have hadjacent := h.adjacent
          rw [UInt64.toNat_add]
          omega
        have hadjacent := h.adjacent
        omega
      · rw [hout]
        exact fun hne => absurd rfl hne

theorem Shared.not_extends (h : Shared base resv m) (hplaced : Placed base resv)
    (hend : m.AsksForEnd base resv req) : ¬ Extends base resv m req := by
  intro hextends
  have hout := h.wanted_end hplaced hend
  rcases m.extend_cases req.sys req.addr h.fixed with ⟨hreached, _⟩ | ⟨_, hcall⟩
  · exact absurd hend.left (UInt64.not_lt.mpr hreached)
  · have hmem : m.actv.stealArgs m.resv (m.wanted req.addr) ∈
        (m.extendActiveToInclude req.sys req.addr).2.2 := by
      rcases hcall with hcall | hcall <;> rw [hcall] <;> exact List.mem_singleton_self _
    have hinside := (hextends.inside _ hmem (h.isFixed _)).right
    change m.resv.addr.toNat + (m.wanted req.addr).bytes64.toNat <= _ at hinside
    omega

end Extension

/-!
## Runs
-/

/-- The call that turns the head of a reservation into the active mapping. -/
def allocArgs (base : Address) (alloc : PageCount) (prot flags fd : Int32) (off : Int64) :
    MmapArgs :=
  ⟨base, alloc.bytes64, prot, mapFixed ||| flags, fd, off⟩

theorem allocArgs_isFixed (base : Address) (alloc : PageCount) (prot flags fd : Int32)
    (off : Int64) : (allocArgs base alloc prot flags fd off).isFixed = true := by
  rw [MmapArgs.isFixed, allocArgs, or_mapFixed]
  decide

theorem reservationArgs_isFixed (resv : PageCount) :
    (Mapping.reservationArgs resv).isFixed = false := by
  show ((mapAnonymous ||| mapPrivate ||| mapNoreserve) &&& mapFixed != 0) = false
  decide

section Reservation

variable {sys : Sys} {pair m : ReservedMapping} {resv alloc : PageCount}
  {prot flags fd : Int32} {off : Int64} {issued : List MmapArgs} {base : Address}

theorem placed_of_mmap (hsys : sys.Documented)
    (hbase : sys.mmap (Mapping.reservationArgs resv) = .ok base) : Placed base resv := by
  rcases hsys.chosen (reservationArgs_isFixed resv) rfl hbase with ⟨hne, haligned, hroom⟩
  refine ⟨?_, haligned, hroom⟩
  have hnat : base.toNat ≠ 0 := fun h => hne (UInt64.toNat_inj.mp h)
  omega

theorem reserveAndAlloc_spec (hsys : sys.Documented)
    (hbase : sys.mmap (Mapping.reservationArgs resv) = .ok base)
    (h : pair.reserveAndAlloc sys resv alloc prot flags fd off = (0, m, issued)) :
    issued = [Mapping.reservationArgs resv, allocArgs base alloc prot flags fd off] ∧
      m.actv = ⟨base, alloc, prot, mapFixed ||| flags, fd, off⟩ ∧
      m.resv.addr = base + alloc.bytes64 ∧ m.resv.pages = resv - alloc := by
  rw [ReservedMapping.reserveAndAlloc, Mapping.createReservation] at h
  simp only [hbase, ne_eq, not_true_eq_false, if_false] at h
  rw [Mapping.createMappingFromResv] at h
  cases hcall : sys.mmap (allocArgs base alloc prot flags fd off) with
  | error err =>
      rw [allocArgs] at hcall
      simp only [hcall] at h
      rw [if_pos (by decide)] at h
      exact absurd (congrArg Prod.fst h) (show (-1 : Int32) ≠ 0 by decide)
  | ok addr =>
      cases hsys.fixed (allocArgs_isFixed base alloc prot flags fd off) hcall
      rw [allocArgs] at hcall
      simp only [hcall, not_true_eq_false, if_false] at h
      cases h
      exact ⟨rfl, rfl, rfl, rfl⟩

theorem inside_reserveAndAlloc :
    Inside base resv
        [Mapping.reservationArgs resv, allocArgs base alloc prot flags fd off] <->
      alloc.bytes64 <= resv.bytes64 := by
  rw [UInt64.le_iff_toNat_le]
  constructor
  · intro h
    have hargs := (h _ (by simp) (allocArgs_isFixed base alloc prot flags fd off)).right
    change base.toNat + alloc.bytes64.toNat <= _ at hargs
    omega
  · intro h args hargs hfixed
    rcases List.mem_cons.mp hargs with rfl | hargs
    · rw [reservationArgs_isFixed] at hfixed
      cases hfixed
    · cases List.mem_singleton.mp hargs
      show base.toNat <= base.toNat ∧ base.toNat + alloc.bytes64.toNat <= _
      omega

theorem shared_reserveAndAlloc (hplaced : Placed base resv) (halloc : alloc <= resv)
    (hbytes : alloc.bytes64 <= resv.bytes64)
    (hactv : m.actv = ⟨base, alloc, prot, mapFixed ||| flags, fd, off⟩)
    (haddr : m.resv.addr = base + alloc.bytes64) (hpages : m.resv.pages = resv - alloc) :
    Shared base resv m := by
  have hroom := hplaced.room
  have hresv := PageCount.toNat_bytes64 resv
  have hact := PageCount.toNat_bytes64 alloc
  have hsub := UInt64.toNat_sub_of_le _ _ halloc
  rw [UInt64.le_iff_toNat_le] at halloc hbytes
  refine ⟨?_, ?_, ?_, ?_, ?_, ?_⟩
  · rw [hactv]
  · rw [hactv, or_mapFixed]
    decide
  · rw [hactv]
    exact hbytes
  · rw [hactv, haddr, UInt64.toNat_add]
    show _ = base.toNat + alloc.bytes64.toNat
    omega
  · rw [hactv, hpages, hsub]
    show alloc.toNat + _ = _
    omega
  · rw [hactv, hpages, hsub]
    show (resv.bytes64.toNat - alloc.bytes64.toNat) / 4096 <= _
    omega

/--
Every call leaves the two mappings adjacent with the reserved pages between them, maps
nothing outside the reservation, includes the address on success and changes nothing on
failure, exactly as long as nobody asks for the end of the reservation before all of it is
active; the pages allocated first must have room in it.
-/
theorem extensions_exact (hsys : sys.Documented) (halloc : alloc <= resv)
    (hbase : sys.mmap (Mapping.reservationArgs resv) = .ok base)
    (hnew : pair.reserveAndAlloc sys resv alloc prot flags fd off = (0, m, issued))
    (reqs : List Request)
    (hreqs : forall req, req ∈ reqs ->
      req.addr.toNat <= base.toNat + resv.bytes64.toNat) :
    (Inside base resv issued ∧ Partition resv m ∧
        Along ReservedMapping.after (Extends base resv) m reqs) <->
      (alloc.bytes64 <= resv.bytes64 ∧
        Along ReservedMapping.after (fun m req => ¬ m.AsksForEnd base resv req) m reqs) := by
  have hplaced := placed_of_mmap hsys hbase
  rcases reserveAndAlloc_spec hsys hbase hnew with ⟨rfl, hactv, haddr, hpages⟩
  rw [inside_reserveAndAlloc]
  have hrun : alloc.bytes64 <= resv.bytes64 ->
      (Along ReservedMapping.after (Extends base resv) m reqs <->
        Along ReservedMapping.after (fun m req => ¬ m.AsksForEnd base resv req) m reqs) := by
    intro hbytes
    refine along_iff (Shared base resv) ?_ ?_ m
      (shared_reserveAndAlloc hplaced halloc hbytes hactv haddr hpages)
    · intro s req hreq hs
      exact ⟨fun hgood hend => hs.not_extends hplaced hend hgood,
        fun hend => (hs.extends hplaced (hreqs req hreq) hend).left⟩
    · intro s req hreq hs hend
      exact (hs.extends hplaced (hreqs req hreq) hend).right
  constructor
  · rintro ⟨hbytes, _, hall⟩
    exact ⟨hbytes, (hrun hbytes).mp hall⟩
  · rintro ⟨hbytes, hall⟩
    have hshared := shared_reserveAndAlloc hplaced halloc hbytes hactv haddr hpages
    exact ⟨hbytes, hshared.partition hplaced, (hrun hbytes).mpr hall⟩

end Reservation

/-- A system that places every reservation of reasonable size at one address. -/
def roomySys : Sys where
  mmap args :=
    if args.isFixed then .ok args.addr
    else if args.len.toNat < 2 ^ 40 then .ok 0x7f000000 else .error 12
  munmap _ _ := .ok ()

theorem roomySys_documented : roomySys.Documented where
  fixed := by
    intro args addr hfixed hok
    simp only [roomySys, hfixed, if_true] at hok
    exact (Except.ok.inj hok).symm
  chosen := by
    intro args addr hfixed _ hok
    simp only [roomySys, hfixed, Bool.false_eq_true, if_false] at hok
    split at hok
    · rename_i hlen
      cases hok
      refine ⟨by decide, by decide, ?_⟩
      have haddr : (0x7f000000 : UInt64).toNat = 0x7f000000 := rfl
      omega
    · cases hok

/-- Ten pages with one active, and one more asked for. -/
theorem extensions_exact_inner :
    exists m issued,
      ReservedMapping.reserveAndAlloc roomySys ⟨.empty, .empty⟩ 10 1 3 2 4 0 =
        (0, m, issued) ∧
      ((Inside 0x7f000000 10 issued ∧ Partition 10 m ∧
          Along ReservedMapping.after (Extends 0x7f000000 10) m
            [⟨roomySys, 0x7f001001⟩]) <->
        (PageCount.bytes64 1 <= PageCount.bytes64 10 ∧
          Along ReservedMapping.after
            (fun m req => ¬ m.AsksForEnd 0x7f000000 10 req) m [⟨roomySys, 0x7f001001⟩])) :=
  ⟨_, _, rfl, extensions_exact roomySys_documented (by decide) rfl
    (show ReservedMapping.reserveAndAlloc roomySys ⟨.empty, .empty⟩ 10 1 3 2 4 0 =
      (0, _, _) from rfl)
    [⟨roomySys, 0x7f001001⟩] (by simp; decide)⟩

/--
Ten pages with one active, and the end of the tenth asked for: ten more pages are mapped,
one of them behind the reservation, and the count of what is left of it wraps around.
-/
theorem extensions_exact_end :
    exists m issued,
      ReservedMapping.reserveAndAlloc roomySys ⟨.empty, .empty⟩ 10 1 3 2 4 0 =
        (0, m, issued) ∧
      (m.extendActiveToInclude roomySys 0x7f00a000).1 = 0 ∧
      (m.extendActiveToInclude roomySys 0x7f00a000).2.1.resv.pages.toNat = 2 ^ 64 - 1 ∧
      ¬ Inside 0x7f000000 10 (m.extendActiveToInclude roomySys 0x7f00a000).2.2 ∧
      ¬ Along ReservedMapping.after (Extends 0x7f000000 10) m [⟨roomySys, 0x7f00a000⟩] := by
  refine ⟨_, _, rfl, by decide, by decide, ?_, ?_⟩
  · intro h
    have hargs := (h _ (List.mem_singleton_self _) (by decide)).right
    exact absurd hargs (by decide)
  · intro h
    exact absurd h.left.partition.total (by decide)

end MgKdb
