import MgKdb.Core.Partition

/-!
# The view of a file

The active mapping of a reservation is made of the pieces that one call of `mmap` after
the other placed.  Where it is backed by a file, the pieces make up one view of the file.
-/

namespace MgKdb

open Foundation

/-- What the pages of the address space are mapped to: a file and an offset in it. -/
abbrev PageTable := Nat -> Option (Int32 × Int)

namespace PageTable

/-- A call of `mmap` has mapped pages from an address on. -/
def mapped (table : PageTable) (addr : Address) (args : MmapArgs) : PageTable :=
  fun page =>
    if addr.toNat <= page ∧ page < addr.toNat + args.len.toNat then
      if 0 <= args.fd ∧ args.flags &&& mapAnonymous = 0 then
        some (args.fd, args.offset.toInt + ((page - addr.toNat : Nat) : Int))
      else none
    else table page

def after (table : PageTable) (sys : Sys) (issued : List MmapArgs) : PageTable :=
  issued.foldl (fun table args =>
    match sys.mmap args with
    | .ok addr => table.mapped addr args
    | .error _ => table) table

theorem mapped_of_file {table : PageTable} {addr : Address} (args : MmapArgs)
    (hfile : 0 <= args.fd ∧ args.flags &&& mapAnonymous = 0) {x : Nat}
    (hx : x < args.len.toNat) :
    table.mapped addr args (addr.toNat + x) = some (args.fd, args.offset.toInt + x) := by
  rw [mapped, if_pos (by omega), if_pos hfile, Nat.add_sub_cancel_left]

theorem mapped_outside {table : PageTable} {addr : Address} {args : MmapArgs} {page : Nat}
    (h : page < addr.toNat) : table.mapped addr args page = table page := by
  rw [mapped, if_neg (by omega)]

theorem after_singleton {table : PageTable} {sys : Sys} {args : MmapArgs} {addr : Address}
    (h : sys.mmap args = .ok addr) : table.after sys [args] = table.mapped addr args := by
  rw [after, List.foldl_cons, List.foldl_nil, h]

end PageTable

/--
What the manual says of the offsets of a file: what is mapped of it begins within the file
and ends within the largest offset that there is.
-/
def Sys.ChecksRange (sys : Sys) : Prop :=
  forall args addr, 0 <= args.fd -> args.flags &&& mapAnonymous = 0 ->
    sys.mmap args = .ok addr ->
    0 <= args.offset.toInt ∧ args.offset.toInt + args.len.toNat < 2 ^ 63

def Mapping.held (m : Mapping) : Nat :=
  m.pages.bytes64.toNat / 4096

/-- A call that extends the active mapping, with the outcomes of its system calls. -/
inductive Extension where
  | steal (sys : Sys) (ct : PageCount)
  | toInclude (sys : Sys) (addr : Address)

namespace Extension

def sys : Extension -> Sys
  | steal sys _ => sys
  | toInclude sys _ => sys

def call (m : ReservedMapping) : Extension -> Int32 × ReservedMapping × List MmapArgs
  | steal sys ct =>
      let out := m.actv.stealHeadPages sys m.resv ct
      (out.1, ⟨out.2.1.2, out.2.1.1⟩, out.2.2)
  | toInclude sys addr => m.extendActiveToInclude sys addr

def taken (m : ReservedMapping) : Extension -> Nat
  | steal _ ct => ct.toNat
  | toInclude _ addr => if m.actv.endAddr >= addr then 0 else (m.wanted addr).toNat

end Extension

structure View where
  m : ReservedMapping
  table : PageTable

namespace View

def extend (v : View) (x : Extension) : View :=
  ⟨(x.call v.m).2.1, v.table.after x.sys (x.call v.m).2.2⟩

structure Succeeds (v : View) (x : Extension) : Prop where
  documented : x.sys.Documented
  checks : x.sys.ChecksRange
  taken : x.taken v.m <= v.m.resv.held
  success : (x.call v.m).1 = 0

def Grants (v : View) (x : Extension) : Prop :=
  (v.extend x).m.actv.pages.toNat = v.m.actv.pages.toNat + x.taken v.m

structure Contiguous (v : View) : Prop where
  pages : forall k, k < v.m.actv.pages.toNat ->
    v.table (v.m.actv.addr.toNat + 4096 * k) =
      some (v.m.actv.fd, v.m.actv.offset.toInt + 4096 * k)
  donor : v.m.resv.addr = v.m.actv.endAddr

end View

/-!
## The invariant
-/

structure Backed (base : Address) (resv : PageCount) (v : View) : Prop where
  shared : Shared base resv v.m
  whole : v.m.actv.pages.bytes64.toNat = v.m.actv.pages.toNat * 4096
  file : 0 <= v.m.actv.fd ∧ v.m.actv.flags &&& mapAnonymous = 0
  low : 0 <= v.m.actv.offset.toInt
  high : v.m.actv.offset.toInt + v.m.actv.pages.toNat * 4096 < 2 ^ 63
  pages : forall k, k < v.m.actv.pages.toNat ->
    v.table (base.toNat + 4096 * k) = some (v.m.actv.fd, v.m.actv.offset.toInt + 4096 * k)

section Extension

variable {base : Address} {resv : PageCount} {v : View} {x : Extension}

theorem Backed.contiguous (h : Backed base resv v) (hplaced : Placed base resv) :
    v.Contiguous where
  pages := by
    rw [h.shared.head]
    exact h.pages
  donor := (h.shared.partition hplaced).adjacent.symm

theorem stealHeadPages_ok {sys : Sys} {m donor : Mapping} {ct : PageCount}
    (hok : (m.stealHeadPages sys donor ct).1 = 0) :
    (exists addr, sys.mmap (m.stealArgs donor ct) = .ok addr) ∧
      m.stealHeadPages sys donor ct =
        (0, ({ m with pages := m.pages + ct },
          { donor with addr := donor.addr + ct.bytes64, pages := donor.pages - ct }),
          [m.stealArgs donor ct]) := by
  rw [Mapping.stealHeadPages] at hok ⊢
  by_cases hflags : mapFixed &&& m.flags = 0
  · rw [if_pos hflags] at hok
    exact absurd hok (show (-1 : Int32) ≠ 0 by decide)
  · rw [if_neg hflags] at hok ⊢
    cases hcall : sys.mmap (m.stealArgs donor ct) with
    | error e =>
        rw [hcall] at hok
        exact absurd hok (show (-1 : Int32) ≠ 0 by decide)
    | ok addr => exact ⟨⟨addr, rfl⟩, rfl⟩

theorem call_cases (hok : (x.call v.m).1 = 0) :
    (x.taken v.m = 0 ∧ x.call v.m = (0, v.m, [])) ∨
      exists ct addr, x.taken v.m = ct.toNat ∧
        x.sys.mmap (v.m.actv.stealArgs v.m.resv ct) = .ok addr ∧
        x.call v.m = (0, v.m.grown ct, [v.m.actv.stealArgs v.m.resv ct]) := by
  cases x with
  | steal sys ct =>
      rcases stealHeadPages_ok hok with ⟨⟨addr, hcall⟩, hout⟩
      refine Or.inr ⟨ct, addr, rfl, hcall, ?_⟩
      rw [Extension.call, hout]
      rfl
  | toInclude sys addr =>
      rw [Extension.call, ReservedMapping.extendActiveToInclude] at *
      by_cases hend : v.m.actv.endAddr >= addr
      · rw [if_pos hend]
        exact Or.inl ⟨if_pos hend, rfl⟩
      · rw [if_neg hend] at hok ⊢
        rcases stealHeadPages_ok hok with ⟨⟨found, hcall⟩, hout⟩
        refine Or.inr ⟨_, found, if_neg hend, hcall, ?_⟩
        simp only
        rw [hout]
        rfl

theorem Backed.left (h : Backed base resv v) {ct : PageCount}
    (hct : ct.toNat <= v.m.resv.held) :
    ct.bytes64.toNat = ct.toNat * 4096 ∧
      v.m.actv.pages.bytes64.toNat + ct.bytes64.toNat <= resv.bytes64.toNat := by
  have hdonor := PageCount.toNat_bytes64 v.m.resv.pages
  have hresv := PageCount.toNat_bytes64 resv
  have hbytes := PageCount.toNat_bytes64 ct
  have hwhole := h.whole
  have htotal := h.shared.total
  have hwithin := h.shared.within
  rw [Mapping.held] at hct
  constructor
  · omega
  · omega

theorem toInt_offset {bytes : UInt64} {off : Int64} (hlow : 0 <= off.toInt)
    (hhigh : off.toInt + bytes.toNat < 2 ^ 63) :
    (bytes + off.toUInt64).toInt64.toInt = off.toInt + bytes.toNat := by
  have hbytes : bytes.toBitVec.toInt = bytes.toNat := by
    rw [BitVec.toInt_eq_toNat_of_lt]
    · rfl
    · show 2 * bytes.toNat < 2 ^ 64
      omega
  calc (bytes + off.toUInt64).toInt64.toInt
    _ = (bytes.toBitVec + off.toBitVec).toInt := rfl
    _ = (bytes.toNat + off.toInt).bmod (2 ^ 64) := by
        rw [BitVec.toInt_add, hbytes]
        rfl
    _ = off.toInt + bytes.toNat := by
        rw [Int.bmod_eq_of_le (by omega) (by omega), Int.add_comm]

theorem Backed.toInt_stealArgs (h : Backed base resv v) (ct : PageCount) :
    (v.m.actv.stealArgs v.m.resv ct).offset.toInt =
      v.m.actv.offset.toInt + v.m.actv.pages.toNat * 4096 := by
  have hwhole := h.whole
  have hhigh := h.high
  rw [Mapping.stealArgs, if_pos h.file.left, toInt_offset h.low (by omega)]
  omega

theorem Backed.toNat_pages_add (h : Backed base resv v) {ct : PageCount}
    (hct : ct.toNat <= v.m.resv.held) :
    (v.m.actv.pages + ct).toNat = v.m.actv.pages.toNat + ct.toNat := by
  rcases h.left hct with ⟨hbytes, hleft⟩
  have hwhole := h.whole
  have hroom := resv.bytes64.toNat_lt
  rw [UInt64.toNat_add]
  omega

theorem Backed.grown (h : Backed base resv v) (hplaced : Placed base resv)
    {sys : Sys} (hdocumented : sys.Documented) (hchecks : sys.ChecksRange) {ct : PageCount}
    (hct : ct.toNat <= v.m.resv.held) {addr : Address}
    (hcall : sys.mmap (v.m.actv.stealArgs v.m.resv ct) = .ok addr) :
    Backed base resv ⟨v.m.grown ct, v.table.mapped addr (v.m.actv.stealArgs v.m.resv ct)⟩ := by
  rcases h.left hct with ⟨hbytes, hleft⟩
  cases hdocumented.fixed (h.shared.isFixed ct) hcall
  have hrange := (hchecks (v.m.actv.stealArgs v.m.resv ct) _ h.file.left h.file.right
    hcall).right
  rw [h.toInt_stealArgs] at hrange
  change _ + (ct.bytes64.toNat : Int) < _ at hrange
  have hpages := h.toNat_pages_add hct
  refine ⟨h.shared.grown hplaced hbytes hleft, ?_, h.file, h.low, ?_, ?_⟩
  · have hwhole := h.whole
    have hroom := resv.bytes64.toNat_lt
    show (v.m.actv.pages + ct : PageCount).bytes64.toNat = (v.m.actv.pages + ct).toNat * 4096
    rw [PageCount.toNat_bytes64, hpages]
    omega
  · show v.m.actv.offset.toInt + (v.m.actv.pages + ct).toNat * 4096 < 2 ^ 63
    rw [hpages]
    omega
  · intro k hk
    change k < (v.m.actv.pages + ct).toNat at hk
    rw [hpages] at hk
    have hdonor : v.m.resv.addr.toNat = base.toNat + 4096 * v.m.actv.pages.toNat := by
      rw [h.shared.adjacent, h.whole, Nat.mul_comm]
    show PageTable.mapped v.table v.m.resv.addr (v.m.actv.stealArgs v.m.resv ct)
      (base.toNat + 4096 * k) = some (v.m.actv.fd, v.m.actv.offset.toInt + 4096 * k)
    by_cases hold : k < v.m.actv.pages.toNat
    · rw [PageTable.mapped_outside (by omega)]
      exact h.pages k hold
    · have hpage : base.toNat + 4096 * k =
          v.m.resv.addr.toNat + 4096 * (k - v.m.actv.pages.toNat) := by omega
      have hlen : 4096 * (k - v.m.actv.pages.toNat) < ct.bytes64.toNat := by omega
      rw [hpage, PageTable.mapped_of_file (v.m.actv.stealArgs v.m.resv ct) h.file hlen,
        h.toInt_stealArgs]
      refine congrArg some (Prod.ext rfl ?_)
      show v.m.actv.offset.toInt + v.m.actv.pages.toNat * 4096 +
        (4096 * (k - v.m.actv.pages.toNat) : Nat) = v.m.actv.offset.toInt + 4096 * k
      omega

theorem Backed.extend (h : Backed base resv v) (hplaced : Placed base resv)
    (hok : v.Succeeds x) : v.Grants x ∧ Backed base resv (v.extend x) := by
  rw [View.Grants, View.extend]
  rcases call_cases hok.success with ⟨hzero, hnone⟩ | ⟨ct, addr, htaken, hcall, hout⟩
  · rw [hnone, hzero]
    exact ⟨rfl, h⟩
  · have hct : ct.toNat <= v.m.resv.held := htaken ▸ hok.taken
    rw [hout, PageTable.after_singleton hcall, htaken]
    exact ⟨h.toNat_pages_add hct, h.grown hplaced hok.documented hok.checks hct hcall⟩

end Extension

/-!
## Runs
-/

section Runs

variable {sys : Sys} {pair m : ReservedMapping} {resv alloc : PageCount}
  {prot flags fd : Int32} {off : Int64} {issued : List MmapArgs} {base : Address}

theorem reserveAndAlloc_calls
    (h : pair.reserveAndAlloc sys resv alloc prot flags fd off = (0, m, issued)) :
    exists base addr, sys.mmap (Mapping.reservationArgs resv) = .ok base ∧
      sys.mmap (allocArgs base alloc prot flags fd off) = .ok addr := by
  rw [ReservedMapping.reserveAndAlloc, Mapping.createReservation] at h
  cases hbase : sys.mmap (Mapping.reservationArgs resv) with
  | error e =>
      simp only [hbase, ne_eq] at h
      rw [if_pos (by decide)] at h
      exact absurd (congrArg Prod.fst h) (show (-1 : Int32) ≠ 0 by decide)
  | ok base =>
      simp only [hbase, ne_eq, not_true_eq_false, if_false] at h
      rw [Mapping.createMappingFromResv] at h
      cases hcall : sys.mmap (allocArgs base alloc prot flags fd off) with
      | error e =>
          rw [allocArgs] at hcall
          simp only [hcall] at h
          rw [if_pos (by decide)] at h
          exact absurd (congrArg Prod.fst h) (show (-1 : Int32) ≠ 0 by decide)
      | ok addr => exact ⟨base, addr, rfl, hcall⟩

theorem or_mapAnonymous {flags : Int32} (h : flags &&& mapAnonymous = 0) :
    (mapFixed ||| flags) &&& mapAnonymous = 0 := by
  apply Int32.toBitVec_inj.mp
  have hbits : flags.toBitVec &&& mapAnonymous.toBitVec = 0 := by
    rw [<- Int32.toBitVec_and, h]
    rfl
  rw [Int32.toBitVec_and, Int32.toBitVec_or, BitVec.and_comm, BitVec.and_or_distrib_left,
    BitVec.and_comm mapAnonymous.toBitVec flags.toBitVec, hbits]
  rfl

theorem backed_reserveAndAlloc (hsys : sys.Documented) (hchecks : sys.ChecksRange)
    (hfd : 0 <= fd) (hflags : flags &&& mapAnonymous = 0)
    (halloc : alloc.toNat <= resv.bytes64.toNat / 4096)
    (hnew : pair.reserveAndAlloc sys resv alloc prot flags fd off = (0, m, issued))
    (table : PageTable) :
    exists base, Placed base resv ∧ Backed base resv ⟨m, table.after sys issued⟩ := by
  rcases reserveAndAlloc_calls hnew with ⟨base, addr, hbase, hcall⟩
  have hplaced := placed_of_mmap hsys hbase
  rcases reserveAndAlloc_spec hsys hbase hnew with ⟨rfl, hactv, haddr, hpages⟩
  have hfile : 0 <= fd ∧ (mapFixed ||| flags) &&& mapAnonymous = 0 :=
    ⟨hfd, or_mapAnonymous hflags⟩
  cases hsys.fixed (allocArgs_isFixed base alloc prot flags fd off) hcall
  rcases hchecks (allocArgs base alloc prot flags fd off) _ hfile.left hfile.right hcall with
    ⟨hlow, hhigh⟩
  change off.toInt + (alloc.bytes64.toNat : Int) < 2 ^ 63 at hhigh
  have hresv := PageCount.toNat_bytes64 resv
  have hbytes := PageCount.toNat_bytes64 alloc
  have hsome : alloc <= resv := UInt64.le_iff_toNat_le.mpr (by omega)
  have hroom : alloc.bytes64 <= resv.bytes64 := UInt64.le_iff_toNat_le.mpr (by omega)
  have hwhole : alloc.bytes64.toNat = alloc.toNat * 4096 := by
    have hlt := resv.bytes64.toNat_lt
    omega
  have hshared := shared_reserveAndAlloc hplaced hsome hroom hactv haddr hpages
  refine ⟨base, hplaced, hshared, ?_, ?_, ?_, ?_, ?_⟩
  · rw [hactv]
    exact hwhole
  · rw [hactv]
    exact hfile
  · rw [hactv]
    exact hlow
  · rw [hactv]
    show off.toInt + alloc.toNat * 4096 < 2 ^ 63
    omega
  · rw [hactv]
    intro k hk
    have hlen : 4096 * k < alloc.bytes64.toNat := by
      change k < alloc.toNat at hk
      omega
    have htable : table.after sys
        [Mapping.reservationArgs resv, allocArgs base alloc prot flags fd off] =
        (table.mapped base (Mapping.reservationArgs resv)).mapped base
          (allocArgs base alloc prot flags fd off) := by
      rw [PageTable.after, List.foldl_cons, List.foldl_cons, List.foldl_nil, hbase]
      simp only
      rw [hcall]
      rfl
    refine (congrFun htable _).trans
      ((PageTable.mapped_of_file (allocArgs base alloc prot flags fd off) hfile hlen).trans ?_)
    refine congrArg some (Prod.ext rfl ?_)
    show off.toInt + ((4096 * k : Nat) : Int) = off.toInt + 4096 * k
    omega

/--
After any successful extensions that take no more pages than the donor has, the active mapping of
a file has all the pages that were asked for, it is one view of the file, page by page from the
offset that it was made with, and the donor starts where it ends.
-/
theorem view_contiguous (hsys : sys.Documented) (hchecks : sys.ChecksRange)
    (hfd : 0 <= fd) (hflags : flags &&& mapAnonymous = 0)
    (halloc : alloc.toNat <= resv.bytes64.toNat / 4096)
    (hnew : pair.reserveAndAlloc sys resv alloc prot flags fd off = (0, m, issued))
    (table : PageTable) (exts : List Extension)
    (hexts : Along View.extend View.Succeeds ⟨m, table.after sys issued⟩ exts) :
    Along View.extend View.Grants ⟨m, table.after sys issued⟩ exts ∧
      (exts.foldl View.extend ⟨m, table.after sys issued⟩).Contiguous := by
  rcases backed_reserveAndAlloc hsys hchecks hfd hflags halloc hnew table with
    ⟨base, hplaced, hbacked⟩
  have hstep : forall v x, Backed base resv v -> View.Succeeds v x ->
      View.Grants v x ∧ Backed base resv (v.extend x) :=
    fun v x hv hx => hv.extend hplaced hx
  rcases along_of_inv (Backed base resv) hstep exts _ hbacked hexts with ⟨hgrants, hfinal⟩
  exact ⟨hgrants, hfinal.contiguous hplaced⟩

end Runs

def filingSys : Sys where
  mmap args :=
    if 0 <= args.offset.toInt ∧ args.offset.toInt + args.len.toNat < 2 ^ 63 then
      roomySys.mmap args
    else .error 22
  munmap _ _ := .ok ()

theorem filingSys_documented : filingSys.Documented where
  fixed := by
    intro args addr hfixed hok
    simp only [filingSys] at hok
    split at hok
    · exact roomySys_documented.fixed hfixed hok
    · cases hok
  chosen := by
    intro args addr hfixed hzero hok
    simp only [filingSys] at hok
    split at hok
    · exact roomySys_documented.chosen hfixed hzero hok
    · cases hok

theorem filingSys_checksRange : filingSys.ChecksRange := by
  intro args addr _ _ hok
  simp only [filingSys] at hok
  split at hok
  · assumption
  · cases hok

/-- Ten pages with one active that shows the third page of a file: two pages are stolen, and
then an address in the sixth one is asked for. -/
theorem view_contiguous_third :
    exists m issued,
      ReservedMapping.reserveAndAlloc filingSys ⟨.empty, .empty⟩ 10 1 3 2 4 8192 =
        (0, m, issued) ∧
      Along View.extend View.Grants ⟨m, PageTable.after (fun _ => none) filingSys issued⟩
        [.steal filingSys 2, .toInclude filingSys 0x7f005001] ∧
      (List.foldl View.extend ⟨m, PageTable.after (fun _ => none) filingSys issued⟩
        [.steal filingSys 2, .toInclude filingSys 0x7f005001]).Contiguous := by
  refine ⟨_, _, rfl, view_contiguous filingSys_documented filingSys_checksRange
    (show (0 : Int32) <= 4 by decide) (show (2 : Int32) &&& mapAnonymous = 0 by decide)
    (show (1 : PageCount).toNat <= (10 : PageCount).bytes64.toNat / 4096 by decide)
    (show ReservedMapping.reserveAndAlloc filingSys ⟨.empty, .empty⟩ 10 1 3 2 4 8192 =
      (0, _, _) from rfl) (fun _ => none) _ ?_⟩
  refine ⟨⟨filingSys_documented, filingSys_checksRange, ?_, ?_⟩,
    ⟨filingSys_documented, filingSys_checksRange, ?_, ?_⟩, trivial⟩
  · decide
  · decide
  · decide
  · decide

end MgKdb
