import Mathlib.Data.UInt

/-!
# Reserved mappings

A reservation of address space, the head of which is turned into an active mapping page by
page.  All counts and addresses are unsigned 64-bit numbers and wrap around.
-/

namespace MgKdb

abbrev Address := UInt64
abbrev Extent := UInt64
abbrev PageCount := UInt64

def Address.difference (lhs rhs : Address) : Extent :=
  if lhs < rhs then rhs - lhs else lhs - rhs

def PageCount.pgSz : UInt64 := 4096

def PageCount.bytes64 (ct : PageCount) : UInt64 :=
  ct * pgSz

def PageCount.fromBytes (ext : Extent) : PageCount :=
  ext / pgSz

def PageCount.fromBytesAlignUp (ext : Extent) : PageCount :=
  (pgSz + ext) / pgSz

/-!
## The system calls
-/

structure MmapArgs where
  addr : Address
  len : UInt64
  prot : Int32
  flags : Int32
  fd : Int32
  offset : Int64
  deriving DecidableEq, Repr

def protNone : Int32 := 0
def mapPrivate : Int32 := 0x02
def mapFixed : Int32 := 0x10
def mapAnonymous : Int32 := 0x20
def mapNoreserve : Int32 := 0x4000

def MmapArgs.isFixed (args : MmapArgs) : Bool :=
  args.flags &&& mapFixed != 0

/-- The outcomes of the system calls: a result or an error number. -/
structure Sys where
  mmap : MmapArgs -> Except Int32 Address
  munmap : Address -> UInt64 -> Except Int32 Unit

/--
What the manual says of `mmap`: a fixed mapping is placed at the address asked for;
otherwise the system chooses a page-aligned address other than zero with room behind it.
-/
structure Sys.Documented (sys : Sys) : Prop where
  fixed : forall {args addr}, args.isFixed = true -> sys.mmap args = .ok addr ->
    addr = args.addr
  chosen : forall {args addr}, args.isFixed = false -> args.addr = 0 ->
    sys.mmap args = .ok addr ->
    addr ≠ 0 ∧ 4096 ∣ addr.toNat ∧ addr.toNat + args.len.toNat < 2 ^ 64

/-!
## Mappings
-/

structure Mapping where
  addr : Address
  pages : PageCount
  prot : Int32
  flags : Int32
  fd : Int32
  offset : Int64
  deriving DecidableEq, Repr

namespace Mapping

def empty : Mapping :=
  ⟨0, 0, 0, 0, -1, 0⟩

def endAddr (m : Mapping) : Address :=
  if m.addr = 0 then 0 else m.addr + m.pages.bytes64

def unmap (sys : Sys) (m : Mapping) : Int32 × Mapping :=
  if 0 < m.pages.bytes64 then
    match sys.munmap m.addr m.pages.bytes64 with
    | .error _ => (-1, m)
    | .ok _ => (0, { m with addr := 0, pages := 0 })
  else (0, m)

def reservationArgs (pgCt : PageCount) : MmapArgs :=
  ⟨0, pgCt.bytes64, protNone, mapAnonymous ||| mapPrivate ||| mapNoreserve, -1, 0⟩

def createReservation (sys : Sys) (dst : Mapping) (pgCt : PageCount) : Int32 × Mapping :=
  let args := reservationArgs pgCt
  match sys.mmap args with
  | .error _ => (-1, dst)
  | .ok addr => (0, ⟨addr, pgCt, args.prot, args.flags, args.fd, args.offset⟩)

/-- Results in the donor and the new mapping, and the call that was issued. -/
def createMappingFromResv (sys : Sys) (donor dst : Mapping) (pgCt : PageCount)
    (prot flags fd : Int32) (offset : Int64) : Int32 × (Mapping × Mapping) × MmapArgs :=
  let args : MmapArgs := ⟨donor.addr, pgCt.bytes64, prot, flags, fd, offset⟩
  match sys.mmap args with
  | .error _ => (-1, (donor, dst), args)
  | .ok addr =>
      (0, ({ donor with
              addr := donor.addr + pgCt.bytes64
              pages := donor.pages - pgCt },
            ⟨addr, pgCt, prot, flags, fd, offset⟩), args)

def stealArgs (m donor : Mapping) (ct : PageCount) : MmapArgs :=
  ⟨donor.addr, ct.bytes64, m.prot, m.flags, m.fd,
    if 0 <= m.fd then (m.pages.bytes64 + m.offset.toUInt64).toInt64 else 0⟩

/-- Results in this mapping and the donor, and the calls that were issued. -/
def stealHeadPages (sys : Sys) (m donor : Mapping) (ct : PageCount) :
    Int32 × (Mapping × Mapping) × List MmapArgs :=
  if mapFixed &&& m.flags = 0 then (-1, (m, donor), [])
  else
    match sys.mmap (stealArgs m donor ct) with
    | .error _ => (-1, (m, donor), [stealArgs m donor ct])
    | .ok _ =>
        (0, ({ m with pages := m.pages + ct },
          { donor with addr := donor.addr + ct.bytes64, pages := donor.pages - ct }),
          [stealArgs m donor ct])

end Mapping

structure ReservedMapping where
  resv : Mapping
  actv : Mapping
  deriving DecidableEq, Repr

namespace ReservedMapping

/-- The calls of `mmap` that were issued come with the result. -/
def reserveAndAlloc (sys : Sys) (pair : ReservedMapping) (resv alloc : PageCount)
    (prot flags fd : Int32) (off : Int64) :
    Int32 × ReservedMapping × List MmapArgs :=
  let made := Mapping.createReservation sys pair.resv resv
  if made.1 ≠ 0 then (made.1, { pair with resv := made.2 }, [Mapping.reservationArgs resv])
  else
    let out := Mapping.createMappingFromResv sys made.2 pair.actv alloc prot
      (mapFixed ||| flags) fd off
    let issued := [Mapping.reservationArgs resv, out.2.2]
    if out.1 ≠ 0 then (out.1, ⟨(out.2.1.1.unmap sys).2, out.2.1.2⟩, issued)
    else (0, ⟨out.2.1.1, out.2.1.2⟩, issued)

def extendActiveToInclude (sys : Sys) (m : ReservedMapping) (addr : Address) :
    Int32 × ReservedMapping × List MmapArgs :=
  if m.actv.endAddr >= addr then (0, m, [])
  else
    let out := m.actv.stealHeadPages sys m.resv
      (PageCount.fromBytesAlignUp (m.actv.endAddr.difference addr))
    (out.1, ⟨out.2.1.2, out.2.1.1⟩, out.2.2)

end ReservedMapping

end MgKdb
