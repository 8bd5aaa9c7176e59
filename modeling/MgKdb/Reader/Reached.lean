import MgKdb.Reader.Chunks
import MgKdb.Reader.Header

/-!
# Where the parser allocates

The buffers at which `newInstance` is called while an object is read, in the order of
the calls.  An allocation that fails ends every loop around it, so that its code is the
code of the whole read.
-/

namespace MgKdb

/-!
## The allocations of a read
-/

section Containers

variable (rd : KdbBase -> ReadBuf -> ReadOut KdbBase)
variable (allocs : KdbBase -> ReadBuf -> List ReadBuf)

def valsAllocs : List KdbBase -> ReadBuf -> List ReadBuf
  | [], _ => []
  | o :: os, b =>
      allocs o b ++
        match rd o b with
        | (.ok, _, b1) => valsAllocs os b1
        | _ => []

def newAllocs : Nat -> ReadBuf -> List ReadBuf
  | 0, _ => []
  | n + 1, b =>
      b ::
        match newInstance b with
        | (.error _, _) => []
        | (.ok o, b1) =>
            allocs o b1 ++
              match rd o b1 with
              | (.ok, _, b2) => newAllocs n b2
              | _ => []

def itemsAllocs (cap : Nat) (vals : List KdbBase) (b : ReadBuf) : List ReadBuf :=
  valsAllocs rd allocs vals b ++
    match readVals rd vals b with
    | (.ok, _, b1) => newAllocs rd allocs (cap - vals.length) b1
    | _ => []

def partAllocs (accepts : KdbType -> Bool) (part : Option KdbBase) (b : ReadBuf) :
    List ReadBuf :=
  if b.cursorActive then
    b ::
      match newInstance b with
      | (.error _, _) => []
      | (.ok o, b1) => if accepts o.typ then allocs o b1 else []
  else
    match part with
    | none => []
    | some o => allocs o b

def partsAllocs (hdr : Nat) (acceptsFst acceptsSnd : KdbType -> Bool)
    (fst snd : Option KdbBase) (b : ReadBuf) : List ReadBuf :=
  partAllocs allocs acceptsFst fst (b.skipHdr hdr) ++
    match readPart rd acceptsFst fst (b.skipHdr hdr) with
    | (.ok, _, b1) => partAllocs allocs acceptsSnd snd b1
    | _ => []

end Containers

def allocsFuel : Nat -> KdbBase -> ReadBuf -> List ReadBuf
  | 0, _, _ => []
  | n + 1, o, b =>
      match o with
      | .list cap _ vals =>
          itemsAllocs (readFuel n) (allocsFuel n) cap vals (b.skipHdr 6)
      | .table cols vals =>
          partsAllocs (readFuel n) (allocsFuel n) 3 (fun t => t == .symbolVector)
            (fun t => t == .list) cols vals b
      | .dict keys vals =>
          partsAllocs (readFuel n) (allocsFuel n) 1 (fun _ => true) (fun _ => true)
            keys vals b
      | .projection cap vec =>
          itemsAllocs (readFuel n) (allocsFuel n) cap vec (b.skipHdr 5)
      | .exception _ | .atom _ _ | .symbolAtom _ | .vector _ _ _ _
      | .symbolVector _ _ _ _ | .function _ _ | .primitive _ _ => []

def KdbBase.allocs (o : KdbBase) (b : ReadBuf) : List ReadBuf :=
  allocsFuel (o.height + b.remaining + 1) o b

/-!
## The code of a failed allocation
-/

theorem newInstance_error_ne_ok {b : ReadBuf} {rr : ReadResult}
    (h : (newInstance b).1 = .error rr) : rr ≠ .ok :=
  (newInstance_allocates b).fails rr h

/-- A failed allocation that a read comes to decides what the read answers. -/
def Tells (rd : KdbBase -> ReadBuf -> ReadOut KdbBase)
    (allocs : KdbBase -> ReadBuf -> List ReadBuf) : Prop :=
  forall o b c rr, c ∈ allocs o b -> (newInstance c).1 = .error rr -> (rd o b).1 = rr

section Containers

variable {rd : KdbBase -> ReadBuf -> ReadOut KdbBase}
variable {allocs : KdbBase -> ReadBuf -> List ReadBuf}
variable {c : ReadBuf} {rr : ReadResult}

theorem readVals_tells (htells : Tells rd allocs) (hfail : (newInstance c).1 = .error rr)
    (os : List KdbBase) :
    forall b, c ∈ valsAllocs rd allocs os b -> (readVals rd os b).1 = rr := by
  have hrr := newInstance_error_ne_ok hfail
  induction os with
  | nil =>
      intro b hc
      cases hc
  | cons o os ih =>
      intro b hc
      have ho := htells o b c rr
      rw [valsAllocs, List.mem_append] at hc
      rw [readVals]
      rcases hread : rd o b with ⟨rr', o', b1⟩
      rw [hread] at hc ho
      cases rr'
      case ok =>
        rcases hc with hc | hc
        · exact absurd (ho hc hfail).symm hrr
        · exact ih b1 hc
      all_goals
        rcases hc with hc | hc
        · exact ho hc hfail
        · cases hc

theorem readNew_tells (htells : Tells rd allocs) (hfail : (newInstance c).1 = .error rr)
    (n : Nat) :
    forall b, c ∈ newAllocs rd allocs n b -> (readNew rd n b).1 = rr := by
  have hrr := newInstance_error_ne_ok hfail
  induction n with
  | zero =>
      intro b hc
      cases hc
  | succ n ih =>
      intro b hc
      rw [newAllocs, List.mem_cons] at hc
      rw [readNew]
      rcases hnew : newInstance b with ⟨code | o, b1⟩
      · rw [hnew] at hc
        rcases hc with rfl | hc
        · rw [hnew] at hfail
          exact Except.error.inj hfail
        · cases hc
      · rw [hnew] at hc
        have ho := htells o b1 c rr
        rcases hc with rfl | hc
        · rw [hnew] at hfail
          cases hfail
        · rw [List.mem_append] at hc
          rcases hread : rd o b1 with ⟨rr', o', b2⟩
          rw [hread] at hc ho
          simp only [hread]
          cases rr'
          case ok =>
            rcases hc with hc | hc
            · exact absurd (ho hc hfail).symm hrr
            · exact ih b2 hc
          all_goals
            rcases hc with hc | hc
            · exact ho hc hfail
            · cases hc

theorem readItems_tells (htells : Tells rd allocs) (hfail : (newInstance c).1 = .error rr)
    {cap : Nat} {vals : List KdbBase} {b : ReadBuf}
    (hc : c ∈ itemsAllocs rd allocs cap vals b) : (readItems rd cap vals b).1 = rr := by
  have hrr := newInstance_error_ne_ok hfail
  have hvals := readVals_tells htells hfail vals b
  rw [itemsAllocs, List.mem_append] at hc
  rw [readItems]
  rcases hread : readVals rd vals b with ⟨rr', vals', b1⟩
  rw [hread] at hc hvals
  cases rr'
  case ok =>
    rcases hc with hc | hc
    · exact absurd (hvals hc).symm hrr
    · exact readNew_tells htells hfail _ b1 hc
  all_goals
    rcases hc with hc | hc
    · exact hvals hc
    · cases hc

theorem readPart_tells (htells : Tells rd allocs) (hfail : (newInstance c).1 = .error rr)
    {accepts : KdbType -> Bool} {part : Option KdbBase} {b : ReadBuf}
    (hc : c ∈ partAllocs allocs accepts part b) : (readPart rd accepts part b).1 = rr := by
  unfold partAllocs at hc
  unfold readPart
  by_cases hactive : b.cursorActive = true
  · rw [if_pos hactive] at hc ⊢
    rcases hnew : newInstance b with ⟨code | o, b1⟩
    · rw [hnew] at hc
      rcases List.mem_cons.mp hc with rfl | hc
      · rw [hnew] at hfail
        exact Except.error.inj hfail
      · cases hc
    · rw [hnew] at hc
      rcases List.mem_cons.mp hc with rfl | hc
      · rw [hnew] at hfail
        cases hfail
      · by_cases haccepts : accepts o.typ = true
        · simp only [haccepts, if_true] at hc ⊢
          exact htells o b1 c rr hc hfail
        · simp only [haccepts] at hc
          cases hc
  · rw [if_neg hactive] at hc ⊢
    cases part with
    | none => cases hc
    | some o => exact htells o b c rr hc hfail

theorem readParts_tells (htells : Tells rd allocs) (hfail : (newInstance c).1 = .error rr)
    {hdr : Nat} {p q : KdbType -> Bool} {fst snd : Option KdbBase} {b : ReadBuf}
    (hc : c ∈ partsAllocs rd allocs hdr p q fst snd b) :
    (readParts rd hdr p q fst snd b).1 = rr := by
  have hrr := newInstance_error_ne_ok hfail
  rw [partsAllocs, List.mem_append] at hc
  have hfst : c ∈ partAllocs allocs p fst (b.skipHdr hdr) ->
      (readPart rd p fst (b.skipHdr hdr)).1 = rr :=
    readPart_tells htells hfail
  rw [readParts]
  rcases hread : readPart rd p fst (b.skipHdr hdr) with ⟨rr', fst', b1⟩
  rw [hread] at hc hfst
  cases rr'
  case ok =>
    rcases hc with hc | hc
    · exact absurd (hfst hc).symm hrr
    · exact readPart_tells htells hfail hc
  all_goals
    rcases hc with hc | hc
    · exact hfst hc
    · cases hc

end Containers

theorem readFuel_tells (n : Nat) : Tells (readFuel n) (allocsFuel n) := by
  induction n with
  | zero =>
      intro o b c rr hc _hfail
      cases hc
  | succ n ih =>
      intro o b c rr hc hfail
      cases o with
      | list cap attr vals => exact readItems_tells ih hfail hc
      | projection cap vec => exact readItems_tells ih hfail hc
      | table cols vals => exact readParts_tells ih hfail hc
      | dict keys vals => exact readParts_tells ih hfail hc
      | exception msg => cases hc
      | atom e val => cases hc
      | symbolAtom val => cases hc
      | vector e cap attr vec => cases hc
      | symbolVector cap attr locs data => cases hc
      | function cap vec => cases hc
      | primitive arity val => cases hc

theorem read_tells : Tells KdbBase.read KdbBase.allocs := by
  intro o b
  exact readFuel_tells _ o b

/-!
## The allocations of a call
-/

namespace KdbIpcMessageReader

/-- What a call hands to the parser: the reader behind the header, and the parser's buffer. -/
def parsing (canAlloc : Nat -> Bool) (r : KdbIpcMessageReader) (src : List UInt8)
    (result : ReadMsgResult) : Option (KdbIpcMessageReader × ReadBuf) :=
  let hdr := readMsgHdr canAlloc r (ReadBuf.new src (-r.bytUsd)) result
  if hdr.1.1 = false then none
  else if hdr.2.1.compressed = false then some hdr.2
  else
    match hdr.2.1.inflateMsg hdr.2.2 with
    | .error _ => none
    | .ok (inflater, _, zBuf) => some ({ hdr.2.1 with inflater := some inflater }, zBuf)

/-- The allocations of `readMsgData1` below the root. -/
def innerAllocs (msg : Option KdbBase) (b : ReadBuf) : List ReadBuf :=
  match allocMsg msg b with
  | (.error _, _) => []
  | (.ok o, b1) => o.allocs b1

/-- The allocations of `readMsgData1`, the root's included. -/
def dataAllocs (msg : Option KdbBase) (b : ReadBuf) : List ReadBuf :=
  (if msg.isNone then [b] else []) ++ innerAllocs msg b

/-- The buffers at which the parser allocates an object in a call of `readMsg`. -/
def allocs (canAlloc : Nat -> Bool) (r : KdbIpcMessageReader) (src : List UInt8)
    (result : ReadMsgResult) : List ReadBuf :=
  match r.parsing canAlloc src result with
  | none => []
  | some (r1, b) => dataAllocs r1.msg b

variable {canAlloc : Nat -> Bool} {r r1 : KdbIpcMessageReader} {src : List UInt8}
  {result : ReadMsgResult} {b c : ReadBuf} {rr : ReadResult}

theorem readMsg_of_parsing (h : r.parsing canAlloc src result = some (r1, b)) :
    exists result1 used,
      readMsg canAlloc r src result =
        ((readMsgData r1 b result1).1,
          { (readMsgData r1 b result1).2.1 with bytUsd := used }) := by
  unfold parsing at h
  rw [readMsg]
  generalize readMsgHdr canAlloc r (ReadBuf.new src (-r.bytUsd)) result = hdr at h
  rcases hdr with ⟨⟨done, result1⟩, r2, b2⟩
  simp only at h ⊢
  cases done with
  | false =>
      rw [if_pos rfl] at h
      cases h
  | true =>
      rw [if_neg (by decide)] at h
      rw [if_neg (by decide), readMsgBody]
      by_cases hplain : r2.compressed = false
      · rw [if_pos hplain] at h
        cases h
        rw [if_pos hplain]
        exact ⟨result1, _, rfl⟩
      · rw [if_neg hplain] at h
        rw [if_neg hplain]
        cases hinf : r2.inflateMsg b2 with
        | error why =>
            rw [hinf] at h
            cases h
        | ok out =>
            rw [hinf] at h
            cases h
            exact ⟨result1, _, rfl⟩

theorem readMsgData_fst (r : KdbIpcMessageReader) (b : ReadBuf) (result : ReadMsgResult) :
    (readMsgData r b result).1 = (readMsgData1 r b result).1 := rfl

theorem readMsgData1_of_inner (hc : c ∈ innerAllocs r.msg b)
    (hfail : (newInstance c).1 = .error rr) :
    (readMsgData1 r b result).1 = (false, { result with result := rr }) := by
  have hrr := newInstance_error_ne_ok hfail
  unfold innerAllocs at hc
  unfold readMsgData1
  rcases hmsg : allocMsg r.msg b with ⟨code | o, b1⟩
  · rw [hmsg] at hc
    cases hc
  · rw [hmsg] at hc
    have hread := read_tells o b1 c rr hc hfail
    rcases hout : o.read b1 with ⟨rr', o', b2⟩
    rw [hout] at hread
    subst hread
    simp only [hout]

theorem readMsgData1_of_root {why : Trap} (hmsg : r.msg = none)
    (hfail : (newInstance b).1 = .error (.trap why)) :
    (readMsgData1 r b result).1 = (false, { result with result := .trap why }) := by
  unfold readMsgData1
  rw [hmsg, allocMsg]
  rcases hnew : newInstance b with ⟨code | o, b1⟩
  · rw [hnew] at hfail
    cases hfail
    rfl
  · rw [hnew] at hfail
    cases hfail

theorem readMsg_of_inner (hparse : r.parsing canAlloc src result = some (r1, b))
    (hc : c ∈ innerAllocs r1.msg b) (hfail : (newInstance c).1 = .error rr) :
    (readMsg canAlloc r src result).1.1 = false ∧
      (readMsg canAlloc r src result).1.2.result = rr := by
  rcases readMsg_of_parsing hparse with ⟨result1, used, hcall⟩
  rw [hcall]
  simp only [readMsgData_fst, readMsgData1_of_inner hc hfail, and_self]

theorem readMsg_of_trap {why : Trap} (hc : c ∈ r.allocs canAlloc src result)
    (hfail : (newInstance c).1 = .error (.trap why)) :
    (readMsg canAlloc r src result).1.1 = false ∧
      (readMsg canAlloc r src result).1.2.result = .trap why := by
  unfold allocs at hc
  cases hparse : r.parsing canAlloc src result with
  | none =>
      rw [hparse] at hc
      cases hc
  | some out =>
      rw [hparse] at hc
      simp only [dataAllocs, List.mem_append] at hc
      rcases hc with hc | hc
      · cases hmsg : out.1.msg with
        | none =>
            rw [hmsg] at hc
            have heq : c = out.2 := by simpa using hc
            rw [heq] at hfail
            rcases readMsg_of_parsing hparse with ⟨result1, used, hcall⟩
            rw [hcall]
            simp only [readMsgData_fst, readMsgData1_of_root hmsg hfail, and_self]
        | some o =>
            rw [hmsg] at hc
            cases hc
      · exact readMsg_of_inner hparse hc hfail

/-!
## Negative counts
-/

end KdbIpcMessageReader

def KdbType.hasCount : KdbType -> Bool
  | .list | .boolVector | .guidVector | .byteVector | .shortVector | .intVector
  | .longVector | .realVector | .floatVector | .charVector | .symbolVector
  | .timestampVector | .monthVector | .dateVector | .timespanVector | .minuteVector
  | .secondVector | .timeVector => true
  | _ => false

/-- The complete header of a vector, symbol vector or list with a negative count. -/
structure ReadBuf.NegativeCount (b : ReadBuf) : Prop where
  active : b.cursorActive = true
  whole : 6 <= b.remaining
  typ : exists t, KdbType.ofI8 b.peekI8 = some t ∧ t.hasCount = true
  negative : (b.adj 2).readI32.1 < 0

theorem newVec32_of_negative {b : ReadBuf} {mk : Nat -> UInt8 -> KdbBase}
    (hneg : b.NegativeCount) : (newVec32 b mk).1 = .error (.trap .lengthError) := by
  have hwhole := hneg.whole
  unfold newVec32
  simp only [ReadBuf.readI8_snd, ReadBuf.adj_adj, Nat.reduceAdd]
  rw [if_neg (by rw [ReadBuf.canRead_eq]; omega), if_pos hneg.negative]

theorem newInstance_of_negative {b : ReadBuf} (hneg : b.NegativeCount) :
    (newInstance b).1 = .error (.trap .lengthError) := by
  have hwhole := hneg.whole
  have hvec : forall mk, (newVec32 b mk).1 = .error (.trap .lengthError) :=
    fun mk => newVec32_of_negative hneg
  rcases hneg.typ with ⟨t, ht, hcount⟩
  unfold newInstance
  rw [if_pos hneg.active, if_neg (by rw [ReadBuf.canRead_eq]; omega), ht]
  cases t <;>
    first
    | exact absurd hcount (by decide)
    | exact hvec _

namespace KdbIpcMessageReader

/--
In whatever call the parser comes to a negative count, at any depth, the conversion to an
unsigned capacity ends the call with an exception.
-/
theorem readMsg_of_negative (canAlloc : Nat -> Bool) (r : KdbIpcMessageReader)
    (src : List UInt8) (result : ReadMsgResult) {c : ReadBuf}
    (hc : c ∈ r.allocs canAlloc src result) (hneg : c.NegativeCount) :
    (readMsg canAlloc r src result).1.1 = false ∧
      (readMsg canAlloc r src result).1.2.result = .trap .lengthError :=
  readMsg_of_trap hc (newInstance_of_negative hneg)

/-- A table whose columns are a symbol vector with the count `-2^31`. -/
theorem readMsg_of_negative_table :
    (readMsg (fun _ => true) new
        [1, 1, 0, 0, 17, 0, 0, 0, 98, 0, 99, 11, 0, 0, 0, 0, 128] unset).1.1 = false ∧
      (readMsg (fun _ => true) new
        [1, 1, 0, 0, 17, 0, 0, 0, 98, 0, 99, 11, 0, 0, 0, 0, 128] unset).1.2.result =
        .trap .lengthError :=
  readMsg_of_negative (fun _ => true) new _ unset
    (c := ⟨[11, 0, 0, 0, 0, 128], 11, 11⟩) (by decide)
    ⟨by decide, by decide, ⟨.symbolVector, by decide, by decide⟩, by decide⟩

/-- A list whose only element is a byte vector with the count minus one. -/
theorem readMsg_negative_list :
    exists src c, c ∈ new.allocs (fun _ => true) src unset ∧ c.NegativeCount ∧
      (readMsg (fun _ => true) new src unset).1.2.result ≠ .errIpc :=
  ⟨[1, 1, 0, 0, 20, 0, 0, 0, 0, 0, 1, 0, 0, 0, 4, 0, 255, 255, 255, 255],
    ⟨[4, 0, 255, 255, 255, 255], 14, 14⟩, by decide,
    ⟨by decide, by decide, ⟨.byteVector, by decide, by decide⟩, by decide⟩, by decide⟩

end KdbIpcMessageReader

end MgKdb
