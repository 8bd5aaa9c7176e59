import Mathlib.Data.List.Forall2
import MgKdb.Reader.Object

/-!
# Symbol vectors

The symbols of a `KdbSymbolVector` lie nose to tail in `m_data`, and
`m_locs` says where.  They come from a constructor, from `push`, or from
`read`, which takes what a buffer shows.
-/

namespace MgKdb

open Foundation

/-- The capacity is that of `m_locs`, which is never exceeded. -/
structure KdbSymbolVector where
  cap : Nat
  attr : UInt8
  locs : List LocInfo
  data : List UInt8
  fits : locs.length <= cap

namespace KdbSymbolVector

/-!
## The operations
-/

/-- The first pass of the constructor from a list: offsets and lengths. -/
def valLocs : Nat -> List (List UInt8) -> List LocInfo
  | _, [] => []
  | cap, val :: vals =>
      ⟨UInt32.ofNat cap, UInt32.ofNat (val.length + 1)⟩ ::
        valLocs (cap + (val.length + 1)) vals

def valData (vals : List (List UInt8)) (locs : List LocInfo) : List UInt8 :=
  (vals.zip locs).flatMap fun p => p.1.take (p.2.len.toNat - 1) ++ [0]

theorem valLocs_length (vals : List (List UInt8)) : forall cap : Nat,
    (valLocs cap vals).length = vals.length := by
  induction vals with
  | nil =>
      intro cap
      rfl
  | cons val vals ih =>
      intro cap
      rw [valLocs, List.length_cons, List.length_cons, ih]

def ofVals (vals : List (List UInt8)) (attr : UInt8) : KdbSymbolVector where
  cap := vals.length
  attr := attr
  locs := valLocs 0 vals
  data := valData vals (valLocs 0 vals)
  fits := Nat.le_of_eq (valLocs_length vals 0)

def ofCap (cap : Nat) (attr : UInt8) : KdbSymbolVector where
  cap := cap
  attr := attr
  locs := []
  data := []
  fits := Nat.zero_le cap

def view (v : KdbSymbolVector) (loc : LocInfo) : List UInt8 :=
  (v.data.drop loc.off.toNat).take (loc.len.toNat - 1)

/-- `getString`; `none` if it throws. -/
def getString (v : KdbSymbolVector) (idx : Nat) : Option (List UInt8) :=
  v.locs[idx]?.map v.view

def indexOf (v : KdbSymbolVector) (col : List UInt8) : Int :=
  match v.locs.findIdx? (fun loc => v.view loc == col) with
  | some i => i32 i
  | none => -1

/-- A full `std::vector` grows; `grown` is the capacity it is given then. -/
def grow (v : KdbSymbolVector) (grown : Nat) : Nat :=
  if v.locs.length < v.cap then v.cap else max grown (v.locs.length + 1)

theorem length_lt_grow (v : KdbSymbolVector) (grown : Nat) :
    v.locs.length < v.grow grown := by
  unfold grow
  split <;> omega

theorem push_fits (v : KdbSymbolVector) (grown : Nat) (loc : LocInfo) :
    (v.locs ++ [loc]).length <= v.grow grown := by
  rw [List.length_append]
  exact v.length_lt_grow grown

def push (v : KdbSymbolVector) (sym : List UInt8) (grown : Nat) : KdbSymbolVector where
  cap := v.grow grown
  attr := v.attr
  locs := v.locs ++ [⟨UInt32.ofNat v.data.length, UInt32.ofNat (sym.length + 1)⟩]
  data := v.data ++ sym ++ [0]
  fits := v.push_fits grown _

def wireSz (v : KdbSymbolVector) : Nat :=
  6 + v.data.length

theorem readSymbolVector_eq (v : KdbSymbolVector) (b : ReadBuf) :
    (readSymbolVector v.cap v.locs v.data b).2.1 =
      (v.locs ++ locsFrom v.data.length (leadingTexts (v.cap - v.locs.length) b.rest),
        v.data ++ KVal.symsBytes (leadingTexts (v.cap - v.locs.length) b.rest)) := by
  rw [readSymbolVector, readSymbolVectorData]
  by_cases hfull : v.locs.length = v.cap
  · simp [hfull, leadingTexts, locsFrom]
  · simp only [if_neg hfull]
    rw [ReadBuf.readSyms]
    by_cases hroom : 0 < ((b.skipHdr 6).ffwd v.data.length).remaining
    · rw [if_pos hroom, ReadBuf.readSymsLoop_eq, ReadBuf.ffwd_rest, ReadBuf.skipHdr_rest]
    · have hempty : b.rest = [] := by
        rw [ReadBuf.ffwd_remaining, ReadBuf.skipHdr_remaining, ReadBuf.remaining] at hroom
        exact List.length_eq_zero_iff.mp (by omega)
      have hnone := leadingTexts_of_nulFree (show NulFree [] from List.not_mem_nil)
        (v.cap - v.locs.length)
      rw [if_neg hroom, hempty, hnone]
      simp [locsFrom]

theorem read_fits (v : KdbSymbolVector) (b : ReadBuf) :
    (readSymbolVector v.cap v.locs v.data b).2.1.1.length <= v.cap := by
  have hfits := v.fits
  have hle := leadingTexts_length_le (v.cap - v.locs.length) b.rest
  rw [readSymbolVector_eq, List.length_append, locsFrom_length]
  omega

def read (v : KdbSymbolVector) (b : ReadBuf) : ReadResult × KdbSymbolVector × ReadBuf :=
  let out := readSymbolVector v.cap v.locs v.data b
  (out.1,
    { cap := v.cap
      attr := v.attr
      locs := out.2.1.1
      data := out.2.1.2
      fits := v.read_fits b },
    out.2.2)

/-!
## Sequences of operations
-/

inductive Start where
  | vals (syms : List NulText) (attr : UInt8)
  | cap (n : Nat) (attr : UInt8)

def Start.vector : Start -> KdbSymbolVector
  | vals syms attr => ofVals (syms.map NulText.text) attr
  | cap n attr => ofCap n attr

def Start.syms : Start -> List NulText
  | vals syms _ => syms
  | cap _ _ => []

inductive Op where
  | push (sym : NulText) (grown : Nat)
  | read (b : ReadBuf)

def Op.apply (v : KdbSymbolVector) : Op -> KdbSymbolVector
  | push sym grown => v.push sym.text grown
  | read b => (v.read b).2.1

/-- The symbols that an operation adds; a read adds what its buffer begins with. -/
def Op.added (v : KdbSymbolVector) : Op -> List NulText
  | push sym _ => [sym]
  | read b => leadingTexts (v.cap - v.locs.length) b.rest

/-- The vector after some operations, and the symbols added or read. -/
def run (v : KdbSymbolVector) (syms : List NulText) (ops : List Op) :
    KdbSymbolVector × List NulText :=
  ops.foldl (fun p op => (op.apply p.1, p.2 ++ op.added p.1)) (v, syms)

structure Lists (v : KdbSymbolVector) (syms : List NulText) : Prop where
  locs : v.locs = locsFrom 0 syms
  data : v.data = KVal.symsBytes syms

theorem lists_append {v : KdbSymbolVector} {syms : List NulText} (more : List NulText)
    (h : v.Lists syms) :
    v.locs ++ locsFrom v.data.length more = locsFrom 0 (syms ++ more) ∧
      v.data ++ KVal.symsBytes more = KVal.symsBytes (syms ++ more) := by
  rw [locsFrom_append, KVal.symsBytes_append, h.locs, h.data, Nat.zero_add]
  exact ⟨rfl, rfl⟩

theorem lists_apply {v : KdbSymbolVector} {syms : List NulText} (h : v.Lists syms) (op : Op) :
    (op.apply v).Lists (syms ++ op.added v) := by
  have hadded := lists_append (op.added v) h
  cases op with
  | push sym grown =>
      refine ⟨?_, ?_⟩
      · rw [← hadded.left]
        simp [Op.apply, Op.added, push, locsFrom]
      · rw [← hadded.right]
        simp [Op.apply, Op.added, push, NulText.bytes]
  | read b =>
      have hread := v.readSymbolVector_eq b
      refine ⟨?_, ?_⟩
      · rw [← hadded.left]
        exact congrArg Prod.fst hread
      · rw [← hadded.right]
        exact congrArg Prod.snd hread

theorem lists_run (ops : List Op) : forall {v : KdbSymbolVector} {syms : List NulText},
    v.Lists syms -> (run v syms ops).1.Lists (run v syms ops).2 := by
  induction ops with
  | nil =>
      intro v syms h
      exact h
  | cons op ops ih =>
      intro v syms h
      exact ih (lists_apply h op)

theorem syms_prefix_run (ops : List Op) : forall (v : KdbSymbolVector) (syms : List NulText),
    syms <+: (run v syms ops).2 := by
  induction ops with
  | nil =>
      intro v syms
      exact List.prefix_refl syms
  | cons op ops ih =>
      intro v syms
      exact (List.prefix_append _ _).trans (ih _ _)

/-! The constructor from a list, below 4 GiB. -/

theorem valLocs_map_text (syms : List NulText) : forall off : Nat,
    valLocs off (syms.map NulText.text) = locsFrom off syms := by
  induction syms with
  | nil =>
      intro off
      rfl
  | cons s syms ih =>
      intro off
      rw [List.map_cons, valLocs, locsFrom, ih, NulText.bytes_length]

theorem valData_map_text (syms : List NulText) : forall off : Nat,
    (KVal.symsBytes syms).length < 2 ^ 32 ->
      valData (syms.map NulText.text) (locsFrom off syms) = KVal.symsBytes syms := by
  induction syms with
  | nil =>
      intro off _
      rfl
  | cons s syms ih =>
      intro off hsize
      rw [KVal.symsBytes_cons, List.length_append, NulText.bytes_length] at hsize
      have hmore := ih (off + s.bytes.length) (by omega)
      rw [valData] at hmore ⊢
      rw [List.map_cons, locsFrom, List.zip_cons_cons, List.flatMap_cons, hmore,
        KVal.symsBytes_cons]
      have hlen : (UInt32.ofNat (s.text.length + 1)).toNat - 1 = s.text.length := by
        rw [UInt32.toNat_ofNat']
        omega
      rw [hlen, List.take_length]
      rfl

theorem lists_start (start : Start) (hsize : (KVal.symsBytes start.syms).length < 2 ^ 32) :
    start.vector.Lists start.syms := by
  cases start with
  | cap n attr => exact ⟨rfl, rfl⟩
  | vals syms attr =>
      refine ⟨valLocs_map_text syms 0, ?_⟩
      show valData (syms.map NulText.text) (valLocs 0 (syms.map NulText.text)) = _
      rw [valLocs_map_text]
      exact valData_map_text syms 0 hsize

/-!
## What the vector says
-/

def TilesFrom : Nat -> List LocInfo -> Nat -> Prop
  | off, [], stop => off = stop
  | off, loc :: locs, stop => loc.off.toNat = off ∧ TilesFrom (off + loc.len.toNat) locs stop

def FirstAt (names : List (List UInt8)) (col : List UInt8) (i : Nat) : Prop :=
  names[i]? = some col ∧ forall j, j < i -> names[j]? ≠ some col

structure Sound (v : KdbSymbolVector) (syms : List NulText) : Prop where
  tiles : TilesFrom 0 v.locs v.data.length
  /-- The only NUL of a range is its last byte. -/
  ranges : forall loc, loc ∈ v.locs -> exists s : NulText,
    (v.data.drop loc.off.toNat).take loc.len.toNat = s.bytes
  strings : forall i, v.getString i = syms[i]?.map NulText.text
  index : forall col,
    (exists i : Nat, v.indexOf col = i ∧ FirstAt (syms.map NulText.text) col i) ∨
      (v.indexOf col = -1 ∧ col ∉ syms.map NulText.text)
  size : v.wireSz = 6 + (syms.map (fun s => s.text.length + 1)).sum

theorem toNat_ofNat_of_lt {n : Nat} (h : n < 2 ^ 32) : (UInt32.ofNat n).toNat = n := by
  rw [UInt32.toNat_ofNat']
  exact Nat.mod_eq_of_lt h

theorem tilesFrom_locsFrom (syms : List NulText) : forall off : Nat,
    off + (KVal.symsBytes syms).length < 2 ^ 32 ->
      TilesFrom off (locsFrom off syms) (off + (KVal.symsBytes syms).length) := by
  induction syms with
  | nil =>
      intro off _
      rfl
  | cons s syms ih =>
      intro off hsize
      have hlen := s.bytes_length
      rw [KVal.symsBytes_cons, List.length_append] at hsize ⊢
      rw [locsFrom, TilesFrom, toNat_ofNat_of_lt (by omega), toNat_ofNat_of_lt (by omega),
        ← hlen, ← Nat.add_assoc]
      exact ⟨rfl, ih _ (by omega)⟩

def Shows (data : List UInt8) (loc : LocInfo) (s : NulText) : Prop :=
  loc.len.toNat = s.text.length + 1 ∧ exists tail, data.drop loc.off.toNat = s.bytes ++ tail

theorem Shows.range {data : List UInt8} {loc : LocInfo} {s : NulText}
    (h : Shows data loc s) : (data.drop loc.off.toNat).take loc.len.toNat = s.bytes := by
  rcases h with ⟨hlen, tail, htail⟩
  rw [htail, hlen, ← s.bytes_length, List.take_left]

theorem Shows.view {v : KdbSymbolVector} {loc : LocInfo} {s : NulText}
    (h : Shows v.data loc s) : v.view loc = s.text := by
  rcases h with ⟨hlen, tail, htail⟩
  rw [KdbSymbolVector.view, htail, hlen, Nat.add_sub_cancel, NulText.bytes, List.append_assoc,
    List.take_left]

theorem shows_locsFrom {data : List UInt8} (syms : List NulText) : forall pre : List UInt8,
    data = pre ++ KVal.symsBytes syms -> data.length < 2 ^ 32 ->
      List.Forall₂ (Shows data) (locsFrom pre.length syms) syms := by
  induction syms with
  | nil =>
      intro pre _ _
      exact List.Forall₂.nil
  | cons s syms ih =>
      intro pre hdata hsize
      have hlen := s.bytes_length
      have hall : data.length =
          pre.length + (s.bytes.length + (KVal.symsBytes syms).length) := by
        rw [hdata, List.length_append, KVal.symsBytes_cons, List.length_append]
      have hmore := ih (pre ++ s.bytes)
        (by rw [hdata, KVal.symsBytes_cons, List.append_assoc]) hsize
      rw [List.length_append] at hmore
      refine List.Forall₂.cons ⟨toNat_ofNat_of_lt (by omega), KVal.symsBytes syms, ?_⟩ hmore
      rw [toNat_ofNat_of_lt (by omega), hdata, List.drop_left, KVal.symsBytes_cons]

section Views

variable {v : KdbSymbolVector} {syms : List NulText}

theorem shows_of_lists (h : v.Lists syms) (hsize : (KVal.symsBytes syms).length < 2 ^ 32) :
    List.Forall₂ (Shows v.data) v.locs syms := by
  rw [h.locs]
  exact shows_locsFrom syms [] h.data (by rw [h.data]; exact hsize)

theorem views_of_shows {locs : List LocInfo} (h : List.Forall₂ (Shows v.data) locs syms) :
    locs.map v.view = syms.map NulText.text := by
  induction h with
  | nil => rfl
  | cons hshow _ ih => rw [List.map_cons, List.map_cons, hshow.view, ih]

theorem views_of_lists (h : v.Lists syms) (hsize : (KVal.symsBytes syms).length < 2 ^ 32) :
    v.locs.map v.view = syms.map NulText.text :=
  views_of_shows (shows_of_lists h hsize)

theorem getString_eq (h : v.Lists syms) (hsize : (KVal.symsBytes syms).length < 2 ^ 32)
    (i : Nat) : v.getString i = syms[i]?.map NulText.text := by
  rw [getString, ← List.getElem?_map, views_of_lists h hsize, List.getElem?_map]

theorem indexOf_eq (h : v.Lists syms) (hsize : (KVal.symsBytes syms).length < 2 ^ 32)
    (col : List UInt8) : v.indexOf col =
      match (syms.map NulText.text).findIdx? (fun name => name == col) with
      | some i => i32 i
      | none => -1 := by
  rw [indexOf, ← views_of_lists h hsize, List.findIdx?_map]
  rfl

theorem firstAt_of_findIdx {names : List (List UInt8)} {col : List UInt8} {i : Nat}
    (h : names.findIdx? (fun name => name == col) = some i) : FirstAt names col i := by
  rcases List.findIdx?_eq_some_iff_getElem.mp h with ⟨hi, hcol, hbefore⟩
  refine ⟨?_, ?_⟩
  · rw [List.getElem?_eq_getElem hi, LawfulBEq.eq_of_beq hcol]
  · intro j hj hcol'
    have hjlt : j < names.length := Nat.lt_trans hj hi
    have hne := hbefore j hj
    rw [List.getElem?_eq_getElem hjlt, Option.some.injEq] at hcol'
    rw [hcol'] at hne
    simp at hne

theorem FirstAt.unique {names : List (List UInt8)} {col : List UInt8} {i j : Nat}
    (hi : FirstAt names col i) (hj : FirstAt names col j) : i = j := by
  rcases Nat.lt_trichotomy i j with hlt | heq | hlt
  · exact absurd hi.left (hj.right i hlt)
  · exact heq
  · exact absurd hj.left (hi.right j hlt)

theorem indexOf_first (h : v.Lists syms) (hsize : (KVal.symsBytes syms).length < 2 ^ 32) :
    (forall col, (exists i : Nat, v.indexOf col = i ∧
        FirstAt (syms.map NulText.text) col i) ∨
      (v.indexOf col = -1 ∧ col ∉ syms.map NulText.text)) <->
      forall col i, FirstAt (syms.map NulText.text) col i -> i < 2 ^ 31 := by
  constructor
  · intro hindex col i hfirst
    rcases hindex col with ⟨j, hj, hfirst'⟩ | ⟨_, hnone⟩
    · rw [hfirst.unique hfirst']
      rw [indexOf_eq h hsize] at hj
      rcases hfind : (syms.map NulText.text).findIdx? (fun name => name == col) with _ | k
      · rw [hfind] at hj
        simp only at hj
        omega
      · rw [hfind] at hj
        simp only at hj
        rw [i32] at hj
        have hrange := BitVec.toInt_lt (x := BitVec.ofNat 32 k)
        simp at hrange
        omega
    · exact absurd (List.mem_of_getElem? hfirst.left) hnone
  · intro hsmall col
    rw [indexOf_eq h hsize]
    rcases hfind : (syms.map NulText.text).findIdx? (fun name => name == col) with _ | i
    · refine Or.inr ⟨rfl, ?_⟩
      intro hmem
      have hnone := List.findIdx?_eq_none_iff.mp hfind col hmem
      simp at hnone
    · have hfirst := firstAt_of_findIdx hfind
      exact Or.inl ⟨i, i32_of_lt (hsmall col i hfirst), hfirst⟩

theorem symsBytes_sum (syms : List NulText) :
    (KVal.symsBytes syms).length = (syms.map (fun s => s.text.length + 1)).sum := by
  rw [KVal.symsBytes, List.length_flatMap]
  simp

theorem sound_iff (h : v.Lists syms) (hsize : (KVal.symsBytes syms).length < 2 ^ 32) :
    v.Sound syms <-> forall col i, FirstAt (syms.map NulText.text) col i -> i < 2 ^ 31 := by
  rw [← indexOf_first h hsize]
  refine ⟨fun hsound => hsound.index, fun hindex => ⟨?_, ?_, getString_eq h hsize, hindex, ?_⟩⟩
  · have htiles := tilesFrom_locsFrom syms 0 (by omega)
    rw [Nat.zero_add] at htiles
    rw [h.locs, h.data]
    exact htiles
  · intro loc hloc
    have hshows := shows_of_lists h hsize
    rcases List.getElem_of_mem hloc with ⟨i, hi, hat⟩
    have hi' : i < syms.length := hshows.length_eq ▸ hi
    have hshow := hshows.get hi hi'
    refine ⟨syms[i], ?_⟩
    rw [← hat]
    exact hshow.range
  · rw [wireSz, h.data, symsBytes_sum]

end Views

/--
After any operations on a vector of less than 4 GiB, the vector is a faithful list of the
symbols added or read exactly when none of them comes first at an index of 2^31 or more.
-/
theorem run_sound (start : Start) (ops : List Op)
    (hsize : (KVal.symsBytes (run start.vector start.syms ops).2).length < 2 ^ 32) :
    (run start.vector start.syms ops).1.Sound (run start.vector start.syms ops).2 <->
      forall col i,
        FirstAt ((run start.vector start.syms ops).2.map NulText.text) col i ->
          i < 2 ^ 31 := by
  rcases syms_prefix_run ops start.vector start.syms with ⟨more, hmore⟩
  have hstart : (KVal.symsBytes start.syms).length < 2 ^ 32 := by
    rw [← hmore, KVal.symsBytes_append, List.length_append] at hsize
    omega
  exact sound_iff (lists_run ops (lists_start start hstart)) hsize

/-- A symbol that is read in two pieces, behind one that was pushed. -/
theorem run_sound_pieces :
    (run (ofCap 3 0) [] [.push ⟨[98], by decide⟩ 0,
        .read (ReadBuf.new [97, 0, 99] 0), .read (ReadBuf.new [99, 0] (-9))]).1.Sound
      (run (ofCap 3 0) [] [.push ⟨[98], by decide⟩ 0,
        .read (ReadBuf.new [97, 0, 99] 0), .read (ReadBuf.new [99, 0] (-9))]).2 <->
      forall col i,
        FirstAt ((run (ofCap 3 0) [] [.push ⟨[98], by decide⟩ 0,
          .read (ReadBuf.new [97, 0, 99] 0),
          .read (ReadBuf.new [99, 0] (-9))]).2.map NulText.text) col i -> i < 2 ^ 31 :=
  run_sound (.cap 3 0) [.push ⟨[98], by decide⟩ 0, .read (ReadBuf.new [97, 0, 99] 0),
    .read (ReadBuf.new [99, 0] (-9))] (by decide)

/-- The name behind 2^31 empty ones is said to have a negative index. -/
theorem run_sound_far :
    ¬ forall (start : Start) (ops : List Op),
      (KVal.symsBytes (run start.vector start.syms ops).2).length < 2 ^ 32 ->
        (run start.vector start.syms ops).1.Sound (run start.vector start.syms ops).2 := by
  intro hclaim
  obtain ⟨n, hn⟩ : exists n : Nat, n = 2 ^ 31 := ⟨_, rfl⟩
  obtain ⟨syms, hsyms⟩ : exists syms, syms =
    List.replicate n (⟨[], by decide⟩ : NulText) ++ [⟨[97], by decide⟩] := ⟨_, rfl⟩
  have hsize : (KVal.symsBytes syms).length < 2 ^ 32 := by
    rw [symsBytes_sum, hsyms, List.map_append, List.map_replicate, List.sum_append,
      List.sum_replicate_nat]
    simp only [List.map_cons, List.map_nil, List.sum_cons, List.sum_nil, List.length_cons,
      List.length_nil]
    omega
  have hlists := lists_start (.vals syms 0) hsize
  have hsound := hclaim (.vals syms 0) [] hsize
  have hfirst : FirstAt (syms.map NulText.text) [97] n := by
    rw [hsyms, List.map_append, List.map_replicate]
    refine ⟨?_, ?_⟩
    · rw [List.getElem?_append_right (by rw [List.length_replicate]), List.length_replicate,
        Nat.sub_self]
      rfl
    · intro j hj
      rw [List.getElem?_append_left (by rw [List.length_replicate]; exact hj),
        List.getElem?_replicate_of_lt hj]
      simp
  have hlt := (indexOf_first hlists hsize).mp hsound.index [97] n hfirst
  rw [hn] at hlt
  exact absurd hlt (Nat.lt_irrefl _)

end KdbSymbolVector

end MgKdb
