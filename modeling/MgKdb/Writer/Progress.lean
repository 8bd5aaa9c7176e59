import MgKdb.Writer.Resume

/-!
# Objects are written resumably

Every complete object writes the bytes that stand for it, over as many calls as it
takes, and goes on in each call that has room for its largest unit.
-/

namespace MgKdb

open Foundation WriteBuf

namespace KdbBase

mutual

/-- The size of the largest thing in the encoding that is stored as a whole. -/
def unit : KdbBase -> Nat
  | exception msg => 1 + msg.length + 1
  | atom e _ => 1 + e.width
  | symbolAtom val => 1 + val.length + 1
  | list _ _ vals => max 6 (unitAll vals)
  | vector e _ _ vec => if vec = [] then 6 else max 6 e.width
  | symbolVector _ _ _ _ => 6
  | table cols vals => max 3 (max (unitPtr cols) (unitPtr vals))
  | dict keys vals => max 1 (max (unitPtr keys) (unitPtr vals))
  | function _ _ => 8
  | primitive _ _ => 2
  | projection _ vec => max 5 (unitAll vec)

def unitAll : List KdbBase -> Nat
  | [] => 0
  | o :: os => max (unit o) (unitAll os)

def unitPtr : Option KdbBase -> Nat
  | none => 0
  | some o => unit o

end

end KdbBase

/-!
## The classes without parts
-/

section Classes

variable {unit : Nat}

theorem puts_whenRoom {f : WriteBuf -> Bool × WriteBuf} {xs : List UInt8} {n : Nat}
    (hf : Appends f xs) (hn : xs.length = n) : Puts (whenRoom n f) xs := by
  refine puts_of_appends hf ?_
  intro b
  rw [whenRoom, canWrite_eq, hn]
  by_cases hroom : n <= b.remaining
  · rw [if_neg (by simpa using hroom), if_neg (by omega)]
  · rw [if_pos (by simpa using hroom), if_pos (by omega)]

theorem writeText_steady (t : KdbType) (str : List UInt8)
    (hunit : 1 + str.length + 1 <= unit) :
    Steady unit (t.i8 :: (str ++ [0])) (AtEnds (1 + str.length + 1)) (writeText t str) := by
  have happends : Appends (fun b => (b.writeTyp t).2.writeSym str)
      (t.i8 :: (str ++ [0])) :=
    (puts_writeTyp t).appends.then (puts_writeSym str).appends
  have hlen : (t.i8 :: (str ++ [0])).length = 1 + str.length + 1 := by
    rw [List.length_cons, List.length_append, List.length_singleton]
    omega
  exact Steady.head (puts_whenRoom happends hlen) hlen hunit

theorem writeIntAtom_steady (e : Elem) (val : BitVec (8 * e.width))
    (hunit : 1 + e.width <= unit) :
    Steady unit (e.atomTyp.i8 :: wordBytes e.width val) (AtEnds (1 + e.width))
      (writeIntAtom e val) := by
  have happends : Appends (fun b => (b.writeTyp e.atomTyp).2.write
      (wordBytes e.width val)) (e.atomTyp.i8 :: wordBytes e.width val) :=
    (puts_writeTyp e.atomTyp).appends.then (puts_write _).appends
  have hlen : (e.atomTyp.i8 :: wordBytes e.width val).length = 1 + e.width := by
    rw [List.length_cons, wordBytes_length]
    omega
  exact Steady.head (puts_whenRoom happends hlen) hlen hunit

theorem writeVecHdr_steady (t : KdbType) (attr : UInt8) (size : Nat) (hunit : 6 <= unit) :
    Steady unit (KVal.vecHdr t attr size) (AtEnds 6) (writeVecHdr t attr size) :=
  Steady.head (puts_writeHdr t attr size) (KVal.vecHdr_length t attr size) hunit

theorem writeFunctionHdr_steady (n : Nat) (hunit : 8 <= unit) :
    Steady unit (KVal.functionHdr n) (AtEnds 8) (fun b => b.writeHead 8 (whenRoom 8 fun b =>
      ((b.writeTyp .function).2.writeAtt 0).2.writeHdr .charVector 0 n)) := by
  have happends := ((puts_writeTyp .function).appends.then
    (puts_writeAtt 0).appends).then (puts_writeHdr .charVector 0 n).appends
  exact Steady.head (puts_whenRoom happends (KVal.functionHdr_length n))
    (KVal.functionHdr_length n) hunit

theorem writePrimitive_steady (arity : Arity) (val : UInt8) (hunit : 2 <= unit) :
    Steady unit [arity.typ.i8, val] (AtEnds 2) (KdbPrimitive.write arity val) := by
  have happends : Appends (fun b => (b.writeTyp arity.typ).2.write [val])
      [arity.typ.i8, val] :=
    (puts_writeTyp arity.typ).appends.then (puts_write [val]).appends
  exact Steady.head (puts_whenRoom happends rfl) rfl hunit

theorem writeTableHdr_steady (hunit : 3 <= unit) :
    Steady unit KVal.tableHdr (AtEnds 3) (fun b => b.writeHead 3 (whenRoom 3 fun b =>
      ((b.writeTyp .table).2.writeAtt 0).2.writeTyp .dict)) := by
  have happends := ((puts_writeTyp .table).appends.then
    (puts_writeAtt 0).appends).then (puts_writeTyp .dict).appends
  exact Steady.head (puts_whenRoom happends rfl) rfl hunit

theorem writeProjectionHdr_steady (n : Nat) (hunit : 5 <= unit) :
    Steady unit (KVal.projectionHdr n) (AtEnds 5) (fun b => b.writeHead 5
      (whenRoom 5 fun b => (b.writeTyp .projection).2.writeI32 n)) := by
  have happends : Appends (fun b => (b.writeTyp .projection).2.writeI32 n)
      (KVal.projectionHdr n) :=
    (puts_writeTyp .projection).appends.then (puts_writeI32 n).appends
  exact Steady.head (puts_whenRoom happends (KVal.projectionHdr_length n))
    (KVal.projectionHdr_length n) hunit

end Classes

/-!
## Containers
-/

/-- The object writes its bytes, and goes on with room for its largest unit. -/
def WritesSteadily (o : KdbBase) : Prop :=
  forall {unit : Nat} {xs : List UInt8}, o.unit <= unit -> o.bytes = some xs ->
    exists stop, Steady unit xs stop o.write

theorem writeVals_steady {os : List KdbBase} (h : forall o, o ∈ os -> WritesSteadily o) :
    forall {unit : Nat} {xs : List UInt8}, KdbBase.unitAll os <= unit ->
      KdbBase.bytesAll os = some xs ->
        exists stop, Steady unit xs stop (KdbBase.writeVals os) := by
  induction os with
  | nil =>
      intro unit xs _ hxs
      rw [KdbBase.bytesAll] at hxs
      cases hxs
      exact ⟨_, Steady.nil.congr fun _ => rfl⟩
  | cons o os ih =>
      intro unit xs hunit hxs
      rw [KdbBase.unitAll, Nat.max_le] at hunit
      rcases KdbBase.bytesAll_cons hxs with ⟨ys, zs, hys, hzs, rfl⟩
      rcases h o (by simp) hunit.left hys with ⟨stop, ho⟩
      rcases ih (fun u hu => h u (List.mem_cons_of_mem o hu)) hunit.right hzs with
        ⟨stop', hos⟩
      exact ⟨_, (ho.andThen hos).congr fun _ => rfl⟩

theorem exception_steady (msg : List UInt8) : WritesSteadily (.exception msg) := by
  intro unit xs hunit h
  change 1 + msg.length + 1 <= unit at hunit
  rw [KdbBase.bytes] at h
  cases h
  exact ⟨_, (writeText_steady .exception msg hunit).congr fun _ => rfl⟩

theorem atom_steady (e : Elem) (val : BitVec (8 * e.width)) : WritesSteadily (.atom e val) := by
  intro unit xs hunit h
  change 1 + e.width <= unit at hunit
  rw [KdbBase.bytes] at h
  cases h
  exact ⟨_, (writeIntAtom_steady e val hunit).congr fun _ => rfl⟩

theorem symbolAtom_steady (val : List UInt8) : WritesSteadily (.symbolAtom val) := by
  intro unit xs hunit h
  change 1 + val.length + 1 <= unit at hunit
  rw [KdbBase.bytes] at h
  cases h
  exact ⟨_, (writeText_steady .symbolAtom val hunit).congr fun _ => rfl⟩

theorem list_steady (cap : Nat) (attr : UInt8) {vals : List KdbBase}
    (ih : forall o, o ∈ vals -> WritesSteadily o) : WritesSteadily (.list cap attr vals) := by
  intro unit xs hunit h
  change max 6 (KdbBase.unitAll vals) <= unit at hunit
  rw [Nat.max_le] at hunit
  rw [KdbBase.bytes] at h
  rcases Option.map_eq_some_iff.mp h with ⟨ys, hys, rfl⟩
  rcases writeVals_steady ih hunit.right hys with ⟨stop, hvals⟩
  have hall := (writeVecHdr_steady .list attr vals.length hunit.left).andThen hvals
  exact ⟨_, hall.congr fun _ => rfl⟩

theorem vector_steady (e : Elem) (cap : Nat) (attr : UInt8)
    (vec : List (BitVec (8 * e.width))) : WritesSteadily (.vector e cap attr vec) := by
  intro unit xs hunit h
  change (if vec = [] then 6 else max 6 e.width) <= unit at hunit
  rw [KdbBase.bytes] at h
  cases h
  have hdvd : e.width ∣ (wordsBytes e.width vec).length := by
    rw [wordsBytes_length]
    exact Nat.dvd_mul_right _ _
  have hhdr : 6 <= unit := by
    split at hunit <;> omega
  have helem : wordsBytes e.width vec ≠ [] -> e.width <= unit := by
    intro hne
    rw [if_neg (by rintro rfl; exact hne rfl)] at hunit
    omega
  have hall := (writeVecHdr_steady e.vectorTyp attr vec.length hhdr).andThen
    (Steady.elems _ e.width_pos hdvd helem)
  exact ⟨_, hall.congr fun _ => rfl⟩

theorem symbolVector_steady (cap : Nat) (attr : UInt8) (locs : List LocInfo)
    (data : List UInt8) : WritesSteadily (.symbolVector cap attr locs data) := by
  intro unit xs hunit h
  change 6 <= unit at hunit
  rw [KdbBase.bytes] at h
  cases h
  have hall := (writeVecHdr_steady .symbolVector attr locs.length hunit).andThen
    (Steady.elems data Nat.one_pos (Nat.one_dvd _) (fun _ => by omega))
  exact ⟨_, hall.congr fun _ => rfl⟩

theorem table_steady {cols vals : Option KdbBase}
    (ihc : forall o, cols = some o -> WritesSteadily o)
    (ihv : forall o, vals = some o -> WritesSteadily o) : WritesSteadily (.table cols vals) := by
  intro unit xs hunit h
  change max 3 (max (KdbBase.unitPtr cols) (KdbBase.unitPtr vals)) <= unit at hunit
  rw [Nat.max_le, Nat.max_le] at hunit
  rw [KdbBase.bytes] at h
  rcases KdbBase.bytesPtr_pair h with ⟨o, o', ys, zs, rfl, rfl, hys, hzs, rfl⟩
  rcases ihc o rfl hunit.right.left hys with ⟨stop, hcols⟩
  rcases ihv o' rfl hunit.right.right hzs with ⟨stop', hvals⟩
  have hall := ((writeTableHdr_steady hunit.left).andThen hcols).andThen hvals
  exact ⟨_, hall.congr fun _ => rfl⟩

theorem dict_steady {keys vals : Option KdbBase}
    (ihk : forall o, keys = some o -> WritesSteadily o)
    (ihv : forall o, vals = some o -> WritesSteadily o) : WritesSteadily (.dict keys vals) := by
  intro unit xs hunit h
  change max 1 (max (KdbBase.unitPtr keys) (KdbBase.unitPtr vals)) <= unit at hunit
  rw [Nat.max_le, Nat.max_le] at hunit
  rw [KdbBase.bytes] at h
  rcases KdbBase.bytesPtr_pair h with ⟨o, o', ys, zs, rfl, rfl, hys, hzs, rfl⟩
  rcases ihk o rfl hunit.right.left hys with ⟨stop, hkeys⟩
  rcases ihv o' rfl hunit.right.right hzs with ⟨stop', hvals⟩
  have hhdr : Steady unit [KdbType.dict.i8] (AtEnds 1)
      (fun b => b.writeHead 1 (writeTyp .dict)) :=
    Steady.head (puts_writeTyp .dict) rfl hunit.left
  have hall := (hhdr.andThen hkeys).andThen hvals
  exact ⟨_, hall.congr fun _ => rfl⟩

theorem function_steady (cap : Nat) (vec : List UInt8) :
    WritesSteadily (.function cap vec) := by
  intro unit xs hunit h
  change 8 <= unit at hunit
  rw [KdbBase.bytes] at h
  by_cases hcap : cap = vec.length
  · rw [if_pos hcap] at h
    cases h
    have hall := (writeFunctionHdr_steady vec.length hunit).andThen
      (Steady.functionData vec (by omega))
    exact ⟨_, hall.congr fun b => by
      change KdbFunction.write cap vec b = _
      rw [KdbFunction.write, hcap]⟩
  · rw [if_neg hcap] at h
    cases h

theorem primitive_steady (arity : Arity) (val : UInt8) :
    WritesSteadily (.primitive arity val) := by
  intro unit xs hunit h
  change 2 <= unit at hunit
  rw [KdbBase.bytes] at h
  cases h
  exact ⟨_, (writePrimitive_steady arity val hunit).congr fun _ => rfl⟩

theorem projection_steady (cap : Nat) {vec : List KdbBase}
    (ih : forall o, o ∈ vec -> WritesSteadily o) : WritesSteadily (.projection cap vec) := by
  intro unit xs hunit h
  change max 5 (KdbBase.unitAll vec) <= unit at hunit
  rw [Nat.max_le] at hunit
  rw [KdbBase.bytes] at h
  rcases Option.map_eq_some_iff.mp h with ⟨ys, hys, rfl⟩
  rcases writeVals_steady ih hunit.right hys with ⟨stop, hvals⟩
  have hall := (writeProjectionHdr_steady vec.length hunit.left).andThen hvals
  exact ⟨_, hall.congr fun _ => rfl⟩

theorem write_steady (o : KdbBase) : WritesSteadily o := by
  induction o with
  | exception msg => exact exception_steady msg
  | atom e val => exact atom_steady e val
  | symbolAtom val => exact symbolAtom_steady val
  | list cap attr vals ih => exact list_steady cap attr ih
  | vector e cap attr vec => exact vector_steady e cap attr vec
  | symbolVector cap attr locs data => exact symbolVector_steady cap attr locs data
  | table cols vals ihc ihv => exact table_steady ihc ihv
  | dict keys vals ihk ihv => exact dict_steady ihk ihv
  | function cap vec => exact function_steady cap vec
  | primitive arity val => exact primitive_steady arity val
  | projection cap vec ih => exact projection_steady cap ih

def WritesBytes (o : KdbBase) : Prop :=
  forall {xs : List UInt8}, o.bytes = some xs -> exists stop, Writes xs stop o.write

theorem write_writes (o : KdbBase) : WritesBytes o := by
  intro xs hxs
  rcases write_steady o (Nat.le_refl _) hxs with ⟨stop, h⟩
  exact ⟨stop, h.writes⟩

end MgKdb
