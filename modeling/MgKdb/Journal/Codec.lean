import MgKdb.Journal.Payload
import MgKdb.Reader.Progress

/-!
# The scanner and the codec

On the encodings of values the length scanner, `wireSz` and the readers agree.
-/

namespace MgKdb

open Foundation

namespace KVal

mutual

def Scannable : KVal -> Prop
  | atom _ _ | symbolAtom _ | vector _ _ _ | symbolVector _ _ => True
  | list _ vals => ScannableAll vals
  | table _ _ _ vals => ScannableAll vals
  | dict keys vals => Scannable keys ∧ Scannable vals
  | exception _ | function _ | primitive _ _ | projection _ => False

def ScannableAll : List KVal -> Prop
  | [] => True
  | v :: vs => Scannable v ∧ ScannableAll vs

end

theorem scannableAll_iff {vs : List KVal} :
    ScannableAll vs <-> forall v, v ∈ vs -> Scannable v := by
  induction vs with
  | nil => simp [ScannableAll]
  | cons v vs ih => simp [ScannableAll, ih]

/-- The payload has the bytes of the value, and no count that the value has not. -/
def EncodedBy (v : KVal) (p : Payload) : Prop :=
  p.bytes = v.encode ∧ (v.CountsFit -> p.WellFormed)

theorem exists_payloads {vs : List KVal}
    (h : forall v, v ∈ vs -> exists p, EncodedBy v p) :
    exists ps : List Payload, ps.length = vs.length ∧
      Payload.bytesAll ps = encodeAll vs ∧
      (CountsFitAll vs -> Payload.WellFormedAll ps) := by
  induction vs with
  | nil => exact ⟨[], rfl, by rw [Payload.bytesAll, encodeAll_nil], fun _ => trivial⟩
  | cons v vs ih =>
      rcases h v (by simp) with ⟨p, hp, hfit⟩
      rcases ih (fun u hu => h u (List.mem_cons_of_mem v hu)) with
        ⟨ps, hlen, hps, hfits⟩
      refine ⟨p :: ps, by rw [List.length_cons, hlen, List.length_cons], ?_, ?_⟩
      · rw [Payload.bytesAll, hp, hps, encodeAll_cons]
      · intro hall
        exact ⟨hfit hall.left, hfits hall.right⟩

theorem exists_list {vs : List KVal} (attr : UInt8)
    (h : forall v, v ∈ vs -> exists p, EncodedBy v p) :
    exists p, EncodedBy (.list attr vs) p := by
  rcases exists_payloads h with ⟨ps, hlen, hps, hfits⟩
  refine ⟨.list attr ps, by rw [Payload.bytes, hlen, hps, encode], ?_⟩
  rintro ⟨hcount, hall⟩
  exact ⟨by rw [hlen]; exact hcount, hfits hall⟩

theorem exists_payload (v : KVal) : v.Scannable -> exists p, EncodedBy v p := by
  induction v with
  | exception msg => exact False.elim
  | atom e val => exact fun _ => ⟨.atom e val, by rw [Payload.bytes, encode], id⟩
  | symbolAtom val => exact fun _ => ⟨.symbolAtom val, by rw [Payload.bytes, encode], id⟩
  | list attr vals ih =>
      intro h
      rw [Scannable, scannableAll_iff] at h
      exact exists_list attr (fun v hv => ih v hv (h v hv))
  | vector e attr vec =>
      exact fun _ => ⟨.vector e attr vec, by rw [Payload.bytes, encode], id⟩
  | symbolVector attr syms =>
      exact fun _ => ⟨.symbolVector attr syms, by rw [Payload.bytes, encode], id⟩
  | table colsAttr cols valsAttr vals ih =>
      intro h
      rw [Scannable, scannableAll_iff] at h
      rcases exists_list valsAttr (fun v hv => ih v hv (h v hv)) with ⟨p, hp, hfit⟩
      refine ⟨.table 0 false (.symbolVector colsAttr cols) p, ?_, ?_⟩
      · rw [encode_table, Payload.bytes, Payload.bytes, hp, encode]
        rfl
      · rintro ⟨hcols, hvals⟩
        exact ⟨hcols, hfit hvals⟩
  | dict keys vals ihk ihv =>
      rintro ⟨hkeys, hvals⟩
      rcases ihk hkeys with ⟨k, hk, hkfit⟩
      rcases ihv hvals with ⟨w, hw, hwfit⟩
      refine ⟨.dict false k w, by rw [Payload.bytes, hk, hw, encode]; rfl, ?_⟩
      rintro ⟨hkcount, hwcount⟩
      exact ⟨hkfit hkcount, hwfit hwcount⟩
  | function text => exact False.elim
  | primitive arity val => exact False.elim
  | projection parts => exact False.elim

theorem read_encode (v : KVal) (hfit : v.CountsFit) (rest : List UInt8) :
    exists o b, newInstance (ReadBuf.new (v.encode ++ rest) 0) = (.ok o, b) ∧
      o.read b = (.ok, v.obj, (ReadBuf.new (v.encode ++ rest) 0).adj v.encode.length) := by
  have hresumes := slot_resumes v hfit
  have hat : (ReadBuf.new (v.encode ++ rest) 0).At 0 0 0 :=
    Or.inr ⟨Int.le_refl 0, rfl, rfl⟩
  have hout := hresumes.resume hresumes.fresh hat (Or.inl rfl) List.prefix_rfl
  have hroom : v.encode.length <= 0 + (ReadBuf.new (v.encode ++ rest) 0).remaining := by
    rw [ReadBuf.remaining, ReadBuf.new, List.length_append]
    omega
  rcases hnew : newInstance (ReadBuf.new (v.encode ++ rest) 0) with ⟨rr | o, b1⟩
  · simp only [readElem, hnew] at hout
    cases hout with
    | short _ k' hx hk hk' hlt => omega
  · rcases hread : o.read b1 with ⟨rr, o', b2⟩
    simp only [readElem, hnew, hread] at hout
    refine ⟨o, b1, rfl, ?_⟩
    cases hout with
    | done hle =>
        rw [hread, Nat.sub_zero, ReadBuf.advance_of_nonneg (Int.le_refl 0)]
    | short _ k' hx hk hk' hlt => omega

/--
The scanner, `wireSz` and the readers agree on the encoding of a value, whatever
follows it.
-/
theorem ipcPayloadLen_encode (v : KVal) (hv : v.Scannable)
    (hsize : v.encode.length < 2 ^ 31) (rest : List UInt8) :
    ipcPayloadLen (v.encode ++ rest) = some (v.encode.length : Int) ∧
      (forall o, v.Holds o -> o.wireSz = some v.encode.length) ∧
      exists o b b', newInstance (ReadBuf.new (v.encode ++ rest) 0) = (.ok o, b) ∧
        o.read b = (.ok, v.obj, b') ∧ b'.off = v.encode.length := by
  have hfit := countsFit_of_length_lt v hsize
  rcases exists_payload v hv with ⟨p, hp, hwf⟩
  rcases read_encode v hfit rest with ⟨o, b, hnew, hread⟩
  refine ⟨?_, fun o ho => wireSz_of_holds v ho, o, b, _, hnew, hread, ?_⟩
  · rw [← hp]
    exact p.ipcPayloadLen_measures (hwf hfit)
      (p.dictsFit_of_length_lt (by rw [hp]; exact hsize)) rest
  · rw [ReadBuf.adj_off, ReadBuf.new, Nat.zero_add]

/-- A table of one column, followed by other bytes. -/
theorem ipcPayloadLen_encode_table :
    ipcPayloadLen ((KVal.table 0 [⟨[97], by decide⟩] 0 [.vector .long 0 [7]]).encode ++
        [0, 255]) =
      some ((KVal.table 0 [⟨[97], by decide⟩] 0 [.vector .long 0 [7]]).encode.length :
        Int) :=
  (ipcPayloadLen_encode (.table 0 [⟨[97], by decide⟩] 0 [.vector .long 0 [7]])
    (by simp [Scannable, ScannableAll]) (by decide +kernel) [0, 255]).left

end KVal

end MgKdb
