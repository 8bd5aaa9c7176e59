import MgKdb.Ipcjs.RoundTrip

/-!
# Text on the wire

Text is sent as UTF-8 in three ways.  The readers hand it to the decoder as signed bytes, in
which it finds nothing but ASCII characters.
-/

namespace MgKdb
namespace Ipcjs

open Foundation CursorM

/-- `new KdbCharVector` of text; empty text is taken for a missing argument. -/
def newCharVector (str : List UInt16) (att : Option Int) : Except JsError KdbType :=
  if str = [] then .error (.typeError (some "Array cannot be null or undefined"))
  else .ok (.vector .char (signed (u8u16 str)) att)

def asString (ary : List Int) : List UInt16 :=
  u16u8 ary

def sendBack (msgTyp : Int) (x : KdbType) : Except JsError KdbType := do
  let bytes ← serialize msgTyp x
  let out ← deserialize bytes
  return out.msg

/-- The ways to send text: alone, among the symbols of a vector, and as characters. -/
inductive Sent where
  | symbolAtom (s : List UInt16)
  | element (before : List (List UInt16)) (s : List UInt16) (after : List (List UInt16))
    (att : Option Int)
  | charVector (s : List UInt16) (att : Option Int)

namespace Sent

/-- There is no NUL in the text, nor in the text of the other symbols. -/
def NulFree : Sent -> Prop
  | symbolAtom s => 0 ∉ s
  | element before s after _ => forall t, t ∈ before ++ s :: after -> 0 ∉ t
  | charVector s _ => 0 ∉ s

def Survives (msgTyp : Int) : Sent -> Prop
  | symbolAtom s => sendBack msgTyp (newSymbolAtom s) = .ok (.atom .symbol s)
  | element before s after att =>
      exists ary att', sendBack msgTyp (.vector .symbol (before ++ s :: after) att) =
          .ok (.vector .symbol ary att') ∧
        ary[before.length]? = some s
  | charVector s att =>
      exists vec ary att', newCharVector s att = .ok vec ∧
        sendBack msgTyp vec = .ok (.vector .char ary att') ∧ asString ary = s

/-- ASCII, and not empty where that is no text; counts are signed and have 32 bits. -/
def Legible : Sent -> Prop
  | symbolAtom s => IsAscii s
  | element before s after _ =>
      IsAscii s ∧
        before.length < (BitVec.ofInt 32 (before ++ s :: after).length).toInt
  | charVector s _ => s ≠ [] ∧ IsAscii s ∧ s.length < 2 ^ 31

end Sent

/-!
## Sending
-/

theorem sendBack_eq_read (msgTyp : Int) {x : KdbType} {bs : List UInt8}
    (hbs : x.bytes = some bs) :
    sendBack msgTyp x =
      (read (8 + bs.length) ⟨msgHdrBytes msgTyp bs.length ++ bs,
        (msgHdrBytes msgTyp bs.length).length⟩).map Prod.fst := by
  have hlen : (msgHdrBytes msgTyp bs.length ++ bs).length = 8 + bs.length := by
    rw [List.length_append, msgHdrBytes_length]
  rw [sendBack, serialize_of_bytes msgTyp hbs]
  show Except.bind (deserialize _) _ = _
  rw [deserialize, new_msgHdrBytes_any, hlen, msgHdrBytes_length]
  show Except.bind (Except.bind (read _ _) _) _ = Except.map Prod.fst (read _ _)
  cases read _ _ with
  | error e => rfl
  | ok out => rfl

theorem sendBack_eq (msgTyp : Int) {x : KdbType} {typ : Int} {bs : List UInt8}
    (htyp : Fits 8 typ) (hbs : x.bytes = some (i8Bytes typ ++ bs)) :
    exists (front : List UInt8) (depth : Nat), front.length = 9 ∧
      sendBack msgTyp x =
        (readTyp (read depth) typ ⟨front ++ bs, front.length⟩).map Prod.fst := by
  have hlen : 8 + (i8Bytes typ ++ bs).length = 8 + bs.length + 1 := by
    rw [List.length_append, i8Bytes_length]
    omega
  refine ⟨msgHdrBytes msgTyp (i8Bytes typ ++ bs).length ++ i8Bytes typ, 8 + bs.length, ?_, ?_⟩
  · rw [List.length_append, msgHdrBytes_length, i8Bytes_length]
  · rw [sendBack_eq_read msgTyp hbs, hlen, read, (reads_readI8 htyp).run_bind]

theorem sendBack_of_reads (msgTyp : Int) {x v : KdbType} {typ : Int} {bs back : List UInt8}
    (htyp : Fits 8 typ) (hbs : x.bytes = some (i8Bytes typ ++ (bs ++ back)))
    (hread : forall depth, Reads (readTyp (read depth) typ) bs v) :
    sendBack msgTyp x = .ok v := by
  rcases sendBack_eq msgTyp htyp hbs with ⟨front, depth, _, hback⟩
  rw [hback, hread depth front back]
  rfl

/-!
## Symbols
-/

def received (s : List UInt16) : List UInt16 :=
  u16u8 (signed (u8u16 s))

theorem sendBack_symbolAtom (msgTyp : Int) {s : List UInt16} (hs : 0 ∉ s) :
    sendBack msgTyp (newSymbolAtom s) = .ok (.atom .symbol (received s)) := by
  have hread : forall depth, Reads (readTyp (read depth) (-11)) (symBytes s)
      (.atom .symbol (received s)) :=
    fun _ => (reads_readSym_text hs).map newSymbolAtom
  have hbytes : (newSymbolAtom s).bytes = some (i8Bytes (-11) ++ (symBytes s ++ [])) := by
    rw [List.append_nil]
    rfl
  exact sendBack_of_reads msgTyp (by decide) hbytes hread

def countRead (n : Nat) : Int :=
  (BitVec.ofInt 32 n).toInt

theorem countRead_le (n : Nat) : countRead n <= n := by
  rw [countRead, BitVec.toInt_ofInt, Int.bmod_def]
  split <;> omega

theorem countRead_lt (n : Nat) : countRead n < 2 ^ 31 := by
  rw [countRead, BitVec.toInt_ofInt, Int.bmod_def]
  split <;> omega

theorem countRead_of_lt {n : Nat} (h : n < 2 ^ 31) : countRead n = n := by
  rw [countRead, BitVec.toInt_ofInt, Int.bmod_def]
  split <;> omega

theorem bytes_symbolVector (ary : List (List UInt16)) (att : Option Int) :
    (KdbType.vector .symbol ary att).bytes =
      some (i8Bytes 11 ++ (i8Bytes (att.getD 0) ++
        (i32Bytes ary.length ++ ary.flatMap symBytes))) := by
  rw [KdbType.bytes, vecHdrBytes, List.append_assoc, List.append_assoc]
  rfl

theorem sendBack_symbolVector (msgTyp : Int) {ary : List (List UInt16)} (att : Option Int)
    (hary : forall t, t ∈ ary -> 0 ∉ t) (hcount : 0 <= countRead ary.length) :
    exists att', sendBack msgTyp (.vector .symbol ary att) =
      .ok (.vector .symbol ((ary.take (countRead ary.length).toNat).map received) att') := by
  have hle := countRead_le ary.length
  have hlen : (ary.take (countRead ary.length).toNat).length = (countRead ary.length).toNat := by
    rw [List.length_take]
    omega
  have htext : forall t, t ∈ ary.take (countRead ary.length).toNat ->
      Reads readSym (symBytes t) (received t) :=
    fun t ht => reads_readSym_text (hary t (List.mem_of_mem_take ht))
  have htimes := Reads.times htext
  rw [hlen] at htimes
  have hreads : Reads (readI32 >>= readAry readSym)
      (i32Bytes ary.length ++
        (ary.take (countRead ary.length).toNat).flatMap symBytes)
      ((ary.take (countRead ary.length).toNat).map received) := by
    refine (reads_readI32_any ary.length).bind ?_
    change Reads (readAry readSym (countRead ary.length)) _ _
    rw [readAry, if_neg (by omega)]
    exact htimes
  have hbytes : (KdbType.vector .symbol ary att).bytes =
      some (i8Bytes 11 ++ ((i8Bytes (att.getD 0) ++ (i32Bytes ary.length ++
        (ary.take (countRead ary.length).toNat).flatMap symBytes)) ++
          (ary.drop (countRead ary.length).toNat).flatMap symBytes)) := by
    rw [bytes_symbolVector, List.append_assoc, List.append_assoc, <- List.flatMap_append,
      List.take_append_drop]
  exact ⟨_, sendBack_of_reads msgTyp (by decide) hbytes
    (fun depth => (reads_readI8_any _).bind (hreads.bind_pure _))⟩

theorem sendBack_symbolVector_negative (msgTyp : Int) {ary : List (List UInt16)}
    (att : Option Int) (hcount : countRead ary.length < 0) :
    sendBack msgTyp (.vector .symbol ary att) = .error (.rangeError none) := by
  have hfits : Fits 8 11 := by decide
  rcases sendBack_eq msgTyp hfits (bytes_symbolVector ary att) with ⟨front, depth, _, hback⟩
  have hary : forall front back : List UInt8, (readI32 >>= readAry readSym)
      ⟨front ++ (i32Bytes ary.length ++ back), front.length⟩ = .error (.rangeError none) := by
    intro front back
    rw [(reads_readI32_any ary.length).run_bind]
    change readAry readSym (countRead ary.length) _ = _
    rw [readAry, if_pos hcount]
    rfl
  rw [hback]
  show Except.map Prod.fst ((readI8 >>= fun att => (readI32 >>= readAry readSym) >>=
    fun ary => pure (KdbType.vector .symbol ary att)) _) = _
  rw [(reads_readI8_any _).run_bind, bind_error (hary _ _)]
  rfl

/-!
## Characters
-/

theorem ofInt_toInt8 (b : UInt8) : UInt8.ofInt b.toInt8.toInt = b := by
  have hlt := b.toNat_lt
  have hint : b.toInt8.toInt = b.toBitVec.toInt := rfl
  have hnat : b.toBitVec.toNat = b.toNat := rfl
  rw [<- UInt8.toNat_inj, UInt8.ofInt, UInt8.toNat_ofNat', hint, BitVec.toInt_eq_toNat_cond,
    hnat]
  split <;> omega

theorem flatMap_signed (bs : List UInt8) : (signed bs).flatMap i8Bytes = bs := by
  induction bs with
  | nil => rfl
  | cons b bs ih =>
      show i8Bytes b.toInt8.toInt ++ (signed bs).flatMap i8Bytes = b :: bs
      rw [ih, i8Bytes, ofInt_toInt8, List.singleton_append]

theorem bytes_charVector (bs : List UInt8) (att : Option Int) :
    (KdbType.vector .char (signed bs) att).bytes =
      some (i8Bytes 10 ++ (i8Bytes (att.getD 0) ++ (i32Bytes bs.length ++ bs))) := by
  have hlen : (signed bs).length = bs.length := List.length_map _
  have helms : (signed bs).flatMap (elmBytes .char) = bs := flatMap_signed bs
  rw [KdbType.bytes, vecHdrBytes, helms, hlen, List.append_assoc, List.append_assoc]
  rfl

theorem span_short (front : List UInt8) {bs : List UInt8} {len : Int} (hlen : len < 2 ^ 31)
    (hbs : 2 ^ 31 <= bs.length) :
    exists (got : List UInt8) (c : Cursor UInt8),
      (span len : Reader (List UInt8)) ⟨front ++ bs, front.length⟩ = .ok (got, c) ∧
        got.length < bs.length := by
  refine ⟨_, _, rfl, ?_⟩
  simp only [List.length_drop, List.length_take, List.length_append, clamp]
  split <;> split <;> omega

/-- A slice of the bytes is received, of which some are missing if their number does not fit
the count. -/
theorem sendBack_charVector (msgTyp : Int) (bs : List UInt8) (att : Option Int) :
    exists (got : List UInt8) (att' : Option Int),
      sendBack msgTyp (.vector .char (signed bs) att) = .ok (.vector .char (signed got) att') ∧
        (bs.length < 2 ^ 31 -> got = bs) ∧ (2 ^ 31 <= bs.length -> got.length < bs.length) := by
  have hfits : Fits 8 10 := by decide
  rcases sendBack_eq msgTyp hfits (bytes_charVector bs att) with ⟨front, depth, hfront, hback⟩
  rw [hback]
  show exists got att', Except.map Prod.fst ((readI8 >>= fun att => readI32 >>= fun len =>
    span len >>= fun ary => pure (KdbType.vector .char (signed ary) att)) _) = _ ∧ _
  rw [(reads_readI8_any _).run_bind, (reads_readI32_any _).run_bind]
  change exists got att', Except.map Prod.fst ((span (countRead bs.length) >>= _) _) = _ ∧ _
  by_cases hcount : bs.length < 2 ^ 31
  · have hspan := Reads.span (ε := JsError) bs
      (front ++ i8Bytes (att.getD 0) ++ i32Bytes bs.length) []
    rw [List.append_nil] at hspan
    refine ⟨bs, some (UInt8.ofInt (att.getD 0)).toInt8.toInt, ?_, fun _ => rfl,
      fun hbig => absurd hcount (Nat.not_lt.mpr hbig)⟩
    rw [countRead_of_lt hcount, bind_ok hspan]
    rfl
  · rcases span_short (front ++ i8Bytes (att.getD 0) ++ i32Bytes bs.length)
      (countRead_lt bs.length) (Nat.le_of_not_lt hcount) with ⟨got, c, hspan, hshort⟩
    refine ⟨got, some (UInt8.ofInt (att.getD 0)).toInt8.toInt, ?_,
      fun hsmall => absurd hsmall hcount, fun _ => hshort⟩
    rw [bind_ok hspan]
    rfl

theorem asString_ascii (got : List UInt8) :
    forall c, c ∈ asString (signed got) -> c < 0x80 := by
  intro c hc
  rw [asString, signed, u16u8_signed] at hc
  rcases List.mem_map.mp hc with ⟨b, hb, rfl⟩
  have hlt : b.toNat < 128 := of_decide_eq_true (List.mem_filter.mp hb).right
  rw [UInt16.lt_iff_toNat_lt, UInt8.toNat_toUInt16]
  exact hlt

theorem asString_length_le (got : List UInt8) : (asString (signed got)).length <= got.length := by
  rw [asString, signed, u16u8_signed, List.length_map]
  exact List.length_filter_le _ got

theorem asString_got {s : List UInt16} (hs : 0 ∉ s) {got : List UInt8}
    (hall : (u8u16 s).length < 2 ^ 31 -> got = u8u16 s)
    (hsome : 2 ^ 31 <= (u8u16 s).length -> got.length < (u8u16 s).length) :
    asString (signed got) = s <-> IsAscii s ∧ s.length < 2 ^ 31 := by
  have hlen : IsAscii s -> (u8u16 s).length = s.length := by
    intro hascii
    rw [u8u16_ascii hascii, List.length_map]
  constructor
  · intro hsame
    have hascii : IsAscii s := by
      intro c hc
      have hne : c ≠ 0 := fun hzero => hs (hzero ▸ hc)
      refine ⟨UInt16.pos_iff_ne_zero.mpr hne, asString_ascii got c ?_⟩
      rwa [hsame]
    refine ⟨hascii, ?_⟩
    have hle := asString_length_le got
    rw [hsame] at hle
    rw [hlen hascii] at hsome
    by_contra hbig
    have hshort := hsome (Nat.le_of_not_lt hbig)
    omega
  · rintro ⟨hascii, hfits⟩
    rw [hall (by rw [hlen hascii]; exact hfits)]
    exact (u16u8_u8u16 hs).mpr hascii

/-!
## What survives
-/

theorem survives_symbolAtom (msgTyp : Int) {s : List UInt16} (hs : 0 ∉ s) :
    (Sent.symbolAtom s).Survives msgTyp <-> IsAscii s := by
  rw [Sent.Survives, sendBack_symbolAtom msgTyp hs, <- u16u8_u8u16 hs]
  constructor
  · intro h
    injection h with hatom
    injection hatom
  · intro h
    exact congrArg (fun val => Except.ok (KdbType.atom .symbol val)) h

theorem survives_element (msgTyp : Int) {before after : List (List UInt16)} {s : List UInt16}
    (att : Option Int) (hall : forall t, t ∈ before ++ s :: after -> 0 ∉ t) :
    (Sent.element before s after att).Survives msgTyp <->
      IsAscii s ∧ before.length < countRead (before ++ s :: after).length := by
  have hs : 0 ∉ s := hall s (List.mem_append_right before List.mem_cons_self)
  have hat : (before ++ s :: after)[before.length]? = some s := by
    rw [List.getElem?_append_right (Nat.le_refl _), Nat.sub_self, List.getElem?_cons_zero]
  rw [Sent.Survives]
  by_cases hcount : 0 <= countRead (before ++ s :: after).length
  · rcases sendBack_symbolVector msgTyp att hall hcount with ⟨att', hback⟩
    have hget : (((before ++ s :: after).take
        (countRead (before ++ s :: after).length).toNat).map received)[before.length]? = some s <->
        IsAscii s ∧ before.length < countRead (before ++ s :: after).length := by
      rw [List.getElem?_map, List.getElem?_take, hat]
      by_cases hin : before.length < (countRead (before ++ s :: after).length).toNat
      · rw [if_pos hin, Option.map_some, Option.some.injEq, received, signed, u16u8_u8u16 hs]
        exact (and_iff_left (by omega)).symm
      · rw [if_neg hin]
        exact iff_of_false (fun h => by cases h) (fun h => by omega)
    rw [<- hget]
    constructor
    · rintro ⟨ary, att'', hback', hsame⟩
      have hout := hback.symm.trans hback'
      injection hout with hout
      injection hout with _ hary
      rwa [hary]
    · exact fun hsame => ⟨_, _, hback, hsame⟩
  · rw [sendBack_symbolVector_negative msgTyp att (Int.lt_of_not_ge hcount)]
    refine iff_of_false ?_ (fun h => ?_)
    · rintro ⟨ary, att', hback, _⟩
      cases hback
    · omega

theorem survives_charVector (msgTyp : Int) {s : List UInt16} (hs : 0 ∉ s) (att : Option Int) :
    (Sent.charVector s att).Survives msgTyp <-> s ≠ [] ∧ IsAscii s ∧ s.length < 2 ^ 31 := by
  rw [Sent.Survives]
  by_cases hempty : s = []
  · refine iff_of_false ?_ (fun h => h.left hempty)
    rintro ⟨vec, ary, att', hnew, _⟩
    rw [newCharVector, if_pos hempty] at hnew
    cases hnew
  · have hnew : newCharVector s att = .ok (.vector .char (signed (u8u16 s)) att) := if_neg hempty
    rcases sendBack_charVector msgTyp (u8u16 s) att with ⟨got, att', hback, hgot, hshort⟩
    rw [and_iff_right hempty, <- asString_got hs hgot hshort]
    constructor
    · rintro ⟨vec, ary, att'', hvec, hback', hsame⟩
      cases hnew.symm.trans hvec
      have hout := hback.symm.trans hback'
      injection hout with hout
      injection hout with _ hary
      rwa [hary]
    · exact fun hsame => ⟨_, _, _, hnew, hback, hsame⟩

/--
Text survives exactly when it is legible: no character outside of ASCII is received, in
whatever way it is sent.
-/
theorem survives_iff (msgTyp : Int) (sent : Sent) (h : sent.NulFree) :
    sent.Survives msgTyp <-> sent.Legible := by
  cases sent with
  | symbolAtom s => exact survives_symbolAtom msgTyp h
  | element before s after att => exact survives_element msgTyp att h
  | charVector s att => exact survives_charVector msgTyp h att

/-- A symbol behind one that does not survive. -/
theorem survives_iff_element :
    (Sent.element [[0x20ac]] [97, 98] [[0xe9, 99]] none).Survives 1 <->
      (Sent.element [[0x20ac]] [97, 98] [[0xe9, 99]] none).Legible :=
  survives_iff 1 (.element [[0x20ac]] [97, 98] [[0xe9, 99]] none)
    (by simp [Sent.NulFree])

/-- Of a letter with an accent nothing is received. -/
theorem survives_accent :
    sendBack 0 (newSymbolAtom [0xe9]) = .ok (.atom .symbol []) ∧
      ¬ (Sent.symbolAtom [0xe9]).Survives 0 := by
  have hback : sendBack 0 (newSymbolAtom [0xe9]) = .ok (.atom .symbol []) := rfl
  refine ⟨hback, fun h => ?_⟩
  cases hback.symm.trans h

end Ipcjs
end MgKdb
