import MgKdb.Krb5.Base64

/-!
# What the decoder reads

Read four characters at a time, the text has octets as far as its first padded block.  What
was encoded is decoded again, whatever happened to its lines on the way.
-/

namespace MgKdb
namespace Base64

open Foundation

/-!
## The table
-/

section Table

variable {c i : UInt8}

theorem table_inverse (b : UInt8) :
    (b < 64 -> dtable (charOf b) = b ∧ charOf b ≠ padChar) ∧
    (inAlphabet b = true -> dtable b < 64 ∧ (b ≠ padChar -> charOf (dtable b) = b)) :=
  forall_octet (P := fun b =>
    (b < 64 -> dtable (charOf b) = b ∧ charOf b ≠ padChar) ∧
    (inAlphabet b = true -> dtable b < 64 ∧ (b ≠ padChar -> charOf (dtable b) = b)))
    (by decide +kernel) b

theorem dtable_charOf (h : i < 64) : dtable (charOf i) = i :=
  ((table_inverse i).left h).left

theorem charOf_ne_padChar (h : i < 64) : charOf i ≠ padChar :=
  ((table_inverse i).left h).right

theorem charOf_dtable (h : inAlphabet c = true) (hne : c ≠ padChar) : charOf (dtable c) = c :=
  ((table_inverse c).right h).right hne

theorem dtable_lt (h : inAlphabet c = true) : dtable c < 64 :=
  ((table_inverse c).right h).left

theorem inAlphabet_charOf (h : i < 64) : inAlphabet (charOf i) = true := by
  rw [inAlphabet, dtable_charOf h]
  exact bne_iff_ne.mpr (UInt8.ne_of_lt (UInt8.lt_trans h (by decide)))

theorem inAlphabet_padChar : inAlphabet padChar = true := by decide

theorem inAlphabet_lineFeed : inAlphabet lineFeed = false := by decide

end Table

/-!
## The decoder, four characters at a time
-/

/-- The text of a block is read up to the first one that is padded. -/
def payload : List UInt8 -> Option (List UInt8)
  | a :: b :: c :: d :: rest =>
      let block := octets (dtable a) (dtable b) (dtable c) (dtable d)
      let pad := [a, b, c, d].count padChar
      if pad = 0 then (payload rest).map (block ++ ·)
      else if pad <= 2 then some (block.take (3 - pad))
      else none
  | _ => some []

theorem decodeLoop_filter (src : List UInt8) :
    forall block pad out, decodeLoop (src.filter inAlphabet) block pad out =
      decodeLoop src block pad out := by
  induction src with
  | nil => exact fun _ _ _ => rfl
  | cons c rest ih =>
      intro block pad out
      by_cases hc : inAlphabet c = true
      · have htmp : dtable c ≠ 0x80 := bne_iff_ne.mp hc
        rw [List.filter_cons_of_pos hc, decodeLoop, decodeLoop, if_neg htmp, if_neg htmp]
        simp only [ih]
      · have htmp : dtable c = 0x80 := by
          simpa [inAlphabet] using hc
        rw [List.filter_cons_of_neg hc, ih]
        conv => rhs; rw [decodeLoop, if_pos htmp]

theorem pad_eq (c : UInt8) (pad : Nat) :
    (if c = padChar then pad + 1 else pad) = pad + [c].count padChar := by
  by_cases h : c = padChar
  · rw [if_pos h, h]
    rfl
  · rw [if_neg h, List.count_singleton, if_neg (by simpa using h)]
    rfl

theorem decodeLoop_gather {c : UInt8} (hc : inAlphabet c = true) (rest block : List UInt8)
    (hblock : block.length < 3) (pad : Nat) (out : List UInt8) :
    decodeLoop (c :: rest) block pad out =
      decodeLoop rest (block ++ [dtable c]) (pad + [c].count padChar) out := by
  have htmp : dtable c ≠ 0x80 := bne_iff_ne.mp hc
  rw [decodeLoop, if_neg htmp]
  simp only [pad_eq]
  split
  · rename_i hthree
    exact absurd hblock (Nat.lt_irrefl 3)
  · rfl

theorem decodeLoop_complete {d : UInt8} (hd : inAlphabet d = true) (rest : List UInt8)
    (b0 b1 b2 : UInt8) (pad : Nat) (out : List UInt8) :
    decodeLoop (d :: rest) [b0, b1, b2] pad out =
      let out := out ++ octets b0 b1 b2 (dtable d)
      let pad := pad + [d].count padChar
      if pad = 0 then decodeLoop rest [] 0 out
      else if pad <= 2 then ⟨out.length, some (out.take (out.length - pad))⟩
      else ⟨out.length, none⟩ := by
  have htmp : dtable d ≠ 0x80 := bne_iff_ne.mp hd
  rw [decodeLoop, if_neg htmp]
  simp only [pad_eq]
  generalize pad + [d].count padChar = pad
  rcases pad with _ | _ | _ | pad <;> rfl

theorem decodeLoop_four {a b c d : UInt8} {rest : List UInt8}
    (hall : forall x, x ∈ a :: b :: c :: d :: rest -> inAlphabet x = true) (out : List UInt8) :
    decodeLoop (a :: b :: c :: d :: rest) [] 0 out =
      let out := out ++ octets (dtable a) (dtable b) (dtable c) (dtable d)
      let pad := [a, b, c, d].count padChar
      if pad = 0 then decodeLoop rest [] 0 out
      else if pad <= 2 then ⟨out.length, some (out.take (out.length - pad))⟩
      else ⟨out.length, none⟩ := by
  rw [decodeLoop_gather (hall a (by simp)) _ _ (by decide),
    decodeLoop_gather (hall b (by simp)) _ _ (by simp),
    decodeLoop_gather (hall c (by simp)) _ _ (by simp), List.nil_append, List.singleton_append,
    List.cons_append, List.singleton_append, decodeLoop_complete (hall d (by simp))]
  have hpad : 0 + [a].count padChar + [b].count padChar + [c].count padChar +
      [d].count padChar = [a, b, c, d].count padChar := by
    rw [Nat.zero_add, <- List.count_append, <- List.count_append, <- List.count_append]
    rfl
  simp only [hpad]

theorem decodeLoop_short (cs : List UInt8) :
    (forall c, c ∈ cs -> inAlphabet c = true) -> forall (block : List UInt8) (pad : Nat)
      (out : List UInt8), cs.length + block.length < 4 ->
        decodeLoop cs block pad out = ⟨out.length, some out⟩ := by
  induction cs with
  | nil => exact fun _ _ _ _ _ => rfl
  | cons c cs ih =>
      intro hall block pad out hshort
      rw [List.length_cons] at hshort
      rw [decodeLoop_gather (hall c List.mem_cons_self) _ _ (by omega)]
      refine ih (fun x hx => hall x (List.mem_cons_of_mem c hx)) _ _ out ?_
      rw [List.length_append, List.length_singleton]
      omega

theorem decodeLoop_eq (cs : List UInt8) :
    (forall c, c ∈ cs -> inAlphabet c = true) -> forall out,
      (decodeLoop cs [] 0 out).result = (payload cs).map (out ++ ·) ∧
        (decodeLoop cs [] 0 out).stored <= out.length + cs.length / 4 * 3 := by
  have htake : forall (out block : List UInt8) (pad : Nat), pad <= block.length ->
      (out ++ block).take ((out ++ block).length - pad) =
        out ++ block.take (block.length - pad) := by
    intro out block pad hle
    rw [List.length_append, Nat.add_sub_assoc hle, List.take_length_add_append]
  induction cs using payload.induct with
  | case1 a b c d rest pad hpad ih =>
      intro hall out
      have hmore := ih (fun x hx => hall x (by simp [hx]))
        (out ++ octets (dtable a) (dtable b) (dtable c) (dtable d))
      rw [decodeLoop_four hall, payload]
      simp only [if_pos (show [a, b, c, d].count padChar = 0 from hpad)]
      refine ⟨?_, ?_⟩
      · rw [hmore.left, Option.map_map]
        refine congrArg (Option.map · (payload rest)) (funext fun xs => ?_)
        exact List.append_assoc _ _ _
      · have hstored := hmore.right
        simp only [List.length_append, octets, List.length_cons, List.length_nil] at hstored ⊢
        omega
  | case2 a b c d rest pad hpad hle =>
      intro hall out
      rw [decodeLoop_four hall, payload]
      simp only [if_neg (show ¬ [a, b, c, d].count padChar = 0 from hpad),
        if_pos (show [a, b, c, d].count padChar <= 2 from hle)]
      refine ⟨congrArg some (htake _ _ _ (Nat.le_succ_of_le hle)), ?_⟩
      simp only [List.length_append, octets, List.length_cons, List.length_nil]
      omega
  | case3 a b c d rest pad hpad hle =>
      intro hall out
      rw [decodeLoop_four hall, payload]
      simp only [if_neg (show ¬ [a, b, c, d].count padChar = 0 from hpad),
        if_neg (show ¬ [a, b, c, d].count padChar <= 2 from hle)]
      refine ⟨rfl, ?_⟩
      simp only [List.length_append, octets, List.length_cons, List.length_nil]
      omega
  | case4 cs hshort =>
      intro hall out
      have hlen : cs.length < 4 := by
        rcases cs with _ | ⟨a, _ | ⟨b, _ | ⟨c, _ | ⟨d, rest⟩⟩⟩⟩
        · decide
        · simp
        · simp
        · simp
        · exact absurd rfl (hshort a b c d rest)
      have hnone : payload cs = some [] := by
        rw [payload]
        exact hshort
      rw [decodeLoop_short cs hall [] 0 out hlen, hnone]
      exact ⟨congrArg some (List.append_nil out).symm, Nat.le_add_right _ _⟩

theorem base64Decode_result (src : List UInt8) :
    (base64Decode true src).result =
      if (src.filter inAlphabet).length = 0 ∨ (src.filter inAlphabet).length % 4 ≠ 0 then none
      else payload (src.filter inAlphabet) := by
  have hloop := decodeLoop_eq (src.filter inAlphabet)
    (fun c hc => (List.mem_filter.mp hc).right) []
  rw [decodeLoop_filter, List.length_nil, Nat.zero_add] at hloop
  by_cases hcount : (src.filter inAlphabet).length = 0 ∨ (src.filter inAlphabet).length % 4 ≠ 0
  · rw [base64Decode, if_pos hcount, if_pos hcount]
  · rw [base64Decode, if_neg hcount, if_neg hcount, if_pos rfl]
    have hmap : (payload (src.filter inAlphabet)).map ([] ++ ·) = payload (src.filter inAlphabet) :=
      (congrFun (congrArg Option.map (funext List.nil_append)) _).trans Option.map_id_apply
    exact hloop.left.trans hmap

theorem base64Decode_stored (src : List UInt8) :
    (base64Decode true src).stored <= decodedSize src := by
  have hloop := decodeLoop_eq (src.filter inAlphabet)
    (fun c hc => (List.mem_filter.mp hc).right) []
  rw [decodeLoop_filter, List.length_nil, Nat.zero_add] at hloop
  by_cases hcount : (src.filter inAlphabet).length = 0 ∨ (src.filter inAlphabet).length % 4 ≠ 0
  · rw [base64Decode, if_pos hcount]
    exact Nat.zero_le _
  · rw [base64Decode, if_neg hcount, if_pos rfl]
    exact hloop.right

/-- What the decoder answers, and how much it stores. -/
theorem base64Decode_eq (src : List UInt8) :
    (base64Decode true src).result =
      (if (src.filter inAlphabet).length = 0 ∨ (src.filter inAlphabet).length % 4 ≠ 0 then none
        else payload (src.filter inAlphabet)) ∧
      (base64Decode true src).stored <= decodedSize src :=
  ⟨base64Decode_result src, base64Decode_stored src⟩

/-!
## Round trips
-/

def quads : List UInt8 -> List UInt8
  | a :: b :: c :: rest =>
      charOf (a >>> 2) :: charOf ((a &&& 3) <<< 4 ||| b >>> 4) ::
        charOf ((b &&& 15) <<< 2 ||| c >>> 6) :: charOf (c &&& 63) :: quads rest
  | [a, b] =>
      [charOf (a >>> 2), charOf ((a &&& 3) <<< 4 ||| b >>> 4), charOf ((b &&& 15) <<< 2), padChar]
  | [a] => [charOf (a >>> 2), charOf ((a &&& 3) <<< 4), padChar, padChar]
  | [] => []

theorem filter_lineEnd (line_len : Nat) : (lineEnd line_len).filter inAlphabet = [] := by
  unfold lineEnd
  split <;> rfl

section Tail

variable (a b c : UInt8)

theorem inAlphabet_first : inAlphabet (charOf (a >>> 2)) = true :=
  inAlphabet_charOf (sextet_first a)

theorem inAlphabet_second : inAlphabet (charOf ((a &&& 3) <<< 4 ||| b >>> 4)) = true :=
  inAlphabet_charOf (sextet_second a b)

theorem inAlphabet_third : inAlphabet (charOf ((b &&& 15) <<< 2 ||| c >>> 6)) = true :=
  inAlphabet_charOf (sextet_third b c)

theorem inAlphabet_fourth : inAlphabet (charOf (c &&& 63)) = true :=
  inAlphabet_charOf (sextet_fourth c)

theorem second_zero : (a &&& 3) <<< 4 ||| (0 : UInt8) >>> 4 = (a &&& 3) <<< 4 := by
  rw [UInt8.zero_shiftRight, UInt8.or_zero]

theorem third_zero : (b &&& 15) <<< 2 ||| (0 : UInt8) >>> 6 = (b &&& 15) <<< 2 := by
  rw [UInt8.zero_shiftRight, UInt8.or_zero]

theorem inAlphabet_second_zero : inAlphabet (charOf ((a &&& 3) <<< 4)) = true :=
  second_zero a ▸ inAlphabet_second a 0

theorem inAlphabet_third_zero : inAlphabet (charOf ((b &&& 15) <<< 2)) = true :=
  third_zero b ▸ inAlphabet_third b 0

end Tail

theorem filter_encodeLoop (line_len : Nat) (src : List UInt8) :
    (encodeLoop line_len src).filter inAlphabet = quads src := by
  induction line_len, src using encodeLoop.induct with
  | case1 line_len a b c rest line_len' hfull ih =>
      rw [encodeLoop, if_pos hfull, quads, <- ih]
      simp [inAlphabet_first, inAlphabet_second, inAlphabet_third, inAlphabet_fourth,
        inAlphabet_lineFeed]
  | case2 line_len a b c rest line_len' hfull ih =>
      have hrest : (encodeLoop (line_len + 4) rest).filter inAlphabet = quads rest := ih
      rw [encodeLoop, if_neg hfull, quads, <- hrest]
      simp [inAlphabet_first, inAlphabet_second, inAlphabet_third, inAlphabet_fourth]
  | case3 line_len a b =>
      rw [encodeLoop, quads, List.filter_append, filter_lineEnd]
      simp [inAlphabet_first, inAlphabet_second, inAlphabet_third_zero, inAlphabet_padChar]
  | case4 line_len a =>
      rw [encodeLoop, quads, List.filter_append, filter_lineEnd]
      simp [inAlphabet_first, inAlphabet_second_zero, inAlphabet_padChar]
  | case5 line_len => exact filter_lineEnd line_len

theorem length_quads (src : List UInt8) : (quads src).length = (src.length + 2) / 3 * 4 := by
  induction src using quads.induct with
  | case1 a b c rest ih =>
      rw [quads]
      simp only [List.length_cons, ih]
      omega
  | case2 a b => simp [quads]
  | case3 a => simp [quads]
  | case4 => rfl

theorem payload_quads (src : List UInt8) : payload (quads src) = some src := by
  have hfirst := fun a : UInt8 => charOf_ne_padChar (sextet_first a)
  have hsecond := fun a b : UInt8 => charOf_ne_padChar (sextet_second a b)
  have hthird := fun b c : UInt8 => charOf_ne_padChar (sextet_third b c)
  have hfourth := fun c : UInt8 => charOf_ne_padChar (sextet_fourth c)
  induction src using quads.induct with
  | case1 a b c rest ih =>
      rw [quads, payload]
      simp only [List.count_cons, beq_iff_eq, hfirst, hsecond, hthird, hfourth, if_false,
        List.count_nil, if_true, ih, Option.map_some, octets, dtable_charOf (sextet_first a),
        dtable_charOf (sextet_second a b), dtable_charOf (sextet_third b c),
        dtable_charOf (sextet_fourth c), octet_first, octet_second, octet_third]
      rfl
  | case2 a b =>
      have hlast := third_zero b ▸ hthird b 0
      have hsextet := third_zero b ▸ sextet_third b 0
      have hoctet := third_zero b ▸ octet_second a b 0
      rw [quads, payload]
      simp only [List.count_cons, beq_iff_eq, hfirst, hsecond, hlast, if_false, List.count_nil,
        if_true, octets, dtable_charOf (sextet_first a), dtable_charOf (sextet_second a b),
        dtable_charOf hsextet, octet_first, hoctet]
      rfl
  | case3 a =>
      have hlast := second_zero a ▸ hsecond a 0
      have hsextet := second_zero a ▸ sextet_second a 0
      have hoctet := second_zero a ▸ octet_first a 0
      rw [quads, payload]
      simp only [List.count_cons, beq_iff_eq, hfirst, hlast, if_false, List.count_nil,
        if_true, octets, dtable_charOf (sextet_first a), dtable_charOf hsextet, hoctet]
      rfl
  | case4 => rfl

/--
Whatever else is put between the characters of an encoded text, or left out of it, that is
not of the alphabet: its octets are decoded, unless there are none.
-/
theorem base64Decode_encode {src text t : List UInt8}
    (henc : base64Encode true src = some text)
    (hsame : t.filter inAlphabet = text.filter inAlphabet) :
    (base64Decode true t).result = if src = [] then none else some src := by
  have htext : text = encodeLoop 0 src := by
    unfold base64Encode at henc
    simp only at henc
    split at henc
    · cases henc
    · exact (Option.some.inj henc).symm
  have hlen := length_quads src
  rw [base64Decode_result t, hsame, htext, filter_encodeLoop, payload_quads]
  by_cases hsrc : src = []
  · rw [if_pos hsrc, if_pos (Or.inl (by rw [hlen, hsrc]; rfl))]
  · have hpos := List.length_pos_iff.mpr hsrc
    rw [if_neg hsrc, if_neg (by omega)]

/-- The padding stands at the end only, and the bits that are left are zero. -/
def Canonical : List UInt8 -> Prop
  | [a, b, c, d] =>
      if d ≠ padChar then padChar ∉ [a, b, c]
      else if c ≠ padChar then padChar ∉ [a, b] ∧ dtable c &&& 3 = 0
      else padChar ∉ [a, b] ∧ dtable b &&& 15 = 0
  | a :: b :: c :: d :: rest => padChar ∉ [a, b, c, d] ∧ Canonical rest
  | _ => False

theorem canonical_append (a b c d : UInt8) {rest : List UInt8} (hne : rest ≠ []) :
    Canonical (a :: b :: c :: d :: rest) <-> padChar ∉ [a, b, c, d] ∧ Canonical rest := by
  rw [Canonical]
  exact hne

theorem canonical_quads (src : List UInt8) (hne : src ≠ []) : Canonical (quads src) := by
  have hfirst := fun a : UInt8 => (charOf_ne_padChar (sextet_first a)).symm
  have hsecond := fun a b : UInt8 => (charOf_ne_padChar (sextet_second a b)).symm
  have hthird := fun b c : UInt8 => (charOf_ne_padChar (sextet_third b c)).symm
  have hfourth := fun c : UInt8 => (charOf_ne_padChar (sextet_fourth c)).symm
  induction src using quads.induct with
  | case1 a b c rest ih =>
      rw [quads]
      by_cases hrest : rest = []
      · rw [hrest, quads, Canonical, if_pos (hfourth c).symm]
        simp [hfirst, hsecond, hthird]
      · have hmore : quads rest ≠ [] := by
          intro hnil
          have hcanonical := ih hrest
          rw [hnil] at hcanonical
          exact hcanonical
        rw [canonical_append _ _ _ _ hmore]
        exact ⟨by simp [hfirst, hsecond, hthird, hfourth], ih hrest⟩
  | case2 a b =>
      have hlast := third_zero b ▸ hthird b 0
      have hsextet := third_zero b ▸ sextet_third b 0
      rcases (octet_bits (b &&& 15)).right.right.right with ⟨hzero, _, _⟩
      rw [quads, Canonical, if_neg (not_not.mpr rfl), if_pos hlast.symm, dtable_charOf hsextet]
      exact ⟨by simp [hfirst, hsecond], hzero⟩
  | case3 a =>
      have hlast := second_zero a ▸ hsecond a 0
      have hsextet := second_zero a ▸ sextet_second a 0
      rcases (octet_bits (a &&& 3)).right.right.right with ⟨_, hzero, _⟩
      rw [quads, Canonical, if_neg (not_not.mpr rfl), if_neg (not_not.mpr rfl),
        dtable_charOf hsextet]
      exact ⟨by simp [hfirst, hlast], hzero⟩
  | case4 => exact absurd rfl hne

section Quads

variable {a b c d : UInt8}

theorem quads_octets (ha : inAlphabet a = true) (hb : inAlphabet b = true)
    (hc : inAlphabet c = true) (hd : inAlphabet d = true) (hpad : padChar ∉ [a, b, c, d])
    (rest : List UInt8) :
    quads (octets (dtable a) (dtable b) (dtable c) (dtable d) ++ rest) =
      a :: b :: c :: d :: quads rest := by
  have hne : forall x, x ∈ [a, b, c, d] -> x ≠ padChar := fun x hx h => hpad (h ▸ hx)
  change quads (_ :: _ :: _ :: rest) = _
  rw [quads, first_of_octets _ _ (dtable_lt ha) (dtable_lt hb),
    second_of_octets _ _ _ (dtable_lt hb) (dtable_lt hc),
    third_of_octets _ _ _ (dtable_lt hc) (dtable_lt hd), fourth_of_octets _ _ (dtable_lt hd),
    charOf_dtable ha (hne a (by simp)), charOf_dtable hb (hne b (by simp)),
    charOf_dtable hc (hne c (by simp)), charOf_dtable hd (hne d (by simp))]

end Quads

theorem payload_nil : payload [] = some [] := rfl

theorem payload_whole {a b c d : UInt8} (hpad : padChar ∉ [a, b, c, d]) (rest : List UInt8) :
    payload (a :: b :: c :: d :: rest) =
      (payload rest).map (octets (dtable a) (dtable b) (dtable c) (dtable d) ++ ·) := by
  rw [payload]
  exact if_pos (List.count_eq_zero.mpr hpad)

theorem quads_payload (cs : List UInt8) :
    (forall c, c ∈ cs -> inAlphabet c = true) -> Canonical cs ->
      forall out, payload cs = some out -> quads out = cs := by
  induction cs using Canonical.induct with
  | case1 a b c d hd =>
      intro hall hcanonical out hout
      rw [Canonical, if_pos hd] at hcanonical
      have hpad : padChar ∉ [a, b, c, d] := by
        simp only [List.mem_cons, not_or] at hcanonical ⊢
        exact ⟨hcanonical.1, hcanonical.2.1, hcanonical.2.2.1, hd.symm, hcanonical.2.2.2⟩
      rw [payload_whole hpad, payload_nil, Option.map_some] at hout
      have hquads := quads_octets (hall a (by simp)) (hall b (by simp)) (hall c (by simp))
        (hall d (by simp)) hpad []
      rw [<- Option.some.inj hout, hquads]
      rfl
  | case2 a b c d hd hc =>
      intro hall hcanonical out hout
      rw [Canonical, if_neg hd, if_pos hc] at hcanonical
      rcases hcanonical with ⟨hpad, hzero⟩
      have hne : a ≠ padChar ∧ b ≠ padChar := by
        simpa [eq_comm] using hpad
      have hone : [a, b, c, d].count padChar = 1 := by
        simp [hne, hc, not_not.mp hd]
      rw [payload, hone] at hout
      have hpair := Option.some.inj hout
      rw [<- hpair]
      change quads [_, _] = _
      rw [quads, first_of_octets _ _ (dtable_lt (hall a (by simp))) (dtable_lt (hall b (by simp))),
        second_of_octets _ _ _ (dtable_lt (hall b (by simp))) (dtable_lt (hall c (by simp))),
        (third_of_second_octet _ _ (dtable_lt (hall c (by simp)))).mpr hzero,
        charOf_dtable (hall a (by simp)) hne.left, charOf_dtable (hall b (by simp)) hne.right,
        charOf_dtable (hall c (by simp)) hc, not_not.mp hd]
  | case3 a b c d hd hc =>
      intro hall hcanonical out hout
      rw [Canonical, if_neg hd, if_neg hc] at hcanonical
      rcases hcanonical with ⟨hpad, hzero⟩
      have hne : a ≠ padChar ∧ b ≠ padChar := by
        simpa [eq_comm] using hpad
      have htwo : [a, b, c, d].count padChar = 2 := by
        simp [hne, not_not.mp hc, not_not.mp hd]
      rw [payload, htwo] at hout
      have hsingle := Option.some.inj hout
      rw [<- hsingle]
      change quads [_] = _
      rw [quads, first_of_octets _ _ (dtable_lt (hall a (by simp))) (dtable_lt (hall b (by simp))),
        (second_of_first_octet _ _ (dtable_lt (hall b (by simp)))).mpr hzero,
        charOf_dtable (hall a (by simp)) hne.left, charOf_dtable (hall b (by simp)) hne.right,
        not_not.mp hc, not_not.mp hd]
  | case4 a b c d rest hne ih =>
      intro hall hcanonical out hout
      rcases (canonical_append a b c d (fun h => hne h)).mp hcanonical with ⟨hpad, hmore⟩
      rw [payload_whole hpad] at hout
      rcases Option.map_eq_some_iff.mp hout with ⟨more, hrest, hsame⟩
      rw [<- hsame, quads_octets (hall a (by simp)) (hall b (by simp)) (hall c (by simp))
        (hall d (by simp)) hpad, ih (fun x hx => hall x (by simp [hx])) hmore more hrest]
  | case5 cs hfour hmore =>
      intro _ hcanonical
      rw [Canonical] at hcanonical
      · exact absurd hcanonical id
      · exact hfour
      · exact hmore

/--
A text that was decoded is the encoded text of its octets again, as far as it is of the
alphabet, exactly when it is canonical.
-/
theorem base64Decode_again {t out : List UInt8} (h : (base64Decode true t).result = some out) :
    (encodeLoop 0 out).filter inAlphabet = t.filter inAlphabet <->
      Canonical (t.filter inAlphabet) := by
  rw [base64Decode_result t] at h
  rw [filter_encodeLoop]
  by_cases hcount : (t.filter inAlphabet).length = 0 ∨ (t.filter inAlphabet).length % 4 ≠ 0
  · rw [if_pos hcount] at h
    cases h
  · rw [if_neg hcount] at h
    constructor
    · intro hsame
      have hne : out ≠ [] := by
        intro hnil
        rw [hnil] at hsame
        exact hcount (Or.inl (congrArg List.length hsame.symm))
      exact hsame ▸ canonical_quads out hne
    · exact fun hcanonical => quads_payload _ (fun c hc => (List.mem_filter.mp hc).right)
        hcanonical out h

/-- Four characters in two lines. -/
theorem base64Decode_encode_lines :
    (base64Decode true [84, 87, 13, 10, 69, 61]).result = some [77, 97] := by
  have henc : base64Encode true [77, 97] = some [84, 87, 69, 61, 10] := by decide
  have hsame : ([84, 87, 13, 10, 69, 61] : List UInt8).filter inAlphabet =
      [84, 87, 69, 61, 10].filter inAlphabet := by decide
  exact base64Decode_encode henc hsame

/-- The bits that are left over are not looked at: these four characters are not canonical. -/
theorem base64Decode_again_bits :
    (encodeLoop 0 [77, 97]).filter inAlphabet = [84, 87, 70, 61] <->
      Canonical [84, 87, 70, 61] := by
  have hres : (base64Decode true [84, 87, 70, 61]).result = some [77, 97] := by decide
  exact base64Decode_again hres

end Base64
end MgKdb
