import MgKdb.Wire.Object

/-!
# Printing an object

The formatters put the text of an object into the log.  The text is not kept here, but what
can go wrong on the way: a character that is none, and a primitive that has no name.
-/

namespace MgKdb

open Foundation

inductive FormatFault where
  /-- `std::format_error` -/
  | threw
  /-- An access behind the end of an array. -/
  | badIndex
  | badPointer
  deriving DecidableEq, Repr

def Arity.names : Arity -> List String
  | unary =>
      ["::", "+:", "-:", "*:", "%:", "&:", "|:", "^:", "=:", "<:", ">:", "$:", ",:", "#:",
        "_:", "~:", "!:", "?:", "@:", ".:", "0::", "1::", "2::", "avg", "last", "sum", "prd",
        "min", "max", "exit", "getenv", "abs", "sqrt", "log", "exp", "sin", "asin", "cos",
        "acos", "tan", "atan", "enlist", "var"]
  | binary =>
      [":", "+", "-", "*", "%", "&", "|", "^", "=", "<", ">", "$", ",", "#", "_", "~", "!",
        "?", "@", ".", "0:", "1:", "2:", "in", "within", "like", "bin", "ss", "insert", "wsum",
        "wavg", "div", "xexp", "setenv", "binr", "cov", "cor"]
  | ternary => ["'", "/", "\\", "':", "/:", "\\:"]

def elidedValue : UInt8 := 255

def Arity.Named (arity : Arity) (val : UInt8) : Prop :=
  arity = .unary ∧ val = elidedValue ∨ val.toNat < arity.names.length

def LocInfo.Inside (data : List UInt8) (loc : LocInfo) : Prop :=
  loc.off.toNat + (loc.len - 1).toNat <= data.length

instance (data : List UInt8) (loc : LocInfo) : Decidable (loc.Inside data) :=
  inferInstanceAs (Decidable (_ <= _))

namespace KdbBase

/-- `{:c}`, where an integer that is no `char` throws. -/
def formatChar (val : Nat) : Except FormatFault Unit :=
  if val < 128 then .ok () else .error .threw

def formatPrimitive (arity : Arity) (val : UInt8) : Except FormatFault Unit :=
  if arity = .unary ∧ val = elidedValue then .ok ()
  else if val.toNat < arity.names.length then .ok ()
  else .error .badIndex

mutual

def format : KdbBase -> Except FormatFault Unit
  | exception _ => .ok ()
  | atom e val => if e = .char then formatChar val.toNat else .ok ()
  | symbolAtom _ => .ok ()
  | list _ _ vals => formatAll vals
  | vector _ _ _ _ => .ok ()
  | symbolVector _ _ locs data =>
      if forall loc, loc ∈ locs -> loc.Inside data then .ok () else .error .badIndex
  | table cols vals => formatPtr cols >>= fun _ => formatPtr vals
  | dict keys vals =>
      if keys.isSome ∧ vals.isSome then formatPtr keys >>= fun _ => formatPtr vals
      else .ok ()
  | function _ _ => .ok ()
  | primitive arity val => formatPrimitive arity val
  | projection _ vec => formatAll vec

def formatAll : List KdbBase -> Except FormatFault Unit
  | [] => .ok ()
  | o :: os => format o >>= fun _ => formatAll os

def formatPtr : Option KdbBase -> Except FormatFault Unit
  | none => .error .badPointer
  | some o => format o

end

theorem formatChar_eq_ok {val : Nat} : formatChar val = .ok () <-> val < 128 := by
  rw [formatChar]
  split
  next hsmall => exact iff_of_true rfl hsmall
  next hlarge => exact iff_of_false (fun herr => by cases herr) hlarge

theorem formatPrimitive_eq_ok {arity : Arity} {val : UInt8} :
    formatPrimitive arity val = .ok () <-> arity.Named val := by
  rw [formatPrimitive, Arity.Named]
  by_cases helided : arity = .unary ∧ val = elidedValue
  · rw [if_pos helided]
    exact iff_of_true rfl (Or.inl helided)
  · rw [if_neg helided, or_iff_right helided]
    split
    next hnamed => exact iff_of_true rfl hnamed
    next hunnamed => exact iff_of_false (fun herr => by cases herr) hunnamed

end KdbBase

namespace KVal

mutual

/-- All single characters of the value are below 128, and all its primitives have names. -/
def Printable : KVal -> Prop
  | atom e val => e = .char -> val.toNat < 128
  | primitive arity val => arity.Named val
  | list _ vals => PrintableAll vals
  | table _ _ _ vals => PrintableAll vals
  | dict keys vals => Printable keys ∧ Printable vals
  | projection parts => PrintableAll parts
  | exception _ | symbolAtom _ | vector _ _ _ | symbolVector _ _ | function _ => True

def PrintableAll : List KVal -> Prop
  | [] => True
  | v :: vs => Printable v ∧ PrintableAll vs

end

theorem inside_of_mem_locsFrom {off : Nat} {syms : List NulText} {data : List UInt8}
    (hlen : off + (symsBytes syms).length <= data.length) :
    forall loc, loc ∈ locsFrom off syms -> loc.Inside data := by
  induction syms generalizing off with
  | nil =>
      intro loc hloc
      cases hloc
  | cons s syms ih =>
      rw [symsBytes_cons, List.length_append, NulText.bytes_length] at hlen
      intro loc hloc
      rw [locsFrom] at hloc
      rcases List.mem_cons.mp hloc with rfl | htail
      · -- a length that is truncated only gets smaller, also by one
        have hlength : (UInt32.ofNat (s.text.length + 1) - 1).toNat <= s.text.length := by
          have hless : UInt32.ofNat (s.text.length + 1) - 1 = UInt32.ofNat s.text.length := by
            rw [UInt32.ofNat_add]
            exact UInt32.add_sub_cancel _ _
          rw [hless, UInt32.toNat_ofNat']
          exact Nat.mod_le _ _
        have hoff : (UInt32.ofNat off).toNat <= off := by
          rw [UInt32.toNat_ofNat']
          exact Nat.mod_le _ _
        show (UInt32.ofNat off).toNat + (UInt32.ofNat (s.text.length + 1) - 1).toNat <= _
        omega
      · refine ih ?_ loc htail
        rw [NulText.bytes_length]
        omega

theorem bind_eq_ok {x y : Except FormatFault Unit} :
    (x >>= fun _ => y) = .ok () <-> x = .ok () ∧ y = .ok () := by
  cases x with
  | error e => exact iff_of_false (fun h => by cases h) (fun h => by cases h.left)
  | ok u => exact (and_iff_right rfl).symm

theorem formatAll_eq_ok {vs : List KVal}
    (h : forall v, v ∈ vs -> forall {o : KdbBase}, Holds v o ->
      (o.format = .ok () <-> v.Printable)) :
    forall {os : List KdbBase}, HoldsAll vs os ->
      (KdbBase.formatAll os = .ok () <-> PrintableAll vs) := by
  induction vs with
  | nil =>
      intro os hos
      rw [holdsAll_nil.mp hos, KdbBase.formatAll, PrintableAll]
      exact iff_of_true rfl trivial
  | cons v vs ih =>
      intro os hos
      rcases holdsAll_cons.mp hos with ⟨o, os', rfl, ho, hos'⟩
      rw [KdbBase.formatAll, PrintableAll, bind_eq_ok, h v List.mem_cons_self ho,
        ih (fun u hu => h u (List.mem_cons_of_mem v hu)) hos']

theorem format_eq_ok (v : KVal) :
    forall {o : KdbBase}, Holds v o -> (o.format = .ok () <-> v.Printable) := by
  induction v with
  | exception msg =>
      intro o h
      rw [Holds] at h
      rw [h, KdbBase.format, Printable]
      exact iff_of_true rfl trivial
  | atom e val =>
      intro o h
      rw [Holds] at h
      rw [h, KdbBase.format, Printable]
      by_cases hchar : e = .char
      · rw [if_pos hchar, KdbBase.formatChar_eq_ok, forall_prop_of_true hchar]
      · rw [if_neg hchar]
        exact iff_of_true rfl (fun heq => absurd heq hchar)
  | symbolAtom val =>
      intro o h
      rw [Holds] at h
      rw [h, KdbBase.format, Printable]
      exact iff_of_true rfl trivial
  | list attr vals ih =>
      intro o h
      rw [Holds] at h
      rcases h with ⟨cap, os, rfl, hos⟩
      rw [KdbBase.format, Printable]
      exact formatAll_eq_ok (fun v hv => ih v hv) hos
  | vector e attr vec =>
      intro o h
      rw [Holds] at h
      rcases h with ⟨cap, rfl⟩
      rw [KdbBase.format, Printable]
      exact iff_of_true rfl trivial
  | symbolVector attr syms =>
      intro o h
      rw [Holds] at h
      rcases h with ⟨cap, rfl⟩
      rw [KdbBase.format, if_pos (inside_of_mem_locsFrom (by omega)), Printable]
      exact iff_of_true rfl trivial
  | table colsAttr cols valsAttr vals ih =>
      intro o h
      rw [Holds] at h
      rcases h with ⟨capCols, capVals, os, rfl, hos⟩
      rw [KdbBase.format, KdbBase.formatPtr, KdbBase.formatPtr, KdbBase.format, KdbBase.format,
        if_pos (inside_of_mem_locsFrom (by omega)), Printable]
      exact formatAll_eq_ok (fun v hv => ih v hv) hos
  | dict keys vals ihk ihv =>
      intro o h
      rw [Holds] at h
      rcases h with ⟨k, w, rfl, hk, hw⟩
      rw [KdbBase.format, if_pos ⟨rfl, rfl⟩, bind_eq_ok, KdbBase.formatPtr, KdbBase.formatPtr,
        ihk hk, ihv hw, Printable]
  | function text =>
      intro o h
      rw [Holds] at h
      rw [h, KdbBase.format, Printable]
      exact iff_of_true rfl trivial
  | primitive arity val =>
      intro o h
      rw [Holds] at h
      rw [h, KdbBase.format, Printable, KdbBase.formatPrimitive_eq_ok]
  | projection parts ih =>
      intro o h
      rw [Holds] at h
      rcases h with ⟨cap, os, rfl, hos⟩
      rw [KdbBase.format, Printable]
      exact formatAll_eq_ok (fun v hv => ih v hv) hos

end KVal

end MgKdb
