import Mathlib.Data.List.Basic

/-!
# Files with an offset

An open file has a content and a place at which the next write goes.  A write replaces
what stands there and goes beyond the end if it has to.
-/

namespace MgKdb
namespace Foundation

structure OpenFile (byte : Type) where
  bytes : List byte
  off : Nat
  off_le : off <= bytes.length

namespace OpenFile

variable {byte : Type}

def opened (bytes : List byte) : OpenFile byte where
  bytes := bytes
  off := 0
  off_le := Nat.zero_le _

theorem write_off_le {bytes : List byte} {off : Nat} (h : off <= bytes.length)
    (xs : List byte) :
    off + xs.length <=
      (bytes.take off ++ (xs ++ bytes.drop (off + xs.length))).length := by
  rw [List.length_append, List.length_append, List.length_take_of_le h]
  omega

def write (f : OpenFile byte) (xs : List byte) : OpenFile byte where
  bytes := f.bytes.take f.off ++ (xs ++ f.bytes.drop (f.off + xs.length))
  off := f.off + xs.length
  off_le := write_off_le f.off_le xs

theorem write_bytes (f : OpenFile byte) (xs : List byte) : (f.write xs).bytes =
    f.bytes.take f.off ++ (xs ++ f.bytes.drop (f.off + xs.length)) := rfl

@[simp] theorem write_off (f : OpenFile byte) (xs : List byte) :
    (f.write xs).off = f.off + xs.length := rfl

def writeAll (f : OpenFile byte) : List (List byte) -> OpenFile byte
  | [] => f
  | xs :: xss => (f.write xs).writeAll xss

def seekEnd (f : OpenFile byte) : OpenFile byte where
  bytes := f.bytes
  off := f.bytes.length
  off_le := Nat.le_refl _

theorem write_at_end {f : OpenFile byte} (h : f.off = f.bytes.length) (xs : List byte) :
    (f.write xs).bytes = f.bytes ++ xs ∧ (f.write xs).off = (f.write xs).bytes.length := by
  have hbytes : (f.write xs).bytes = f.bytes ++ xs := by
    rw [write_bytes, h, List.take_length, List.drop_eq_nil_of_le (Nat.le_add_right _ _),
      List.append_nil]
  refine ⟨hbytes, ?_⟩
  rw [hbytes, List.length_append, write_off, h]

theorem writeAll_at_end (xss : List (List byte)) :
    forall {f : OpenFile byte}, f.off = f.bytes.length ->
      (f.writeAll xss).bytes = f.bytes ++ xss.flatten := by
  induction xss with
  | nil =>
      intro f _
      rw [writeAll, List.flatten_nil, List.append_nil]
  | cons xs xss ih =>
      intro f h
      rcases write_at_end h xs with ⟨hbytes, hoff⟩
      rw [writeAll, ih hoff, hbytes, List.flatten_cons, List.append_assoc]

theorem write_opened (bytes xs : List byte) :
    ((opened bytes).write xs).bytes = xs ++ bytes.drop xs.length := by
  rw [write_bytes]
  simp [opened]

end OpenFile

end Foundation
end MgKdb
