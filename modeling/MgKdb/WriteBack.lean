import MgKdb.Reader.Inversion
import MgKdb.Writer.Progress

/-!
# Writing back what was read

The bytes that a reader accepts come back from the writer when they are spelled as the
writer spells them, and otherwise as many other bytes come.
-/

namespace MgKdb

open Foundation

/--
The bytes spell a value plainly: at every depth a table has attribute zero and a plain
dict behind it, no dict is a step dict, and a function has an empty context and text with
attribute zero.
-/
def PlainlySpelled (bs : List UInt8) : Prop :=
  exists s : Spelling, s.value.CountsFit ∧ s.bytes = bs ∧ s.Plain

def Accepts (bs : List UInt8) (o : KdbBase) : Prop :=
  exists o1 b b', newInstance (ReadBuf.new bs 0) = (.ok o1, b) ∧
    o1.read b = (.ok, o, b') ∧ b'.remaining = 0

theorem Accepts.spelling {bs : List UInt8} {o : KdbBase} (h : Accepts bs o) :
    exists s : Spelling, s.value.CountsFit ∧ s.value.Holds o ∧ s.bytes = bs := by
  rcases h with ⟨o1, b, b', hnew, hread, hall⟩
  rcases (readFuel_inverts _).spells hnew hread with ⟨s, hfit, hs, htook⟩
  refine ⟨s, hfit, hs, ?_⟩
  have hrest : b'.rest = [] := List.eq_nil_of_length_eq_zero hall
  have hbytes := htook.rest
  rw [hrest, List.append_nil] at hbytes
  exact hbytes.symm

theorem write_new_of_holds {v : KVal} {o : KdbBase} (ho : v.Holds o) {cap : Nat}
    (hcap : v.encode.length <= cap) :
    (o.write (WriteBuf.new cap 0)).1 = .ok ∧
      (o.write (WriteBuf.new cap 0)).2.out = v.encode := by
  rcases write_writes o (KVal.bytes_of_holds v ho) with ⟨stop, hwrites⟩
  have hpassed : (WriteBuf.new cap 0).passed v.encode.length = 0 := Nat.zero_min _
  rcases hwrites.resume (by rw [hpassed]; exact hwrites.start) with
    ⟨j, _, _, hstored, hresult, hroom⟩
  rw [hpassed] at hroom
  rw [hpassed, Nat.zero_add] at hresult
  rw [hpassed, List.drop_zero] at hstored
  have hj : j = v.encode.length := by
    have hfull := hroom (by rw [Nat.zero_add]; exact hcap)
    rwa [Nat.zero_add] at hfull
  refine ⟨by rw [hresult, if_pos hj], ?_⟩
  rw [hstored.out, hj, List.take_length]
  rfl

/--
What was accepted is written back byte for byte exactly when it was spelled plainly; it
is written completely either way.
-/
theorem write_of_accepts {bs : List UInt8} {o : KdbBase} (h : Accepts bs o) {cap : Nat}
    (hcap : bs.length <= cap) :
    (o.write (WriteBuf.new cap 0)).1 = .ok ∧
      ((o.write (WriteBuf.new cap 0)).2.out = bs <-> PlainlySpelled bs) := by
  rcases h.spelling with ⟨s, hfit, hs, hbytes⟩
  rcases s.respelled with ⟨hlen, hplain⟩
  rw [hbytes] at hlen hplain
  have hroom : s.value.encode.length <= cap := by
    rw [hlen]
    exact hcap
  rcases write_new_of_holds hs hroom with ⟨hok, hout⟩
  refine ⟨hok, ?_⟩
  rw [hout, hplain]
  constructor
  · intro h
    exact ⟨s, hfit, hbytes, h⟩
  · rintro ⟨s', hfit', hbytes', h⟩
    have heq : s.bytes ++ [] = s'.bytes ++ [] := by rw [hbytes, hbytes']
    rwa [(s.unambiguous hfit hfit' heq).left]

/-- An int atom comes back. -/
theorem write_of_accepts_atom :
    (KdbBase.write (.atom .int 7) (WriteBuf.new 5 0)).1 = .ok ∧
      ((KdbBase.write (.atom .int 7) (WriteBuf.new 5 0)).2.out = [0xfa, 7, 0, 0, 0] <->
        PlainlySpelled [0xfa, 7, 0, 0, 0]) :=
  write_of_accepts ⟨_, _, _, rfl, rfl, rfl⟩ (Nat.le_refl 5)

def stepDictBytes : List UInt8 :=
  [0x7f, 6, 1, 3, 0, 0, 0, 0, 0, 0, 0, 5, 0, 0, 0, 10, 0, 0, 0,
    6, 0, 3, 0, 0, 0, 0, 0, 0, 0, 50, 0, 0, 0, 100, 0, 0, 0]

/-- A step dict is accepted and written back as a plain dict. -/
theorem write_of_accepts_step :
    exists o, Accepts stepDictBytes o ∧
      (o.write (WriteBuf.new 37 0)).1 = .ok ∧
      (o.write (WriteBuf.new 37 0)).2.out = 99 :: stepDictBytes.tail ∧
      (o.write (WriteBuf.new 37 0)).2.out ≠ stepDictBytes := by
  refine ⟨_, ⟨_, _, _, rfl, rfl, rfl⟩, ?_, ?_, ?_⟩
  · decide
  · decide
  · decide

end MgKdb
