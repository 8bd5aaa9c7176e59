import MgKdb.Foundation.Decimal
import MgKdb.Foundation.Gregorian

/-!
# Dates

A date is a number of days since 2000.01.01.  It is made of a year, a month and a day, and
written out as these, by way of years that begin in March.
-/

namespace MgKdb
namespace Temporal

open Foundation

/-!
## Buffers for text
-/

structure CharBuf (N : Nat) where
  ary : List Char
  len_le : ary.length <= N

namespace CharBuf

variable {N : Nat}

def new : CharBuf N where
  ary := []
  len_le := Nat.zero_le N

theorem push_len {ary : List Char} (h : ary.length < N) (c : Char) :
    (ary ++ [c]).length <= N := by
  rw [List.length_append]
  exact h

def pushBack (buf : CharBuf N) (c : Char) : CharBuf N :=
  if h : buf.ary.length < N then ⟨buf.ary ++ [c], push_len h c⟩ else buf

/-- `std::format_to`, of text that is formatted already. -/
def formatTo (buf : CharBuf N) (s : List Char) : CharBuf N :=
  s.foldl pushBack buf

theorem formatTo_append (buf : CharBuf N) (s t : List Char) :
    buf.formatTo (s ++ t) = (buf.formatTo s).formatTo t :=
  List.foldl_append

theorem ary_formatTo (buf : CharBuf N) (s : List Char) :
    (buf.formatTo s).ary = (buf.ary ++ s).take N := by
  induction s generalizing buf with
  | nil =>
      rw [List.append_nil, List.take_of_length_le buf.len_le]
      rfl
  | cons c s ih =>
      show ((buf.pushBack c).formatTo s).ary = _
      rw [ih, pushBack]
      by_cases hroom : buf.ary.length < N
      · rw [dif_pos hroom, List.append_assoc, List.singleton_append]
      · have hfull : buf.ary.length = N := Nat.le_antisymm buf.len_le (Nat.le_of_not_lt hroom)
        rw [dif_neg hroom, List.take_left' hfull, List.take_left' hfull]

end CharBuf

/-!
## The functions
-/

def nullInt : Int := -2147483648

def daysSince0AD : Int := 730425

def y2kDaysOff : Int := 730425

structure DateFields where
  y : Int
  mm : Int
  dd : Int

def dayOfMarchYear (g y : Int) : Int :=
  g - (365 * y + y.tdiv 4 - y.tdiv 100 + y.tdiv 400)

def marchYear (g : Int) : Int :=
  let y := (10000 * g + 14780).tdiv 3652425
  if dayOfMarchYear g y < 0 then y - 1 else y

/-- The body that the functions for dates and for timestamps share. -/
def dateFields (g : Int) : DateFields :=
  let y := marchYear g
  let ddd := dayOfMarchYear g y
  let mi := (100 * ddd + 52).tdiv 3060
  { y := y + (mi + 2).tdiv 12
    mm := (mi + 2).tmod 12 + 1
    dd := ddd - (mi * 306 + 5).tdiv 10 + 1 }

namespace Date

/-- No intermediate value needs more than 32 bits, for years of less than seven digits. -/
def getDays (y m d : Int) : Int :=
  let month := (m + 9).tmod 12
  let year := y - month.tdiv 10
  (year * 365 + year.tdiv 4 - year.tdiv 100 + year.tdiv 400 + (month * 306 + 5).tdiv 10 +
    (d - 1)) - y2kDaysOff

/-- `{:4}.{:02}.{:02}` -/
def dateText (f : DateFields) : List Char :=
  spacePadded 4 f.y ++ '.' :: (zeroPadded 2 f.mm ++ '.' :: zeroPadded 2 f.dd)

def formatTo (out : CharBuf 16) (date : Int) (suffix : Bool) : CharBuf 16 :=
  if date = nullInt then out.formatTo ('0' :: 'N' :: if suffix then ['d'] else [])
  else out.formatTo (dateText (dateFields (daysSince0AD + date)))

end Date

/-!
## Years that begin in March
-/

theorem tdiv_eq {a b : Int} (h : 0 <= a) : a.tdiv b = a / b :=
  Int.tdiv_eq_ediv_of_nonneg h

theorem tmod_eq {a b : Int} (h : 0 <= a) : a.tmod b = a % b :=
  Int.tmod_eq_emod_of_nonneg h

theorem dayOfMarchYear_eq {g y : Int} (hy : 0 <= y) :
    dayOfMarchYear g y = g - yearStart (y + 1) := by
  unfold dayOfMarchYear yearStart
  rw [tdiv_eq hy, tdiv_eq hy, tdiv_eq hy, Int.add_sub_cancel]

theorem marchYear_near {g y : Int} (hstart : yearStart (y + 1) <= g)
    (hlt : g < yearStart (y + 1 + 1)) :
    (10000 * g + 14780) / 3652425 = y ∨ (10000 * g + 14780) / 3652425 = y + 1 := by
  rcases yearStart_cycles y with ⟨a, b, c, d, hy, hb, hc, hd, hcycles⟩
  have hlen := yearLength_le (y + 1)
  rw [yearStart_succ] at hlt
  omega

theorem marchYear_eq {g y : Int} (hy : 0 <= y) (hstart : yearStart (y + 1) <= g)
    (hlt : g < yearStart (y + 1 + 1)) : marchYear g = y := by
  have hpos : 0 <= 10000 * g + 14780 := by
    unfold yearStart at hstart
    omega
  unfold marchYear
  rw [tdiv_eq hpos]
  show (if dayOfMarchYear g ((10000 * g + 14780) / 3652425) < 0 then _ else _) = y
  rcases marchYear_near hstart hlt with hsame | hnext
  · rw [hsame, dayOfMarchYear_eq hy, if_neg (by omega)]
  · rw [hnext, dayOfMarchYear_eq (by omega), if_pos (by omega), Int.add_sub_cancel]

def marchMonth (m : Int) : Int :=
  (m + 9) % 12

/-- The days of the year before a month and the year in which the month lies, from March on. -/
theorem monthStart_march {y m : Int} (hpos : 1 <= m) (hle : m <= 12) :
    monthStart y m + 306 = (marchMonth m * 306 + 5) / 10 + if m <= 2 then 0 else yearLength y := by
  unfold monthStart marchMonth yearLength
  by_cases hleap : IsLeap y
  · simp only [if_pos hleap]
    interval_cases m <;> rfl
  · simp only [if_neg hleap]
    interval_cases m <;> rfl

theorem month_of_day {y m d ddd : Int} (hpos : 1 <= m) (hle : m <= 12) (hday : 1 <= d)
    (hlast : d <= monthLength y m) (hddd : ddd = (marchMonth m * 306 + 5) / 10 + (d - 1)) :
    (100 * ddd + 52) / 3060 = marchMonth m := by
  have hfeb : monthLength y 2 <= 29 := by
    unfold monthLength
    split
    · split <;> decide
    · contradiction
  unfold marchMonth at *
  by_cases htwo : m = 2
  · subst htwo
    omega
  · have hlen : monthLength y m = if m = 4 ∨ m = 6 ∨ m = 9 ∨ m = 11 then 30 else 31 :=
      if_neg htwo
    rw [hlen] at hlast
    interval_cases m <;> simp at * <;> omega

theorem marchMonth_range (m : Int) : 0 <= marchMonth m ∧ marchMonth m <= 11 := by
  unfold marchMonth
  omega

theorem march_of_day (c : CivilDate) :
    c.dayNumber + 306 = yearStart (c.year - marchMonth c.month / 10 + 1) +
      ((marchMonth c.month * 306 + 5) / 10 + (c.day - 1)) := by
  have hmonth := monthStart_march (y := c.year) c.month_pos c.month_le
  have hpos := c.month_pos
  have hle := c.month_le
  unfold CivilDate.dayNumber
  by_cases htwo : c.month <= 2
  · have hyear : c.year - marchMonth c.month / 10 + 1 = c.year := by
      unfold marchMonth
      omega
    rw [if_pos htwo] at hmonth
    rw [hyear]
    omega
  · have hyear : c.year - marchMonth c.month / 10 + 1 = c.year + 1 := by
      unfold marchMonth
      omega
    rw [if_neg htwo] at hmonth
    rw [hyear, yearStart_succ]
    omega

theorem monthStart_february {y m d : Int} (hpos : 1 <= m) (hle : m <= 2)
    (hlast : d <= monthLength y m) : monthStart y m + d + 306 <= yearLength y := by
  unfold monthLength at hlast
  unfold monthStart yearLength
  by_cases hleap : IsLeap y
  · simp only [if_pos hleap] at *
    interval_cases m <;> simp at * <;> omega
  · simp only [if_neg hleap] at *
    interval_cases m <;> simp at * <;> omega

theorem march_lt (c : CivilDate) :
    c.dayNumber + 306 < yearStart (c.year - marchMonth c.month / 10 + 1 + 1) := by
  have hpos := c.month_pos
  have hle := c.month_le
  by_cases htwo : c.month <= 2
  · have hyear : c.year - marchMonth c.month / 10 + 1 + 1 = c.year + 1 := by
      unfold marchMonth
      omega
    have hover := monthStart_february hpos htwo c.day_le
    rw [hyear, yearStart_succ]
    unfold CivilDate.dayNumber
    omega
  · have hyear : c.year - marchMonth c.month / 10 + 1 + 1 = c.year + 1 + 1 := by
      unfold marchMonth
      omega
    have hlt := c.dayNumber_year.right
    have hlen := yearLength_pos (c.year + 1)
    rw [hyear, yearStart_succ]
    omega

theorem dateFields_eq (c : CivilDate) (hyear : 1 <= c.year) :
    dateFields (c.dayNumber + 306) = ⟨c.year, c.month, c.day⟩ := by
  have hday := c.day_pos
  have hpos := c.month_pos
  have hle := c.month_le
  have hrange := marchMonth_range c.month
  have hmarch := march_of_day c
  have hmonth := month_of_day hpos hle hday c.day_le rfl
  have hy : 0 <= c.year - marchMonth c.month / 10 := by
    omega
  have hyears : marchYear (c.dayNumber + 306) = c.year - marchMonth c.month / 10 :=
    marchYear_eq hy (by omega) (march_lt c)
  have hddd : dayOfMarchYear (c.dayNumber + 306) (c.year - marchMonth c.month / 10) =
      (marchMonth c.month * 306 + 5) / 10 + (c.day - 1) := by
    rw [dayOfMarchYear_eq hy]
    omega
  have hmi : (100 * ((marchMonth c.month * 306 + 5) / 10 + (c.day - 1)) + 52).tdiv 3060 =
      marchMonth c.month := (tdiv_eq (by omega)).trans hmonth
  unfold dateFields
  simp only [hyears, hddd, hmi]
  rw [tdiv_eq (by omega), tmod_eq (by omega), tdiv_eq (by omega), DateFields.mk.injEq]
  refine ⟨?_, ?_, ?_⟩
  · unfold marchMonth
    omega
  · unfold marchMonth
    omega
  · omega

theorem Date.getDays_eq (c : CivilDate) (hyear : 1 <= c.year) :
    getDays c.year c.month c.day = c.dayNumber - 730119 := by
  have hpos := c.month_pos
  have hrange := marchMonth_range c.month
  have hmarch := march_of_day c
  have hmonth : (c.month + 9).tmod 12 = marchMonth c.month := tmod_eq (by omega)
  have hy : 0 <= c.year - marchMonth c.month / 10 := by
    omega
  unfold getDays
  simp only [hmonth]
  rw [tdiv_eq hrange.left, tdiv_eq hy, tdiv_eq hy, tdiv_eq hy, tdiv_eq (by omega)]
  unfold y2kDaysOff
  unfold yearStart at hmarch
  rw [Int.add_sub_cancel] at hmarch
  omega

/-!
## Printing
-/

namespace Date

def printed (date : Int) (suffix : Bool) : List Char :=
  (formatTo CharBuf.new date suffix).ary

/-- The year, the month and the day of a day, as they are printed. -/
def shown (c : CivilDate) : List Char :=
  dateText ⟨c.year, c.month, c.day⟩

def InYears (c : CivilDate) : Prop :=
  1 <= c.year ∧ c.year <= 9999

theorem dateText_inj {f f' : DateFields} (h : dateText f = dateText f') : f = f' := by
  have hdot : ¬ (Char.isDigit '.' ∨ '.' = '-' ∨ '.' = ' ') := by
    decide
  rcases (numeral_spacePadded 4 f.y).append_inj (numeral_spacePadded 4 f'.y) hdot h with
    ⟨hy, hrest⟩
  rcases (numeral_zeroPadded 2 f.mm).append_inj (numeral_zeroPadded 2 f'.mm) hdot hrest with
    ⟨hmm, hday⟩
  have hdd := (hday ▸ numeral_zeroPadded 2 f.dd).unique (numeral_zeroPadded 2 f'.dd)
  cases f
  cases f'
  exact DateFields.mk.injEq .. ▸ ⟨hy, hmm, hdd⟩

theorem shown_inj {c c' : CivilDate} (h : shown c = shown c') : c = c' := by
  injection dateText_inj h with hyear hmonth hday
  exact CivilDate.ext hyear hmonth hday

theorem length_shown {c : CivilDate} (h : InYears c) : (shown c).length = 10 := by
  rcases h with ⟨hpos, hle⟩
  have hmonth := c.month_pos
  have hmonths := c.month_le
  have hday := c.day_pos
  have hdays : c.day <= 31 := Int.le_trans c.day_le (monthLength_le c.year c.month)
  unfold shown dateText
  simp only [List.length_append, List.length_cons]
  rw [length_spacePadded (by decide) (by omega) (by omega),
    length_zeroPadded (by decide) (by omega) (by omega),
    length_zeroPadded (by decide) (by omega) (by omega)]

theorem printed_getDays {c : CivilDate} (h : InYears c) (suffix : Bool) :
    printed (getDays c.year c.month c.day) suffix = shown c := by
  have hdays := getDays_eq c h.left
  have hfields := dateFields_eq c h.left
  have hnull : getDays c.year c.month c.day ≠ nullInt := by
    have hfirst := c.dayNumber_year.left
    have hstart := yearStart_mono h.left
    have hone : yearStart 1 = 0 := rfl
    unfold nullInt
    omega
  have hnumber : daysSince0AD + getDays c.year c.month c.day = c.dayNumber + 306 := by
    unfold daysSince0AD
    omega
  unfold printed formatTo
  rw [if_neg hnull, hnumber, hfields, CharBuf.ary_formatTo]
  show (([] : List Char) ++ shown c).take 16 = shown c
  rw [List.nil_append, List.take_of_length_le]
  rw [length_shown h]
  decide

def dayOf (date : Int) : CivilDate :=
  CivilDate.ofDayNumber (date + 730119)

theorem inYears_dayOf {date : Int} (hpos : getDays 1 1 1 <= date)
    (hle : date <= getDays 9999 12 31) : InYears (dayOf date) := by
  have hnumber := CivilDate.dayNumber_ofDayNumber (date + 730119)
  have hyear := (dayOf date).dayNumber_year
  have hfirst : getDays 1 1 1 = -730119 := rfl
  have hlast : getDays 9999 12 31 = 2921939 := rfl
  have hone : yearStart 1 = 0 := rfl
  have hmany : yearStart 10000 = 3652059 := rfl
  change (dayOf date).dayNumber = date + 730119 at hnumber
  constructor
  · by_contra hless
    have hmono : yearStart ((dayOf date).year + 1) <= yearStart 1 :=
      yearStart_mono (by omega)
    omega
  · by_contra hmore
    have hmono : yearStart 10000 <= yearStart (dayOf date).year := yearStart_mono (by omega)
    omega

theorem getDays_dayOf {date : Int} (h : InYears (dayOf date)) :
    getDays (dayOf date).year (dayOf date).month (dayOf date).day = date := by
  rw [getDays_eq _ h.left, dayOf, CivilDate.dayNumber_ofDayNumber]
  omega

theorem printed_dayOf {date : Int} (h : InYears (dayOf date)) (suffix : Bool) :
    printed date suffix = shown (dayOf date) := by
  have hprinted := printed_getDays h suffix
  rwa [getDays_dayOf h] at hprinted

theorem dayOf_succ (date : Int) : dayOf (date + 1) = (dayOf date).next := by
  apply CivilDate.dayNumber_injective
  rw [CivilDate.dayNumber_next, dayOf, dayOf, CivilDate.dayNumber_ofDayNumber,
    CivilDate.dayNumber_ofDayNumber]
  omega

/--
The day that is printed for the number of a day is this day, the number of the day that is
printed for a number is this number, and the next number is that of the next day.
-/
theorem printed_day (suffix : Bool) :
    (forall c, InYears c -> printed (getDays c.year c.month c.day) suffix = shown c) ∧
      (forall date, getDays 1 1 1 <= date -> date <= getDays 9999 12 31 ->
        exists c, InYears c ∧ printed date suffix = shown c ∧
          (forall c', printed date suffix = shown c' -> c' = c) ∧
          getDays c.year c.month c.day = date) ∧
      (forall date c, getDays 1 1 1 <= date -> date < getDays 9999 12 31 ->
        printed date suffix = shown c -> printed (date + 1) suffix = shown c.next) := by
  refine ⟨fun c h => printed_getDays h suffix, fun date hpos hle => ?_,
    fun date c hpos hlt hshown => ?_⟩
  · have hyears := inYears_dayOf hpos hle
    have hprinted := printed_dayOf hyears suffix
    refine ⟨dayOf date, hyears, hprinted, fun c' hshown => ?_, getDays_dayOf hyears⟩
    exact shown_inj (hshown.symm.trans hprinted)
  · have hprinted := printed_dayOf (inYears_dayOf hpos (Int.le_of_lt hlt)) suffix
    have hsame := shown_inj (hshown.symm.trans hprinted)
    have hnext : InYears (dayOf (date + 1)) := inYears_dayOf (by omega) hlt
    rw [printed_dayOf hnext, dayOf_succ, hsame]

end Date

end Temporal
end MgKdb
