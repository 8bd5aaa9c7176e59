import MgKdb.Foundation.Decimal
import MgKdb.Foundation.Gregorian
import MgKdb.Ipcjs.Numbers

/-!
# Months in JavaScript

A month is a number of months since January 2000.  It is turned into a `Date` and back,
and written out as a year and a month.
-/

namespace MgKdb
namespace Ipcjs

open Foundation

/-!
## Dates of JavaScript

Local time is taken as UTC.
-/

/-- The milliseconds since 1970; `none` is an invalid date. -/
structure JsDate where
  time : Option Int

namespace JsDate

def msPerDay : Int := 86400000

def epochDay : Int := 719162

theorem month_range (m : Int) : 1 <= m % 12 + 1 ∧ m % 12 + 1 <= 12 := by
  omega

/-- The first day of a month; a month outside of the year is one of another year. -/
def firstOfMonth (y m : Int) : CivilDate :=
  CivilDate.first (y + m / 12) (m % 12 + 1) (month_range m).left (month_range m).right

def makeDay (y m dt : Int) : Int :=
  (firstOfMonth y m).dayNumber - epochDay + (dt - 1)

/-- `MakeFullYear`: two digits are those of a year of the twentieth century. -/
def makeFullYear (y : Int) : Int :=
  if 0 <= y ∧ y <= 99 then 1900 + y else y

def timeClip (t : Int) : Option Int :=
  if t.natAbs <= 8640000000000000 then some t else none

def utc (y m dt : Int) : JsDate where
  time := timeClip (makeDay (makeFullYear y) m dt * msPerDay)

def day (date : JsDate) : Option CivilDate :=
  date.time.map fun t => CivilDate.ofDayNumber (t / msPerDay + epochDay)

def getFullYear (date : JsDate) : Option Int :=
  date.day.map fun c => c.year

def getMonth (date : JsDate) : Option Int :=
  date.day.map fun c => c.month - 1

end JsDate

/-!
## Months
-/

namespace Month

def monthsFromJsDate (date : JsDate) : Option Int := do
  let y ← date.getFullYear
  let m ← date.getMonth
  return y - 2000 + m

/-- `%` has the sign of the number of months. -/
def toJsDate (months : Int) : JsDate :=
  let y := 2000 + months / 12
  let m := months.tmod 12
  JsDate.utc y m 1

def numFmt4D (n : Int) : List Char :=
  digitPadded 3 n

/-- `MgFormat.NUM_FMT_2D`, of a number that is too small to be grouped. -/
def numFmt2D (n : Int) : List Char :=
  digitPadded 2 n

/-- What `toString` appends. -/
def sfx (suffix : Bool) : List Char :=
  if suffix then ['m'] else []

def toString (months : Int) (suffix : Bool) : List Char :=
  match intTo0NStr (some months) KdbConstants.i32 (String.ofList (sfx suffix)) with
  | some nil => nil.toList
  | none =>
      let yrs := 2000 + months / 12
      let mth := 1 + months.tmod 12
      numFmt4D yrs ++ '.' :: (numFmt2D mth ++ sfx suffix)

def InYears (months : Int) : Prop :=
  1 <= 2000 + months / 12 ∧ 2000 + months / 12 <= 9999

/-- The month that is made of a date is the one that the date was made of. -/
def ComesBack (months : Int) : Prop :=
  monthsFromJsDate (toJsDate months) = some months

/-- The text has the year and the month, of twelve, that the number denotes. -/
def Shows (months : Int) (suffix : Bool) : Prop :=
  exists (y m : Int) (ys ms : List Char), (1 <= m ∧ m <= 12) ∧ months = (y - 2000) * 12 + (m - 1) ∧
    Numeral ys y ∧ Numeral ms m ∧ toString months suffix = ys ++ '.' :: (ms ++ sfx suffix)

end Month

/-!
## Dates and back
-/

namespace JsDate

theorem timeClip_of_year {c : CivilDate} (hlow : 0 <= c.year) (hhigh : c.year <= 9999) :
    timeClip ((c.dayNumber - epochDay) * msPerDay) =
      some ((c.dayNumber - epochDay) * msPerDay) := by
  have hyear := c.dayNumber_year
  have hstart : yearStart 0 <= yearStart c.year := yearStart_mono hlow
  have hend : yearStart (c.year + 1) <= yearStart 10000 := yearStart_mono (by omega)
  have hfirst : yearStart 0 = -366 := rfl
  have hlast : yearStart 10000 = 3652059 := rfl
  refine if_pos ?_
  unfold epochDay msPerDay
  omega

theorem day_utc {y m : Int} (hlow : 0 <= makeFullYear y + m / 12)
    (hhigh : makeFullYear y + m / 12 <= 9999) :
    (utc y m 1).day = some (firstOfMonth (makeFullYear y) m) := by
  have hclip := timeClip_of_year (c := firstOfMonth (makeFullYear y) m) hlow hhigh
  have hday : makeDay (makeFullYear y) m 1 =
      (firstOfMonth (makeFullYear y) m).dayNumber - epochDay := by
    unfold makeDay
    omega
  have hwhole : ((firstOfMonth (makeFullYear y) m).dayNumber - epochDay) * msPerDay / msPerDay =
      (firstOfMonth (makeFullYear y) m).dayNumber - epochDay :=
    Int.mul_ediv_cancel _ (by decide)
  unfold day utc
  simp only [hday, hclip, Option.map_some]
  rw [hwhole, Int.sub_add_cancel, CivilDate.ofDayNumber_dayNumber]

end JsDate

namespace Month

theorem tmod_twelve (months : Int) :
    months.tmod 12 = if 0 <= months ∨ 12 ∣ months then months % 12 else months % 12 - 12 := by
  rw [Int.tmod_eq_emod]
  split
  · exact Int.sub_zero _
  · rfl

theorem monthsFromJsDate_toJsDate {months : Int} (h : InYears months) :
    monthsFromJsDate (toJsDate months) =
      some (JsDate.makeFullYear (2000 + months / 12) + months.tmod 12 / 12 - 2000 +
        months.tmod 12 % 12) := by
  rcases h with ⟨hlow, hhigh⟩
  have hmonth := tmod_twelve months
  have hrange : 0 <= JsDate.makeFullYear (2000 + months / 12) + months.tmod 12 / 12 ∧
      JsDate.makeFullYear (2000 + months / 12) + months.tmod 12 / 12 <= 9999 := by
    unfold JsDate.makeFullYear
    split at hmonth <;> split <;> omega
  have hday := JsDate.day_utc hrange.left hrange.right
  unfold monthsFromJsDate toJsDate JsDate.getFullYear JsDate.getMonth
  simp only [hday, Option.map_some]
  show some (_ + (_ + 1 - 1)) = _
  rw [Int.add_sub_cancel]
  rfl

theorem comesBack_iff {months : Int} (h : InYears months) :
    ComesBack months <-> 0 <= months ∧ months < 12 := by
  have hmonth := tmod_twelve months
  unfold ComesBack
  rw [monthsFromJsDate_toJsDate h, Option.some.injEq]
  unfold InYears at h
  unfold JsDate.makeFullYear
  split at hmonth <;> split <;> omega

/-!
## Text
-/

theorem not_nil {months : Int} (h : InYears months) (char : String) :
    intTo0NStr (some months) KdbConstants.i32 char = none := by
  unfold InYears at h
  unfold intTo0NStr KdbConstants.i32
  simp only [Option.some.injEq]
  rw [if_neg (by omega), if_neg (by omega), if_neg (by omega)]

theorem toString_eq {months : Int} (h : InYears months) (suffix : Bool) :
    toString months suffix =
      numFmt4D (2000 + months / 12) ++ '.' :: (numFmt2D (1 + months.tmod 12) ++ sfx suffix) := by
  unfold toString
  rw [not_nil h]

theorem shows_iff {months : Int} (h : InYears months) (suffix : Bool) :
    Shows months suffix <-> 0 <= months ∨ 12 ∣ months := by
  have hdot : ¬ (Char.isDigit '.' ∨ '.' = '-' ∨ '.' = ' ') := by
    decide
  have hmonth := tmod_twelve months
  constructor
  · rintro ⟨y, m, ys, ms, hm, _, hys, hms, htext⟩
    rw [toString_eq h] at htext
    rcases (numeral_digitPadded 3 (2000 + months / 12)).append_inj hys hdot htext with
      ⟨_, hrest⟩
    have hsame : digitPadded 2 (1 + months.tmod 12) = ms := List.append_cancel_right hrest
    have hmth := (hsame ▸ numeral_digitPadded 2 (1 + months.tmod 12)).unique hms
    by_contra hbefore
    rw [if_neg hbefore] at hmonth
    omega
  · intro hwhole
    rw [if_pos hwhole] at hmonth
    refine ⟨2000 + months / 12, 1 + months.tmod 12, _, _, ?_, ?_,
      numeral_digitPadded 3 _, numeral_digitPadded 2 _, toString_eq h suffix⟩
    · omega
    · omega

/--
A month comes back from a date, and is written as its year and its month, exactly when it is
one of the year 2000.
-/
theorem month_iff (months : Int) (h : InYears months) :
    (ComesBack months ∧ forall suffix, Shows months suffix) <-> 0 <= months ∧ months < 12 := by
  rw [comesBack_iff h, and_iff_left_iff_imp]
  exact fun hyear suffix => (shows_iff h suffix).mpr (Or.inl hyear.left)

/-- May 2000. -/
theorem month_iff_may :
    (ComesBack 4 ∧ forall suffix, Shows 4 suffix) <-> (0 : Int) <= 4 ∧ (4 : Int) < 12 :=
  month_iff 4 ⟨by decide, by decide⟩

/-- January 2001 comes back as February 2000, and December 1999 has no month. -/
theorem month_january :
    monthsFromJsDate (toJsDate 12) = some 1 ∧ ¬ ComesBack 12 ∧
      toString (-1) true = ['1', '9', '9', '9', '.', '0', '0', 'm'] ∧ ¬ Shows (-1) true := by
  have hback : monthsFromJsDate (toJsDate 12) = some 1 := by
    decide
  refine ⟨hback, fun hsame => ?_, by decide, fun hshows => ?_⟩
  · exact absurd (hback.symm.trans hsame) (by decide)
  · have hyears : InYears (-1) := ⟨by decide, by decide⟩
    have hwhole := (shows_iff hyears true).mp hshows
    omega

end Month

end Ipcjs
end MgKdb
