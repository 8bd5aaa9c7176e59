import Mathlib.Tactic.IntervalCases

/-!
# The Gregorian calendar

Dates of the proleptic Gregorian calendar, with years that are any integers, and the number of
days between them.  A day is what follows the day before it; that the numbers of the days
follow each other is what makes them right.
-/

namespace MgKdb
namespace Foundation

def IsLeap (y : Int) : Prop :=
  4 ∣ y ∧ (¬ 100 ∣ y ∨ 400 ∣ y)

instance (y : Int) : Decidable (IsLeap y) :=
  inferInstanceAs (Decidable (_ ∧ _))

def yearLength (y : Int) : Int :=
  if IsLeap y then 366 else 365

def monthLength (y m : Int) : Int :=
  if m = 2 then if IsLeap y then 29 else 28
  else if m = 4 ∨ m = 6 ∨ m = 9 ∨ m = 11 then 30
  else 31

@[ext]
structure CivilDate where
  year : Int
  month : Int
  day : Int
  month_pos : 1 <= month
  month_le : month <= 12
  day_pos : 1 <= day
  day_le : day <= monthLength year month

/-!
## Months and years
-/

theorem monthLength_pos (y m : Int) : 1 <= monthLength y m := by
  unfold monthLength
  split
  · split <;> decide
  · split <;> decide

theorem monthLength_le (y m : Int) : monthLength y m <= 31 := by
  unfold monthLength
  split
  · split <;> decide
  · split <;> decide

/-- The days of a year before a month of it; behind February they come one or two short. -/
def monthStart (y m : Int) : Int :=
  (367 * m - 362) / 12 - if m <= 2 then 0 else if IsLeap y then 1 else 2

def yearStart (y : Int) : Int :=
  365 * (y - 1) + (y - 1) / 4 - (y - 1) / 100 + (y - 1) / 400

theorem monthStart_one (y : Int) : monthStart y 1 = 0 := rfl

theorem monthStart_succ {y m : Int} (hpos : 1 <= m) (hle : m <= 11) :
    monthStart y (m + 1) = monthStart y m + monthLength y m := by
  unfold monthStart monthLength
  by_cases hleap : IsLeap y
  · simp only [if_pos hleap]
    interval_cases m <;> rfl
  · simp only [if_neg hleap]
    interval_cases m <;> rfl

theorem monthStart_last (y : Int) : monthStart y 12 + monthLength y 12 = yearLength y := by
  unfold monthStart monthLength yearLength
  by_cases hleap : IsLeap y
  · simp only [if_pos hleap]
    rfl
  · simp only [if_neg hleap]
    rfl

theorem monthStart_mono {y m m' : Int} (h : m <= m') : monthStart y m <= monthStart y m' := by
  unfold monthStart
  by_cases hleap : IsLeap y
  · simp only [if_pos hleap]
    split <;> split <;> omega
  · simp only [if_neg hleap]
    split <;> split <;> omega

theorem monthStart_add_le (y : Int) {m : Int} (hpos : 1 <= m) (hle : m <= 12) :
    monthStart y m + monthLength y m <= yearLength y := by
  have hlast := monthStart_last y
  by_cases hmonth : m <= 11
  · have hsucc := monthStart_succ (y := y) hpos hmonth
    have hmono : monthStart y (m + 1) <= monthStart y 12 :=
      monthStart_mono (by omega)
    have hlength := monthLength_pos y 12
    omega
  · have hdecember : m = 12 := by omega
    rw [hdecember]
    omega

theorem yearStart_succ (y : Int) : yearStart (y + 1) = yearStart y + yearLength y := by
  unfold yearStart yearLength
  by_cases hleap : IsLeap y
  · rw [if_pos hleap]
    unfold IsLeap at hleap
    omega
  · rw [if_neg hleap]
    unfold IsLeap at hleap
    omega

theorem yearLength_pos (y : Int) : 365 <= yearLength y := by
  unfold yearLength
  split <;> decide

theorem yearLength_le (y : Int) : yearLength y <= 366 := by
  unfold yearLength
  split <;> decide

theorem yearStart_cycles (y : Int) :
    exists a b c d : Int, y = 400 * a + 100 * b + 4 * c + d ∧ (0 <= b ∧ b <= 3) ∧
      (0 <= c ∧ c <= 24) ∧ (0 <= d ∧ d <= 3) ∧
      yearStart (y + 1) = 146097 * a + 36524 * b + 1461 * c + 365 * d := by
  refine ⟨y / 400, y % 400 / 100, y % 100 / 4, y % 4, ?_, ?_, ?_, ?_, ?_⟩
  · omega
  · omega
  · omega
  · omega
  · unfold yearStart
    rw [Int.add_sub_cancel]
    omega

/-!
## Numbers of days
-/

theorem one_le_succ {n : Int} (h : 1 <= n) : 1 <= n + 1 := by
  omega

theorem one_le_one : (1 : Int) <= 1 :=
  Int.le_refl 1

theorem one_le_twelve : (1 : Int) <= 12 := by
  decide

namespace CivilDate

def dayNumber (c : CivilDate) : Int :=
  yearStart c.year + monthStart c.year c.month + (c.day - 1)

def first (y m : Int) (hpos : 1 <= m) (hle : m <= 12) : CivilDate where
  year := y
  month := m
  day := 1
  month_pos := hpos
  month_le := hle
  day_pos := one_le_one
  day_le := monthLength_pos y m

def next (c : CivilDate) : CivilDate :=
  if hday : c.day < monthLength c.year c.month then
    { c with
      day := c.day + 1
      day_pos := one_le_succ c.day_pos
      day_le := hday }
  else if hmonth : c.month < 12 then
    first c.year (c.month + 1) (one_le_succ c.month_pos) hmonth
  else first (c.year + 1) 1 one_le_one one_le_twelve

theorem dayNumber_next (c : CivilDate) : c.next.dayNumber = c.dayNumber + 1 := by
  unfold next
  split
  · show yearStart c.year + monthStart c.year c.month + (c.day + 1 - 1) = _
    unfold dayNumber
    omega
  · rename_i hday
    have hlast : c.day = monthLength c.year c.month := by
      have hle := c.day_le
      omega
    split
    · rename_i hmonth
      have hmonth' := monthStart_succ (y := c.year) c.month_pos (by omega)
      show yearStart c.year + monthStart c.year (c.month + 1) + (1 - 1) = _
      unfold dayNumber
      omega
    · rename_i hmonth
      have hdecember : c.month = 12 := by
        have hle := c.month_le
        omega
      have hyear := yearStart_succ c.year
      have hmonth' := monthStart_last c.year
      show yearStart (c.year + 1) + monthStart (c.year + 1) 1 + (1 - 1) = _
      rw [monthStart_one]
      unfold dayNumber
      rw [hlast, hdecember]
      omega

theorem monthStart_add_lt (c : CivilDate) :
    0 <= monthStart c.year c.month ∧
      monthStart c.year c.month + c.day <= yearLength c.year := by
  have hstart : monthStart c.year 1 <= monthStart c.year c.month :=
    monthStart_mono c.month_pos
  have hend := monthStart_add_le c.year c.month_pos c.month_le
  have hday := c.day_le
  rw [monthStart_one] at hstart
  omega

end CivilDate

/-!
## The day with a number
-/

def yearOf (n : Int) : Int :=
  let y := 400 * n / 146097 + 1
  if yearStart (y + 1) <= n then y + 1 else if n < yearStart y then y - 1 else y

theorem yearStart_yearOf (n : Int) :
    yearStart (yearOf n) <= n ∧ n < yearStart (yearOf n + 1) := by
  unfold yearOf
  simp only
  split
  · rename_i h
    refine ⟨h, ?_⟩
    unfold yearStart at *
    omega
  · split
    · rename_i h₁ h₂
      rw [Int.sub_add_cancel]
      refine ⟨?_, h₂⟩
      unfold yearStart at *
      omega
    · rename_i h₁ h₂
      omega

def monthOf (y r : Int) : Int :=
  (12 * (r + if r < monthStart y 3 then 0 else if IsLeap y then 1 else 2) + 373) / 367

theorem monthStart_monthOf {y r : Int} (hpos : 0 <= r) (hlt : r < yearLength y) :
    (1 <= monthOf y r ∧ monthOf y r <= 12) ∧ monthStart y (monthOf y r) <= r ∧
      r < monthStart y (monthOf y r) + monthLength y (monthOf y r) := by
  unfold monthOf yearLength monthStart monthLength at *
  by_cases hleap : IsLeap y
  · simp only [if_pos hleap] at *
    generalize hm : (12 * (r + _) + 373) / 367 = m
    have hrange : 1 <= m ∧ m <= 12 := by
      split at hm <;> omega
    rcases hrange with ⟨hone, htwelve⟩
    refine ⟨⟨hone, htwelve⟩, ?_⟩
    split at hm <;> interval_cases m <;> simp <;> omega
  · simp only [if_neg hleap] at *
    generalize hm : (12 * (r + _) + 373) / 367 = m
    have hrange : 1 <= m ∧ m <= 12 := by
      split at hm <;> omega
    rcases hrange with ⟨hone, htwelve⟩
    refine ⟨⟨hone, htwelve⟩, ?_⟩
    split at hm <;> interval_cases m <;> simp <;> omega

theorem monthOf_eq {y m r : Int} (hpos : 1 <= m) (hle : m <= 12) (hstart : monthStart y m <= r)
    (hlt : r < monthStart y m + monthLength y m) : monthOf y r = m := by
  have hfirst : monthStart y 1 <= monthStart y m := monthStart_mono hpos
  have hend := monthStart_add_le y hpos hle
  rw [monthStart_one] at hfirst
  rcases monthStart_monthOf (y := y) (r := r) (by omega) (by omega) with
    ⟨⟨hpos', hle'⟩, hstart', hlt'⟩
  rcases Int.lt_trichotomy (monthOf y r) m with hless | heq | hmore
  · have hsucc := monthStart_succ (y := y) hpos' (by omega)
    have hmono := monthStart_mono (y := y) (Int.add_one_le_of_lt hless)
    omega
  · exact heq
  · have hsucc := monthStart_succ (y := y) hpos (by omega)
    have hmono := monthStart_mono (y := y) (Int.add_one_le_of_lt hmore)
    omega

theorem yearStart_mono {y y' : Int} (h : y <= y') : yearStart y <= yearStart y' := by
  unfold yearStart
  omega

theorem yearOf_eq {y n : Int} (hstart : yearStart y <= n) (hlt : n < yearStart (y + 1)) :
    yearOf n = y := by
  rcases yearStart_yearOf n with ⟨hstart', hlt'⟩
  rcases Int.lt_trichotomy (yearOf n) y with hless | heq | hmore
  · have hmono := yearStart_mono (Int.add_one_le_of_lt hless)
    omega
  · exact heq
  · have hmono := yearStart_mono (Int.add_one_le_of_lt hmore)
    omega

namespace CivilDate

def dayOfYear (n : Int) : Int :=
  n - yearStart (yearOf n)

theorem dayOfYear_range (n : Int) : 0 <= dayOfYear n ∧ dayOfYear n < yearLength (yearOf n) := by
  have hyear := yearStart_yearOf n
  rw [yearStart_succ] at hyear
  unfold dayOfYear
  omega

theorem month_range (n : Int) :
    1 <= monthOf (yearOf n) (dayOfYear n) ∧ monthOf (yearOf n) (dayOfYear n) <= 12 :=
  (monthStart_monthOf (dayOfYear_range n).left (dayOfYear_range n).right).left

theorem day_range (n : Int) :
    1 <= dayOfYear n - monthStart (yearOf n) (monthOf (yearOf n) (dayOfYear n)) + 1 ∧
      dayOfYear n - monthStart (yearOf n) (monthOf (yearOf n) (dayOfYear n)) + 1 <=
        monthLength (yearOf n) (monthOf (yearOf n) (dayOfYear n)) := by
  have hmonth := (monthStart_monthOf (dayOfYear_range n).left (dayOfYear_range n).right).right
  omega

def ofDayNumber (n : Int) : CivilDate where
  year := yearOf n
  month := monthOf (yearOf n) (dayOfYear n)
  day := dayOfYear n - monthStart (yearOf n) (monthOf (yearOf n) (dayOfYear n)) + 1
  month_pos := (month_range n).left
  month_le := (month_range n).right
  day_pos := (day_range n).left
  day_le := (day_range n).right

theorem dayNumber_ofDayNumber (n : Int) : (ofDayNumber n).dayNumber = n := by
  show yearStart (yearOf n) + monthStart (yearOf n) (monthOf (yearOf n) (dayOfYear n)) +
    (dayOfYear n - monthStart (yearOf n) (monthOf (yearOf n) (dayOfYear n)) + 1 - 1) = n
  unfold dayOfYear
  omega

theorem dayNumber_year (c : CivilDate) :
    yearStart c.year <= c.dayNumber ∧ c.dayNumber < yearStart (c.year + 1) := by
  have hmonth := monthStart_add_lt c
  have hday := c.day_pos
  rw [yearStart_succ]
  unfold dayNumber
  omega

theorem ofDayNumber_dayNumber (c : CivilDate) : ofDayNumber c.dayNumber = c := by
  have hyear : yearOf c.dayNumber = c.year :=
    yearOf_eq c.dayNumber_year.left c.dayNumber_year.right
  have hday : dayOfYear c.dayNumber = monthStart c.year c.month + (c.day - 1) := by
    unfold dayOfYear
    rw [hyear, dayNumber]
    omega
  have hmonth : monthOf c.year (dayOfYear c.dayNumber) = c.month := by
    have hpos := c.day_pos
    have hle := c.day_le
    exact monthOf_eq c.month_pos c.month_le (by omega) (by omega)
  apply CivilDate.ext
  · exact hyear
  · show monthOf (yearOf c.dayNumber) (dayOfYear c.dayNumber) = c.month
    rw [hyear, hmonth]
  · show dayOfYear c.dayNumber - monthStart (yearOf c.dayNumber)
      (monthOf (yearOf c.dayNumber) (dayOfYear c.dayNumber)) + 1 = c.day
    rw [hyear, hmonth, hday]
    omega

theorem dayNumber_injective {c c' : CivilDate} (h : c.dayNumber = c'.dayNumber) : c = c' := by
  rw [<- ofDayNumber_dayNumber c, h, ofDayNumber_dayNumber]

end CivilDate

end Foundation
end MgKdb
