import MgKdb.Temporal.Date

/-!
# Timestamps

A timestamp is a number of nanoseconds since 2000.01.01.  Its date and its time of day are the
quotient and the remainder of a division that rounds towards zero.
-/

namespace MgKdb
namespace Temporal

open Foundation

def nullLong : Int := -9223372036854775808

def nanosInDay : Int := 86400000000000

def nanosInHour : Int := nanosInDay.tdiv 24

def nanosInMinute : Int := 60000000000

def nanosInSecond : Int := 1000000000

def int64 (n : Int) : Int :=
  n.bmod (2 ^ 64)

structure TimeFields where
  h : Int
  m : Int
  s : Int
  n : Int

namespace Timestamp

def getUTC (y m d h u v n : Int) : Int :=
  let nos := n
  let nos := int64 (nos + int64 (v * nanosInSecond))
  let nos := int64 (nos + int64 (u * nanosInMinute))
  let nos := int64 (nos + int64 (h * nanosInHour))
  int64 (nos + int64 (Date.getDays y m d * nanosInDay))

/-- `{:04}.{:02}.{:02}` -/
def dateText (f : DateFields) : List Char :=
  zeroPadded 4 f.y ++ '.' :: (zeroPadded 2 f.mm ++ '.' :: zeroPadded 2 f.dd)

def toDateNotation (out : CharBuf 32) (nanos : Int) : CharBuf 32 :=
  out.formatTo (dateText (dateFields (daysSince0AD + nanos.tdiv nanosInDay)))

def timeFields (nanos : Int) : TimeFields :=
  let nanos := nanos.tmod nanosInDay
  { h := nanos.tdiv nanosInHour
    m := (nanos.tmod nanosInHour).tdiv nanosInMinute
    s := (nanos.tmod nanosInMinute).tdiv nanosInSecond
    n := nanos.tmod nanosInSecond }

/-- `{:02}:{:02}:{:02}.{:09}` -/
def timeText (f : TimeFields) : List Char :=
  zeroPadded 2 f.h ++ ':' :: (zeroPadded 2 f.m ++ ':' :: (zeroPadded 2 f.s ++ '.' ::
    zeroPadded 9 f.n))

def toTimeNotation (out : CharBuf 32) (nanos : Int) : CharBuf 32 :=
  out.formatTo (timeText (timeFields nanos))

def formatTo (out : CharBuf 32) (nanos : Int) (suffix : Bool) : CharBuf 32 :=
  if nanos = nullLong then out.formatTo ('0' :: 'N' :: if suffix then ['p'] else [])
  else toTimeNotation ((toDateNotation out nanos).formatTo ['D']) nanos

end Timestamp

/-!
## Moments
-/

structure Moment where
  date : CivilDate
  hour : Int
  minute : Int
  second : Int
  nano : Int
  hour_range : 0 <= hour ∧ hour <= 23
  minute_range : 0 <= minute ∧ minute <= 59
  second_range : 0 <= second ∧ second <= 59
  nano_range : 0 <= nano ∧ nano <= 999999999

namespace Moment

def sinceMidnight (t : Moment) : Int :=
  ((t.hour * 60 + t.minute) * 60 + t.second) * 1000000000 + t.nano

def epoch : CivilDate :=
  CivilDate.first 2000 1 one_le_one one_le_twelve

def count (t : Moment) : Int :=
  (t.date.dayNumber - epoch.dayNumber) * 86400000000000 + t.sinceMidnight

def Representable (t : Moment) : Prop :=
  -2 ^ 63 < t.count ∧ t.count < 2 ^ 63

def getUTC (t : Moment) : Int :=
  Timestamp.getUTC t.date.year t.date.month t.date.day t.hour t.minute t.second t.nano

def timeFields (t : Moment) : TimeFields :=
  ⟨t.hour, t.minute, t.second, t.nano⟩

theorem zero_range : (0 : Int) <= 0 ∧ (0 : Int) <= 59 := by
  decide

theorem zero_nano_range : (0 : Int) <= 0 ∧ (0 : Int) <= 999999999 := by
  decide

def onTheHour (c : CivilDate) (hour : Int) (hrange : 0 <= hour ∧ hour <= 23) : Moment where
  date := c
  hour := hour
  minute := 0
  second := 0
  nano := 0
  hour_range := hrange
  minute_range := zero_range
  second_range := zero_range
  nano_range := zero_nano_range

def shown (t : Moment) : List Char :=
  Timestamp.dateText ⟨t.date.year, t.date.month, t.date.day⟩ ++ 'D' ::
    Timestamp.timeText t.timeFields

end Moment

def Timestamp.printed (nanos : Int) (suffix : Bool) : List Char :=
  (formatTo CharBuf.new nanos suffix).ary

/-!
## Counts
-/

theorem int64_add_left (a b : Int) : int64 (int64 a + b) = int64 (a + b) :=
  Int.bmod_add_bmod

theorem int64_add_right (a b : Int) : int64 (a + int64 b) = int64 (a + b) :=
  Int.add_bmod_bmod

theorem int64_of_range {n : Int} (hlow : -2 ^ 63 <= n) (hhigh : n < 2 ^ 63) : int64 n = n :=
  Int.bmod_eq_of_le hlow hhigh

theorem nanosInHour_eq : nanosInHour = 3600000000000 := rfl

namespace Moment

variable (t : Moment)

theorem dayNumber_epoch : epoch.dayNumber = 730119 := rfl

theorem sinceMidnight_range : 0 <= t.sinceMidnight ∧ t.sinceMidnight < 86400000000000 := by
  have hhour := t.hour_range
  have hminute := t.minute_range
  have hsecond := t.second_range
  have hnano := t.nano_range
  unfold sinceMidnight
  omega

theorem inYears (h : t.Representable) : Date.InYears t.date := by
  rcases h with ⟨hlow, hhigh⟩
  have hrange := t.sinceMidnight_range
  have hyear := t.date.dayNumber_year
  have hone : yearStart 1 = 0 := rfl
  have hmany : yearStart 10000 = 3652059 := rfl
  unfold count at hlow hhigh
  rw [dayNumber_epoch] at hlow hhigh
  constructor
  · by_contra hless
    have hmono : yearStart (t.date.year + 1) <= yearStart 1 := yearStart_mono (by omega)
    omega
  · by_contra hmore
    have hmono : yearStart 10000 <= yearStart t.date.year := yearStart_mono (by omega)
    omega

theorem getUTC_eq (h : t.Representable) : t.getUTC = t.count := by
  have hdays := Date.getDays_eq t.date (t.inYears h).left
  have hsum : t.getUTC = int64 t.count := by
    unfold getUTC Timestamp.getUTC
    simp only [int64_add_left, int64_add_right]
    rw [hdays, nanosInHour_eq]
    unfold count sinceMidnight nanosInDay nanosInMinute nanosInSecond
    rw [dayNumber_epoch]
    exact congrArg int64 (by omega)
  rw [hsum]
  exact int64_of_range (Int.le_of_lt h.left) h.right

/-!
## Fields
-/

theorem tdiv_nanosInDay (h : 0 <= t.count ∨ t.sinceMidnight = 0) :
    t.count.tdiv nanosInDay = t.date.dayNumber - epoch.dayNumber ∧
      t.count.tmod nanosInDay = t.sinceMidnight := by
  have hrange := t.sinceMidnight_range
  have hcount : t.count = nanosInDay * (t.date.dayNumber - epoch.dayNumber) + t.sinceMidnight := by
    unfold count nanosInDay
    omega
  rcases h with hpos | hmidnight
  · rw [Int.tdiv_eq_ediv_of_nonneg hpos, Int.tmod_eq_emod_of_nonneg hpos]
    unfold nanosInDay at *
    omega
  · rw [hcount, hmidnight, Int.add_zero, Int.mul_tdiv_cancel_left _ (by decide),
      Int.mul_tmod_right]
    exact ⟨rfl, rfl⟩

theorem timeFields_sinceMidnight {nanos : Int} (h : nanos.tmod nanosInDay = t.sinceMidnight) :
    Timestamp.timeFields nanos = t.timeFields := by
  have hrange := t.sinceMidnight_range
  have hminute := t.minute_range
  have hsecond := t.second_range
  have hnano := t.nano_range
  unfold Timestamp.timeFields nanosInMinute nanosInSecond
  simp only [h]
  rw [nanosInHour_eq, tdiv_eq hrange.left, tmod_eq hrange.left, tmod_eq hrange.left,
    tmod_eq hrange.left, tdiv_eq (by omega), tdiv_eq (by omega), timeFields,
    TimeFields.mk.injEq]
  unfold sinceMidnight
  refine ⟨?_, ?_, ?_, ?_⟩
  · omega
  · omega
  · omega
  · omega

theorem timeFields_negative {nanos : Int} (hneg : nanos < 0)
    (hrest : nanos.tmod nanosInDay ≠ 0) : Timestamp.timeFields nanos ≠ t.timeFields := by
  have hhour := t.hour_range.left
  have hminute := t.minute_range.left
  have hsecond := t.second_range.left
  have hnano := t.nano_range.left
  have hflip : nanos.tmod nanosInDay = -((-nanos) % nanosInDay) := by
    rw [<- tmod_eq (by omega), Int.neg_tmod, Int.neg_neg]
  generalize hback : (-nanos) % nanosInDay = back at hflip
  have hpos : 0 <= back := by
    unfold nanosInDay at hback
    omega
  unfold Timestamp.timeFields timeFields nanosInMinute nanosInSecond
  simp only [hflip]
  rw [nanosInHour_eq, Int.neg_tdiv, Int.neg_tmod, Int.neg_tmod, Int.neg_tmod, Int.neg_tdiv,
    Int.neg_tdiv, tdiv_eq hpos, tmod_eq hpos, tmod_eq hpos, tmod_eq hpos, tdiv_eq (by omega),
    tdiv_eq (by omega), ne_eq, TimeFields.mk.injEq]
  rw [hflip] at hrest
  rintro ⟨hh, hm, hs, hn⟩
  omega

end Moment

/-!
## Printing
-/

theorem timeText_inj {f f' : TimeFields} (h : Timestamp.timeText f = Timestamp.timeText f') :
    f = f' := by
  have hcolon : ¬ (Char.isDigit ':' ∨ ':' = '-' ∨ ':' = ' ') := by
    decide
  have hdot : ¬ (Char.isDigit '.' ∨ '.' = '-' ∨ '.' = ' ') := by
    decide
  rcases (numeral_zeroPadded 2 f.h).append_inj (numeral_zeroPadded 2 f'.h) hcolon h with
    ⟨hh, hminute⟩
  rcases (numeral_zeroPadded 2 f.m).append_inj (numeral_zeroPadded 2 f'.m) hcolon hminute with
    ⟨hm, hsecond⟩
  rcases (numeral_zeroPadded 2 f.s).append_inj (numeral_zeroPadded 2 f'.s) hdot hsecond with
    ⟨hs, hnano⟩
  have hn := (hnano ▸ numeral_zeroPadded 9 f.n).unique (numeral_zeroPadded 9 f'.n)
  cases f
  cases f'
  exact TimeFields.mk.injEq .. ▸ ⟨hh, hm, hs, hn⟩

theorem text_inj {f f' : DateFields} {xs ys : List Char}
    (h : Timestamp.dateText f ++ 'D' :: xs = Timestamp.dateText f' ++ 'D' :: ys) :
    f = f' ∧ xs = ys := by
  have hdot : ¬ (Char.isDigit '.' ∨ '.' = '-' ∨ '.' = ' ') := by
    decide
  have hletter : ¬ (Char.isDigit 'D' ∨ 'D' = '-' ∨ 'D' = ' ') := by
    decide
  simp only [Timestamp.dateText, List.append_assoc, List.cons_append] at h
  rcases (numeral_zeroPadded 4 f.y).append_inj (numeral_zeroPadded 4 f'.y) hdot h with
    ⟨hy, hmonth⟩
  rcases (numeral_zeroPadded 2 f.mm).append_inj (numeral_zeroPadded 2 f'.mm) hdot hmonth with
    ⟨hmm, hday⟩
  rcases (numeral_zeroPadded 2 f.dd).append_inj (numeral_zeroPadded 2 f'.dd) hletter hday with
    ⟨hdd, hrest⟩
  cases f
  cases f'
  exact ⟨DateFields.mk.injEq .. ▸ ⟨hy, hmm, hdd⟩, hrest⟩

theorem printed_eq {nanos : Int} (hnull : nanos ≠ nullLong) (suffix : Bool) :
    Timestamp.printed nanos suffix =
      (Timestamp.dateText (dateFields (daysSince0AD + nanos.tdiv nanosInDay)) ++ 'D' ::
        Timestamp.timeText (Timestamp.timeFields nanos)).take 32 := by
  unfold Timestamp.printed Timestamp.formatTo Timestamp.toTimeNotation Timestamp.toDateNotation
  rw [if_neg hnull, <- CharBuf.formatTo_append, <- CharBuf.formatTo_append,
    CharBuf.ary_formatTo]
  rfl

theorem eq_of_take_eq {xs ys : List Char} {k : Nat} (h : xs.take k = ys) (hlt : ys.length < k) :
    xs = ys := by
  rw [<- h, List.length_take] at hlt
  rw [<- h, List.take_of_length_le (by omega)]

namespace Moment

theorem length_shown {t : Moment} (h : Date.InYears t.date) : t.shown.length = 29 := by
  rcases h with ⟨hpos, hle⟩
  have hmonth := t.date.month_pos
  have hmonths := t.date.month_le
  have hday := t.date.day_pos
  have hdays : t.date.day <= 31 :=
    Int.le_trans t.date.day_le (monthLength_le t.date.year t.date.month)
  have hhour := t.hour_range
  have hminute := t.minute_range
  have hsecond := t.second_range
  have hnano := t.nano_range
  unfold shown Timestamp.dateText Timestamp.timeText timeFields
  simp only [List.length_append, List.length_cons]
  rw [length_zeroPadded (by decide) (by omega) (by omega),
    length_zeroPadded (by decide) (by omega) (by omega),
    length_zeroPadded (by decide) (by omega) (by omega),
    length_zeroPadded (by decide) (by omega) (by omega),
    length_zeroPadded (by decide) (by omega) (by omega),
    length_zeroPadded (by decide) (by omega) (by omega),
    length_zeroPadded (by decide) (by omega) (by omega)]

/--
The timestamp that is made of the fields of a moment is printed with these fields exactly when
the moment is not before the year 2000, or at midnight.
-/
theorem printed_getUTC_iff (t : Moment) (h : t.Representable) (suffix : Bool) :
    Timestamp.printed t.getUTC suffix = t.shown <-> 0 <= t.count ∨ t.sinceMidnight = 0 := by
  have hyears := t.inYears h
  have hrange := t.sinceMidnight_range
  have hnull : t.count ≠ nullLong := by
    have hlow := h.left
    unfold nullLong
    omega
  rw [t.getUTC_eq h, printed_eq hnull]
  constructor
  · intro hprinted
    have hshort : t.shown.length < 32 := by
      rw [length_shown hyears]
      decide
    have htext := (text_inj (eq_of_take_eq hprinted hshort)).right
    by_contra hbefore
    rw [not_or, Int.not_le] at hbefore
    have hrest : t.count.tmod nanosInDay ≠ 0 := by
      intro hzero
      have hdvd := Int.dvd_of_tmod_eq_zero hzero
      have hmidnight := hbefore.right
      unfold count nanosInDay at hdvd
      omega
    exact t.timeFields_negative hbefore.left hrest (timeText_inj htext)
  · intro hwhole
    rcases t.tdiv_nanosInDay hwhole with ⟨hdays, hrest⟩
    have hnumber : daysSince0AD + (t.date.dayNumber - epoch.dayNumber) =
        t.date.dayNumber + 306 := by
      rw [dayNumber_epoch]
      unfold daysSince0AD
      omega
    rw [hdays, hnumber, dateFields_eq t.date hyears.left, t.timeFields_sinceMidnight hrest]
    show t.shown.take 32 = t.shown
    rw [List.take_of_length_le]
    rw [length_shown hyears]
    decide

/-- The midnight with which the year 1970 begins. -/
theorem printed_getUTC_iff_midnight :
    Timestamp.printed (onTheHour (CivilDate.first 1970 1 (by decide) (by decide)) 0
        (by decide)).getUTC true =
      (onTheHour (CivilDate.first 1970 1 (by decide) (by decide)) 0 (by decide)).shown <->
      0 <= (onTheHour (CivilDate.first 1970 1 (by decide) (by decide)) 0 (by decide)).count ∨
        (onTheHour (CivilDate.first 1970 1 (by decide) (by decide)) 0
          (by decide)).sinceMidnight = 0 :=
  printed_getUTC_iff (onTheHour (CivilDate.first 1970 1 (by decide) (by decide)) 0 (by decide))
    ⟨by decide, by decide⟩ true

/-- Noon of the first of December 1999. -/
theorem printed_getUTC_noon :
    Timestamp.printed (Timestamp.getUTC 1999 12 1 12 0 0 0) true =
        ['1', '9', '9', '9', '.', '1', '2', '.', '0', '2', 'D', '-', '1', '2', ':', '0', '0', ':',
          '0', '0', '.', '0', '0', '0', '0', '0', '0', '0', '0', '0'] ∧
      Timestamp.printed (Timestamp.getUTC 1999 12 1 12 0 0 0) true ≠
        (onTheHour (CivilDate.first 1999 12 (by decide) (by decide)) 12 (by decide)).shown := by
  have hprinted : Timestamp.printed (Timestamp.getUTC 1999 12 1 12 0 0 0) true =
      ['1', '9', '9', '9', '.', '1', '2', '.', '0', '2', 'D', '-', '1', '2', ':', '0', '0', ':',
        '0', '0', '.', '0', '0', '0', '0', '0', '0', '0', '0', '0'] := by
    decide +kernel
  refine ⟨hprinted, fun hsame => ?_⟩
  exact absurd (hprinted.symm.trans hsame) (by decide +kernel)

end Moment

end Temporal
end MgKdb
