import Cytadel.Proofs.InstantRoundTrip

/-!
# The calendar

`days_from_civil` and `civil_from_days` know no month lengths and no leap
years: they count in eras of 400 years that start in March, so that the leap
day is the last day of its year. The real calendar is stated here apart, with
its leap years and its month lengths, and the two conversions are shown to be
the two directions of one order isomorphism between its dates and all days.
-/

namespace Cytadel.Db

/-! ## Later days have later dates -/

theorem yearOfEra_mono {d e : ℤ} (h0 : 0 ≤ d) (h : d < e) (h1 : e ≤ 146096) :
    yearOfEra d ≤ yearOfEra e := by
  simp only [yearOfEra]
  omega

theorem dayOfYear_lt {d e : ℤ} (h : d < e) (hy : yearOfEra d = yearOfEra e) :
    dayOfYear d < dayOfYear e := by
  rw [dayOfYear, dayOfYear, hy]
  omega

/-- Dates in the order of their years and months, and of their days in one
month. -/
def Civil.Before (c e : Civil) : Prop :=
  12 * c.y + c.m < 12 * e.y + e.m ∨ 12 * c.y + c.m = 12 * e.y + e.m ∧ c.d < e.d

theorem civilFromDays_before {z w : ℤ} (h : z < w) :
    (civilFromDays z).Before (civilFromDays w) := by
  rw [Civil.Before, civilFromDays_eq, civilFromDays_eq]
  have hz : 0 ≤ (z + 719468) % 146097 ∧ (z + 719468) % 146097 ≤ 146096 := by omega
  have hw : 0 ≤ (w + 719468) % 146097 ∧ (w + 719468) % 146097 ≤ 146096 := by omega
  have hera : (z + 719468) / 146097 < (w + 719468) / 146097 ∨
      (z + 719468) / 146097 = (w + 719468) / 146097 ∧
        (z + 719468) % 146097 < (w + 719468) % 146097 := by omega
  generalize (z + 719468) / 146097 = era at *
  generalize (w + 719468) / 146097 = era' at *
  generalize (z + 719468) % 146097 = doe at *
  generalize (w + 719468) % 146097 = doe' at *
  have hyoe := yearOfEra_bounds hz.1 hz.2
  have hyoe' := yearOfEra_bounds hw.1 hw.2
  have hdoy := dayOfYear_bounds hz.1 hz.2
  have hdoy' := dayOfYear_bounds hw.1 hw.2
  -- the years that start in March are in order, and in one of them the days
  have hyears : yearOfEra doe + era * 400 < yearOfEra doe' + era' * 400 ∨
      yearOfEra doe + era * 400 = yearOfEra doe' + era' * 400 ∧
        dayOfYear doe < dayOfYear doe' := by
    rcases hera with hera | ⟨hera, hdoe⟩
    · omega
    · rcases Int.lt_or_eq_of_le (yearOfEra_mono hz.1 hdoe hw.2) with hy | hy
      · omega
      · have := dayOfYear_lt hdoe hy
        omega
  generalize yearOfEra doe + era * 400 = yy at *
  generalize yearOfEra doe' + era' * 400 = yy' at *
  generalize dayOfYear doe = doy at *
  generalize dayOfYear doe' = doy' at *
  have hmp : marchMonth doy = (5 * doy + 2) / 153 := rfl
  have hmp' : marchMonth doy' = (5 * doy' + 2) / 153 := rfl
  generalize marchMonth doy = mp at *
  generalize marchMonth doy' = mp' at *
  have hmonth : ∀ k : ℤ, k ≤ 11 → 0 ≤ k → ∀ y : ℤ,
      12 * (y + if k + (if k < 10 then 3 else -9) ≤ 2 then 1 else 0) +
        (k + if k < 10 then 3 else -9) = 12 * y + k + 3 := by
    intro k hk hk0 y
    split_ifs <;> omega
  dsimp only
  rw [hmonth mp (by omega) (by omega), hmonth mp' (by omega) (by omega)]
  omega

theorem civilFromDays_of_valid {c : Civil} (h : isValidYmd c = true) :
    civilFromDays (daysFromCivil c.y c.m c.d) = c ∧ 1 ≤ c.m ∧ c.m ≤ 12 ∧ 1 ≤ c.d ∧ c.d ≤ 31 := by
  rw [isValidYmd] at h
  split at h
  · cases h
  · next hrange =>
      simp only [Bool.or_eq_true, decide_eq_true_eq] at hrange
      exact ⟨eq_of_beq h, by omega, by omega, by omega, by omega⟩

/-! ## The Gregorian calendar -/

/-- A year with a 29th of February. -/
def isLeap (y : ℤ) : Prop := y % 4 = 0 ∧ (y % 100 ≠ 0 ∨ y % 400 = 0)

instance (y : ℤ) : Decidable (isLeap y) :=
  inferInstanceAs (Decidable (y % 4 = 0 ∧ (y % 100 ≠ 0 ∨ y % 400 = 0)))

def monthLength (y m : ℤ) : ℤ :=
  if m = 2 then if isLeap y then 29 else 28
  else if m = 4 ∨ m = 6 ∨ m = 9 ∨ m = 11 then 30
  else 31

/-- A date of the proleptic Gregorian calendar. -/
structure Civil.Gregorian (c : Civil) : Prop where
  month : 1 ≤ c.m ∧ c.m ≤ 12
  day : 1 ≤ c.d ∧ c.d ≤ monthLength c.y c.m

/-- Dates in the order of their years, months and days. -/
def Civil.Lex (c e : Civil) : Prop :=
  c.y < e.y ∨ c.y = e.y ∧ (c.m < e.m ∨ c.m = e.m ∧ c.d < e.d)

/-! ## From a year of the era and back -/

/-- A year of the era begins at its start, and ends after 364 days or, when
the leap day comes at its end, after 365. -/
theorem yearOfEra_start {yoe doy : ℤ} (h0 : 0 ≤ yoe) (h1 : yoe ≤ 399) (hd0 : 0 ≤ doy)
    (hd1 : doy ≤ 365) (hleap : doy = 365 → isLeap (yoe + 1)) :
    yearOfEra (365 * yoe + yoe / 4 - yoe / 100 + doy) = yoe := by
  rw [isLeap] at hleap
  by_cases hlast : yoe = 399 ∧ doy = 365
  · obtain ⟨rfl, rfl⟩ := hlast
    decide
  obtain ⟨c, q, j, hyoe, hc, hq, hj⟩ : ∃ c q j : ℤ, yoe = 100 * c + 4 * q + j ∧
      (0 ≤ c ∧ c ≤ 3) ∧ (0 ≤ q ∧ q ≤ 24) ∧ 0 ≤ j ∧ j ≤ 3 :=
    ⟨yoe / 100, yoe % 100 / 4, yoe % 4, by omega, by omega, by omega, by omega⟩
  have h365 : doy = 365 → j = 3 := by omega
  have hcentury : doy = 365 → q = 24 → c = 3 := by omega
  have hdoe : 365 * yoe + yoe / 4 - yoe / 100 + doy = 36524 * c + 1461 * q + 365 * j + doy := by
    omega
  have hera : (36524 * c + 1461 * q + 365 * j + doy) / 146096 = 0 := by omega
  have hcent : (36524 * c + 1461 * q + 365 * j + doy) / 36524 = c := by omega
  -- one leap day in four years, and one day short where a century has none
  have hfour : (36524 * c + 1461 * q + 365 * j + doy) / 1460 =
      25 * c + q + (24 * c + q + 365 * j + doy) / 1460 := by omega
  rw [hdoe, yearOfEra, hera, hcent, hfour]
  omega

theorem dayOfYear_start {yoe doy : ℤ} (h0 : 0 ≤ yoe) (h1 : yoe ≤ 399) (hd0 : 0 ≤ doy)
    (hd1 : doy ≤ 365) (hleap : doy = 365 → isLeap (yoe + 1)) :
    dayOfYear (365 * yoe + yoe / 4 - yoe / 100 + doy) = doy := by
  rw [dayOfYear, yearOfEra_start h0 h1 hd0 hd1 hleap]
  omega

/-- Only a year that ends in the February of a leap year has a 366th day:
otherwise this day is the first one of the next year. -/
theorem isLeap_of_dayOfYear {doe : ℤ} (h0 : 0 ≤ doe) (h1 : doe ≤ 146096)
    (h : dayOfYear doe = 365) : isLeap (yearOfEra doe + 1) := by
  have hyoe := yearOfEra_bounds h0 h1
  have hdef : dayOfYear doe =
      doe - (365 * yearOfEra doe + yearOfEra doe / 4 - yearOfEra doe / 100) := rfl
  by_contra hnot
  have hrange : ¬ ((yearOfEra doe + 1) % 4 = 0 ∧
      ((yearOfEra doe + 1) % 100 ≠ 0 ∨ (yearOfEra doe + 1) % 400 = 0)) := hnot
  have hnext := @yearOfEra_start (yearOfEra doe + 1) 0
  have hdoe : 365 * (yearOfEra doe + 1) + (yearOfEra doe + 1) / 4 - (yearOfEra doe + 1) / 100 + 0 =
      doe := by
    by_cases hcentury : (yearOfEra doe + 1) % 100 = 0
    · omega
    · have hfour : (yearOfEra doe + 1) / 4 = yearOfEra doe / 4 := by omega
      have hhundred : (yearOfEra doe + 1) / 100 = yearOfEra doe / 100 := by omega
      omega
  rw [hdoe] at hnext
  have := hnext (by omega) (by omega) (by omega) (by omega) (by omega)
  omega

/-! ## From a month of the year and back -/

theorem marchMonth_cases {mp : ℤ} (h0 : 0 ≤ mp) (h1 : mp ≤ 11) :
    mp = 0 ∨ mp = 1 ∨ mp = 2 ∨ mp = 3 ∨ mp = 4 ∨ mp = 5 ∨ mp = 6 ∨ mp = 7 ∨ mp = 8 ∨ mp = 9 ∨
      mp = 10 ∨ mp = 11 := by
  omega

/-- The days of the month with this number, counted from March as 0. -/
def marchLength (mp : ℤ) (leap : Prop) [Decidable leap] : ℤ :=
  if mp = 1 ∨ mp = 3 ∨ mp = 6 ∨ mp = 8 then 30
  else if mp = 11 then if leap then 29 else 28
  else 31

theorem marchLength_bounds (mp : ℤ) (leap : Prop) [Decidable leap] :
    28 ≤ marchLength mp leap ∧ marchLength mp leap ≤ 31 := by
  rw [marchLength]
  split_ifs <;> omega

/-- The linear formula has its steps where the months begin. -/
theorem marchMonth_of_day {mp d : ℤ} (h0 : 0 ≤ mp) (h1 : mp ≤ 11) (hd : 1 ≤ d)
    (hlen : d ≤ marchLength mp True) : marchMonth ((153 * mp + 2) / 5 + d - 1) = mp := by
  rw [marchMonth]
  rcases marchMonth_cases h0 h1 with rfl | rfl | rfl | rfl | rfl | rfl | rfl | rfl | rfl | rfl |
    rfl | rfl <;> simp [marchLength] at hlen <;> omega

theorem day_of_marchMonth {doy : ℤ} (h0 : 0 ≤ doy) (h1 : doy ≤ 365) :
    1 ≤ doy - (153 * marchMonth doy + 2) / 5 + 1 ∧
      doy - (153 * marchMonth doy + 2) / 5 + 1 ≤ marchLength (marchMonth doy) (doy = 365) := by
  have hmp : marchMonth doy = (5 * doy + 2) / 153 := rfl
  generalize marchMonth doy = mp at *
  rcases marchMonth_cases (show 0 ≤ mp by omega) (show mp ≤ 11 by omega) with
    rfl | rfl | rfl | rfl | rfl | rfl | rfl | rfl | rfl | rfl | rfl | rfl <;>
    simp [marchLength] <;> (try split) <;> omega

/-- The months of the year that starts in March are those of the calendar. -/
theorem monthLength_late {y mp : ℤ} (h0 : 0 ≤ mp) (h1 : mp < 10) :
    monthLength y (mp + 3) = marchLength mp (isLeap y) := by
  rw [monthLength, marchLength, if_neg (show ¬ mp + 3 = 2 by omega),
    if_neg (show ¬ mp = 11 by omega)]
  by_cases hshort : mp = 1 ∨ mp = 3 ∨ mp = 6 ∨ mp = 8
  · rw [if_pos hshort, if_pos (by omega)]
  · rw [if_neg hshort, if_neg (by omega)]

theorem monthLength_early {y mp : ℤ} (h0 : 10 ≤ mp) (h1 : mp ≤ 11) :
    monthLength y (mp + -9) = marchLength mp (isLeap y) := by
  rw [monthLength, marchLength, if_neg (show ¬ (mp = 1 ∨ mp = 3 ∨ mp = 6 ∨ mp = 8) by omega),
    if_neg (show ¬ (mp + -9 = 4 ∨ mp + -9 = 6 ∨ mp + -9 = 9 ∨ mp + -9 = 11) by omega)]
  by_cases hfeb : mp = 11
  · rw [if_pos hfeb, if_pos (by omega)]
  · rw [if_neg hfeb, if_neg (by omega)]

/-- Eras do not change which years are leap years. -/
theorem isLeap_era (y era : ℤ) : isLeap (y + era * 400) ↔ isLeap y := by
  rw [isLeap, isLeap]
  omega

/-! ## The two conversions -/

/-- What a day is converted to is a date. -/
theorem civilFromDays_gregorian (z : ℤ) : (civilFromDays z).Gregorian := by
  have hdoe : 0 ≤ (z + 719468) % 146097 ∧ (z + 719468) % 146097 ≤ 146096 := by omega
  have hdoy := dayOfYear_bounds hdoe.1 hdoe.2
  have hleap := isLeap_of_dayOfYear hdoe.1 hdoe.2
  have hbounds := civilFromDays_bounds z
  refine ⟨⟨hbounds.1, hbounds.2.1⟩, hbounds.2.2.1, ?_⟩
  rw [civilFromDays_eq]
  generalize (z + 719468) / 146097 = era at *
  generalize (z + 719468) % 146097 = doe at *
  generalize yearOfEra doe = yoe at *
  generalize dayOfYear doe = doy at *
  have hday := (day_of_marchMonth hdoy.1 hdoy.2).2
  have hmp : 0 ≤ marchMonth doy ∧ marchMonth doy ≤ 11 := by
    simp only [marchMonth]
    omega
  generalize marchMonth doy = mp at *
  by_cases hlate : mp < 10
  · simp only [if_pos hlate, if_neg (show ¬ mp + 3 ≤ 2 by omega)]
    rw [monthLength_late hmp.1 hlate]
    simp only [marchLength, if_neg (show ¬ mp = 11 by omega)] at hday ⊢
    exact hday
  · simp only [if_neg hlate, if_pos (show mp + -9 ≤ 2 by omega)]
    rw [monthLength_early (by omega) hmp.2, show yoe + era * 400 + 1 = yoe + 1 + era * 400 by omega]
    refine Int.le_trans hday ?_
    simp only [marchLength, isLeap_era]
    by_cases hlast : doy = 365
    · refine Int.le_of_eq ?_
      rw [if_pos hlast, if_pos (hleap hlast)]
    · rw [if_neg hlast]
      split_ifs <;> omega

/-- The day of a date whose year and month are counted from March. -/
theorem daysFromCivil_march {yy mp d : ℤ} (h0 : 0 ≤ mp) (h1 : mp ≤ 11) :
    daysFromCivil (yy + if mp < 10 then 0 else 1) (mp + if mp < 10 then 3 else -9) d =
      yy / 400 * 146097 + (365 * (yy % 400) + yy % 400 / 4 - yy % 400 / 100 +
        ((153 * mp + 2) / 5 + d - 1)) - 719468 := by
  have hyoe : yy - yy / 400 * 400 = yy % 400 := by omega
  have hpos : 0 ≤ yy % 400 := by omega
  simp only [daysFromCivil, yearEra]
  by_cases hlate : mp < 10
  · rw [if_pos hlate, if_pos hlate, if_neg (show ¬ mp + 3 ≤ 2 by omega),
      if_pos (show mp + 3 > 2 by omega)]
    simp only [Int.add_zero, Int.sub_zero, hyoe]
    rw [Int.tdiv_eq_ediv_of_nonneg (show 0 ≤ 153 * (mp + 3 + -3) + 2 by omega),
      Int.tdiv_eq_ediv_of_nonneg hpos, Int.tdiv_eq_ediv_of_nonneg hpos]
    omega
  · rw [if_neg hlate, if_neg hlate, if_pos (show mp + -9 ≤ 2 by omega),
      if_neg (show ¬ mp + -9 > 2 by omega)]
    simp only [Int.add_sub_cancel, hyoe]
    rw [Int.tdiv_eq_ediv_of_nonneg (show 0 ≤ 153 * (mp + -9 + 9) + 2 by omega),
      Int.tdiv_eq_ediv_of_nonneg hpos, Int.tdiv_eq_ediv_of_nonneg hpos]
    omega

theorem civilFromDays_march {yy mp d : ℤ} (h0 : 0 ≤ mp) (h1 : mp ≤ 11) (hd : 1 ≤ d)
    (hlen : d ≤ marchLength mp (isLeap (yy + 1))) :
    civilFromDays (yy / 400 * 146097 + (365 * (yy % 400) + yy % 400 / 4 - yy % 400 / 100 +
        ((153 * mp + 2) / 5 + d - 1)) - 719468) =
      ⟨yy + if mp < 10 then 0 else 1, mp + if mp < 10 then 3 else -9, d⟩ := by
  have hyoe : 0 ≤ yy % 400 ∧ yy % 400 ≤ 399 := by omega
  have hmax := (marchLength_bounds mp (isLeap (yy + 1))).2
  have hfeb : mp = 11 → d ≤ 29 ∧ (d = 29 → isLeap (yy + 1)) := by
    rintro rfl
    rw [marchLength, if_neg (by decide), if_pos rfl] at hlen
    split at hlen
    · next hleap => exact ⟨hlen, fun _ => hleap⟩
    · exact ⟨by omega, by omega⟩
  have hmonth : marchMonth ((153 * mp + 2) / 5 + d - 1) = mp := by
    refine marchMonth_of_day h0 h1 hd ?_
    refine Int.le_trans hlen ?_
    rw [marchLength, marchLength]
    split_ifs <;> omega
  obtain ⟨doy, hdoy⟩ : ∃ doy, doy = (153 * mp + 2) / 5 + d - 1 := ⟨_, rfl⟩
  rw [← hdoy] at hmonth ⊢
  have hdoy0 : 0 ≤ doy := by omega
  have hdoy1 : doy ≤ 365 := by omega
  -- the 366th day is a 29th of February
  have hleap : doy = 365 → isLeap (yy % 400 + 1) := by
    intro hlast
    have hyear := (hfeb (by omega)).2 (by omega)
    rw [← isLeap_era (yy % 400 + 1) (yy / 400)]
    rwa [show yy % 400 + 1 + yy / 400 * 400 = yy + 1 by omega]
  have hyear := yearOfEra_start hyoe.1 hyoe.2 hdoy0 hdoy1 hleap
  have hday := dayOfYear_start hyoe.1 hyoe.2 hdoy0 hdoy1 hleap
  have hdoe : 0 ≤ 365 * (yy % 400) + yy % 400 / 4 - yy % 400 / 100 + doy ∧
      365 * (yy % 400) + yy % 400 / 4 - yy % 400 / 100 + doy ≤ 146096 := by
    constructor
    · omega
    · by_cases hyoe' : yy % 400 = 399
      · rw [hyoe']
        omega
      · omega
  generalize 365 * (yy % 400) + yy % 400 / 4 - yy % 400 / 100 + doy = doe at *
  have hquot : (yy / 400 * 146097 + doe - 719468 + 719468) / 146097 = yy / 400 := by omega
  have hrest : (yy / 400 * 146097 + doe - 719468 + 719468) % 146097 = doe := by omega
  rw [civilFromDays_eq, hquot, hrest, hyear, hday, hmonth]
  by_cases hlate : mp < 10
  · simp only [if_pos hlate, if_neg (show ¬ mp + 3 ≤ 2 by omega), Civil.mk.injEq]
    exact ⟨by omega, trivial, by omega⟩
  · simp only [if_neg hlate, if_pos (show mp + -9 ≤ 2 by omega), Civil.mk.injEq]
    exact ⟨by omega, trivial, by omega⟩

/-- A date is what its day is converted to. -/
theorem civilFromDays_daysFromCivil {c : Civil} (h : c.Gregorian) :
    civilFromDays (daysFromCivil c.y c.m c.d) = c := by
  obtain ⟨⟨hm0, hm1⟩, hd0, hd1⟩ := h
  obtain ⟨y, m, d⟩ := c
  dsimp only at *
  -- January and February belong to the year that started in the March before
  obtain ⟨yy, mp, hmp0, hmp1, hy, hm, hlen⟩ : ∃ yy mp : ℤ, 0 ≤ mp ∧ mp ≤ 11 ∧
      y = (yy + if mp < 10 then 0 else 1) ∧ m = (mp + if mp < 10 then 3 else -9) ∧
        monthLength y m = marchLength mp (isLeap (yy + 1)) := by
    by_cases hearly : m ≤ 2
    · refine ⟨y - 1, m + 9, by omega, by omega, ?_, ?_, ?_⟩
      · rw [if_neg (by omega)]
        omega
      · rw [if_neg (by omega)]
        omega
      · rw [← monthLength_early (by omega) (by omega), show y - 1 + 1 = y by omega,
          show m + 9 + -9 = m by omega]
    · refine ⟨y, m - 3, by omega, by omega, ?_, ?_, ?_⟩
      · rw [if_pos (by omega)]
        omega
      · rw [if_pos (by omega)]
        omega
      · rw [show m = m - 3 + 3 by omega, monthLength_late (by omega) (by omega),
          show m - 3 + 3 - 3 = m - 3 by omega, marchLength, marchLength,
          if_neg (show ¬ m - 3 = 11 by omega), if_neg (show ¬ m - 3 = 11 by omega)]
  rw [hlen] at hd1
  rw [hy, hm, daysFromCivil_march hmp0 hmp1, civilFromDays_march hmp0 hmp1 hd0 hd1]

/-- The validator accepts the dates of the calendar. -/
theorem isValidYmd_iff (c : Civil) : isValidYmd c = true ↔ c.Gregorian := by
  constructor
  · intro h
    have hgreg := civilFromDays_gregorian (daysFromCivil c.y c.m c.d)
    rwa [(civilFromDays_of_valid h).1] at hgreg
  · intro h
    have hround := isValidYmd_civilFromDays (daysFromCivil c.y c.m c.d)
    rwa [civilFromDays_daysFromCivil h] at hround

/-! ## The order -/

theorem Civil.Before.lex {c e : Civil} (hc : c.Gregorian) (he : e.Gregorian) (h : c.Before e) :
    c.Lex e := by
  have hcm := hc.month
  have hem := he.month
  rw [Civil.Before] at h
  rw [Civil.Lex]
  omega

/-- Of two dates the one of the earlier day is the earlier one. -/
theorem daysFromCivil_lt_iff {c e : Civil} (hc : c.Gregorian) (he : e.Gregorian) :
    daysFromCivil c.y c.m c.d < daysFromCivil e.y e.m e.d ↔ c.Lex e := by
  constructor
  · intro hlt
    have hbefore := civilFromDays_before hlt
    rw [civilFromDays_daysFromCivil hc, civilFromDays_daysFromCivil he] at hbefore
    exact hbefore.lex hc he
  · intro hlex
    rw [Civil.Lex] at hlex
    rcases Int.lt_trichotomy (daysFromCivil c.y c.m c.d) (daysFromCivil e.y e.m e.d) with
      hlt | heq | hgt
    · exact hlt
    · have hsame : c = e := by
        rw [← civilFromDays_daysFromCivil hc, heq, civilFromDays_daysFromCivil he]
      subst hsame
      omega
    · have hbefore := civilFromDays_before hgt
      rw [civilFromDays_daysFromCivil hc, civilFromDays_daysFromCivil he] at hbefore
      have hback := hbefore.lex he hc
      rw [Civil.Lex] at hback
      omega

/-- The two conversions are inverse to each other between all days and the
dates of the Gregorian calendar, which are the ones the validator accepts, and
they keep the order. -/
theorem calendar_bijection :
    (∀ z, (civilFromDays z).Gregorian ∧
      daysFromCivil (civilFromDays z).y (civilFromDays z).m (civilFromDays z).d = z) ∧
    (∀ y m d, isValidYmd ⟨y, m, d⟩ = true ↔ Civil.Gregorian ⟨y, m, d⟩) ∧
    (∀ y m d, Civil.Gregorian ⟨y, m, d⟩ → civilFromDays (daysFromCivil y m d) = ⟨y, m, d⟩) ∧
    (∀ c e : Civil, c.Gregorian → e.Gregorian →
      (daysFromCivil c.y c.m c.d < daysFromCivil e.y e.m e.d ↔ c.Lex e)) := by
  refine ⟨fun z => ⟨civilFromDays_gregorian z, daysFromCivil_civilFromDays z⟩,
    fun y m d => isValidYmd_iff ⟨y, m, d⟩, fun y m d h => ?_, fun c e hc he => ?_⟩
  · exact @civilFromDays_daysFromCivil ⟨y, m, d⟩ h
  · exact daysFromCivil_lt_iff hc he

end Cytadel.Db
