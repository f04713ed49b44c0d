import Cytadel.Db.Instant

/-!
# What is written of an instant is read back

The catch-up hands its cursor from one run to the next through a text column.
No time is lost on the way: an instant that can be formatted is what its text
is parsed as. The calendar half is that the days of a civil date computed from
days are these days, which needs the bounds of every intermediate value.
-/

namespace Cytadel.Db

open Cytadel

/-! ## The calendar -/

/-- The era of a year: the cut towards zero is corrected to a floor. -/
theorem yearEra (y : ℤ) : (if y ≥ 0 then y else y - 399).tdiv 400 = y / 400 := by
  split
  · next h => exact Int.tdiv_eq_ediv_of_nonneg h
  · next h =>
      rw [show y - 399 = -(399 - y) by omega, Int.neg_tdiv,
        Int.tdiv_eq_ediv_of_nonneg (by omega)]
      omega

/-- The era of a day. -/
theorem dayEra (z : ℤ) : (if z ≥ 0 then z else z - 146096).tdiv 146097 = z / 146097 := by
  split
  · next h => exact Int.tdiv_eq_ediv_of_nonneg h
  · next h =>
      rw [show z - 146096 = -(146096 - z) by omega, Int.neg_tdiv,
        Int.tdiv_eq_ediv_of_nonneg (by omega)]
      omega

/-- The year of the era that a day of the era falls into. -/
def yearOfEra (doe : ℤ) : ℤ := (doe - doe / 1460 + doe / 36524 - doe / 146096) / 365

/-- The day of that year, counted from the first of March. -/
def dayOfYear (doe : ℤ) : ℤ :=
  doe - (365 * yearOfEra doe + yearOfEra doe / 4 - yearOfEra doe / 100)

theorem yearOfEra_bounds {doe : ℤ} (h0 : 0 ≤ doe) (h1 : doe ≤ 146096) :
    0 ≤ yearOfEra doe ∧ yearOfEra doe ≤ 399 := by
  simp only [yearOfEra]
  omega

/-- The century of the day is the century of its year, but for the last day of
the era. -/
theorem yearOfEra_century {doe : ℤ} (h0 : 0 ≤ doe) (h1 : doe < 146096) :
    yearOfEra doe / 100 = doe / 36524 := by
  simp only [yearOfEra]
  have hd : doe / 36524 = 0 ∨ doe / 36524 = 1 ∨ doe / 36524 = 2 ∨ doe / 36524 = 3 := by omega
  rcases hd with hd | hd | hd | hd <;> omega

theorem dayOfYear_bounds {doe : ℤ} (h0 : 0 ≤ doe) (h1 : doe ≤ 146096) :
    0 ≤ dayOfYear doe ∧ dayOfYear doe ≤ 365 := by
  by_cases hlast : doe = 146096
  · subst hlast
    decide
  · have hcentury := yearOfEra_century h0 (by omega)
    have hera : doe / 146096 = 0 := by omega
    rw [dayOfYear, hcentury]
    have hy : yearOfEra doe = (doe - doe / 1460 + doe / 36524 - 0) / 365 := by
      rw [yearOfEra, hera]
    generalize yearOfEra doe = yoe at *
    -- within a century the leap days passed so far follow the fours of years
    have hfours : doe / 1460 < yoe / 4 ∨ doe / 1460 = yoe / 4 ∨ doe / 1460 = yoe / 4 + 1 ∨
        doe / 1460 > yoe / 4 + 1 := by omega
    have hd : doe / 36524 = 0 ∨ doe / 36524 = 1 ∨ doe / 36524 = 2 ∨ doe / 36524 = 3 := by omega
    rcases hd with hd | hd | hd | hd <;> rcases hfours with hf | hf | hf | hf <;> omega

/-- The month of a year that starts in March. -/
def marchMonth (doy : ℤ) : ℤ := (5 * doy + 2) / 153

/-- The conversion without cuts: every quotient is one of numbers that are not
negative. -/
theorem civilFromDays_eq (z : ℤ) :
    let era := (z + 719468) / 146097
    let doe := (z + 719468) % 146097
    let mp := marchMonth (dayOfYear doe)
    let mm := mp + if mp < 10 then 3 else -9
    civilFromDays z = ⟨yearOfEra doe + era * 400 + if mm ≤ 2 then 1 else 0, mm,
      dayOfYear doe - (153 * mp + 2) / 5 + 1⟩ := by
  intro era doe mp mm
  have hdoe : 0 ≤ doe ∧ doe ≤ 146096 := by omega
  have hrest : z + 719468 - (z + 719468) / 146097 * 146097 = doe := by omega
  have hyoe := yearOfEra_bounds hdoe.1 hdoe.2
  have hdoy := dayOfYear_bounds hdoe.1 hdoe.2
  have hyear : (doe - doe.tdiv 1460 + doe.tdiv 36524 - doe.tdiv 146096).tdiv 365 =
      yearOfEra doe := by
    rw [Int.tdiv_eq_ediv_of_nonneg hdoe.1, Int.tdiv_eq_ediv_of_nonneg hdoe.1,
      Int.tdiv_eq_ediv_of_nonneg hdoe.1, Int.tdiv_eq_ediv_of_nonneg (by omega), yearOfEra]
  have hday : doe - (365 * yearOfEra doe + (yearOfEra doe).tdiv 4 - (yearOfEra doe).tdiv 100) =
      dayOfYear doe := by
    rw [Int.tdiv_eq_ediv_of_nonneg hyoe.1, Int.tdiv_eq_ediv_of_nonneg hyoe.1, dayOfYear]
  have hmp : (5 * dayOfYear doe + 2).tdiv 153 = mp := by
    rw [Int.tdiv_eq_ediv_of_nonneg (by omega)]
    rfl
  have hmp0 : 0 ≤ mp := by
    simp only [mp, marchMonth]
    omega
  simp only [civilFromDays, dayEra, hrest, hyear, hday, hmp]
  rw [Int.tdiv_eq_ediv_of_nonneg (show 0 ≤ 153 * mp + 2 by omega)]

theorem civilFromDays_bounds (z : ℤ) :
    1 ≤ (civilFromDays z).m ∧ (civilFromDays z).m ≤ 12 ∧
      1 ≤ (civilFromDays z).d ∧ (civilFromDays z).d ≤ 31 := by
  rw [civilFromDays_eq]
  have hdoy : 0 ≤ dayOfYear ((z + 719468) % 146097) ∧ dayOfYear ((z + 719468) % 146097) ≤ 365 :=
    dayOfYear_bounds (by omega) (by omega)
  generalize dayOfYear ((z + 719468) % 146097) = doy at *
  have hmp : marchMonth doy = (5 * doy + 2) / 153 := rfl
  generalize marchMonth doy = mp at *
  by_cases hlate : mp < 10
  · simp only [if_pos hlate]
    omega
  · simp only [if_neg hlate]
    omega

theorem daysFromCivil_civilFromDays (z : ℤ) :
    daysFromCivil (civilFromDays z).y (civilFromDays z).m (civilFromDays z).d = z := by
  rw [civilFromDays_eq]
  have hdoe : 0 ≤ (z + 719468) % 146097 ∧ (z + 719468) % 146097 ≤ 146096 := by omega
  have hyoe := yearOfEra_bounds hdoe.1 hdoe.2
  have hdoy := dayOfYear_bounds hdoe.1 hdoe.2
  have hdef : dayOfYear ((z + 719468) % 146097) = (z + 719468) % 146097 -
      (365 * yearOfEra ((z + 719468) % 146097) + yearOfEra ((z + 719468) % 146097) / 4 -
        yearOfEra ((z + 719468) % 146097) / 100) := rfl
  generalize dayOfYear ((z + 719468) % 146097) = doy at *
  generalize yearOfEra ((z + 719468) % 146097) = yoe at *
  have hmp : 0 ≤ marchMonth doy ∧ marchMonth doy ≤ 11 := by
    simp only [marchMonth]
    omega
  generalize marchMonth doy = mp at *
  have hyears : ∀ era : ℤ, (yoe + era * 400) / 400 = era := by omega
  simp only [daysFromCivil, yearEra]
  -- January and February are the last months of a year that starts in March
  by_cases hlate : mp < 10
  · rw [if_pos hlate, if_neg (show ¬ mp + 3 ≤ 2 by omega), if_pos (show mp + 3 > 2 by omega)]
    simp only [Int.add_zero, Int.sub_zero, hyears]
    rw [Int.tdiv_eq_ediv_of_nonneg (show 0 ≤ 153 * (mp + 3 + -3) + 2 by omega),
      show ∀ era : ℤ, yoe + era * 400 - era * 400 = yoe by omega,
      Int.tdiv_eq_ediv_of_nonneg hyoe.1, Int.tdiv_eq_ediv_of_nonneg hyoe.1]
    omega
  · rw [if_neg hlate, if_pos (show mp + -9 ≤ 2 by omega), if_neg (show ¬ mp + -9 > 2 by omega)]
    simp only [Int.add_sub_cancel, hyears]
    rw [Int.tdiv_eq_ediv_of_nonneg (show 0 ≤ 153 * (mp + -9 + 9) + 2 by omega),
      Int.tdiv_eq_ediv_of_nonneg hyoe.1, Int.tdiv_eq_ediv_of_nonneg hyoe.1]
    omega

/-- The date of a day is a date. -/
theorem isValidYmd_civilFromDays (z : ℤ) : isValidYmd (civilFromDays z) = true := by
  have hb := civilFromDays_bounds z
  rw [isValidYmd, daysFromCivil_civilFromDays, if_neg (by simp; omega)]
  exact beq_self_eq_true _

/-! ## The digits -/

/-- The last digit is read off what the ones before it left. -/
theorem readDigits_succ (k : ℕ) (s : Bytes) (v : ℕ) :
    readDigits (k + 1) s v = (readDigits k s v).bind fun p => readDigits 1 p.2 p.1 := by
  induction k generalizing s v with
  | zero => rfl
  | succ k ih =>
      cases s with
      | nil => rfl
      | cons c s =>
          rw [readDigits, readDigits]
          split
          · exact ih s _
          · rfl

theorem isDigitByte_digit {d : ℕ} (h : d < 10) :
    isDigitByte (UInt8.ofNat (0x30 + d)) = true ∧ (UInt8.ofNat (0x30 + d)).toNat = 0x30 + d := by
  revert d
  decide

/-- A number written with so many digits is read back, modulo their range. -/
theorem readDigits_padDigits (k n v : ℕ) (rest : Bytes) :
    readDigits k (padDigits k n ++ rest) v = some (v * 10 ^ k + n % 10 ^ k, rest) := by
  induction k generalizing n rest with
  | zero => simp [padDigits, readDigits, Nat.mod_one]
  | succ k ih =>
      have hd := isDigitByte_digit (Nat.mod_lt n (show 10 > 0 by decide))
      rw [readDigits_succ, padDigits, List.append_assoc, ih]
      simp only [Option.bind_some, List.singleton_append, readDigits, hd.1, hd.2, if_true]
      have hmod : n % 10 ^ (k + 1) = 10 * (n / 10 % 10 ^ k) + n % 10 := by
        rw [Nat.pow_succ', Nat.mod_mul]
        omega
      rw [hmod, Nat.pow_succ]
      congr 2
      generalize n / 10 % 10 ^ k = m
      have hv : v * (10 ^ k * 10) = v * 10 ^ k * 10 := by rw [Nat.mul_assoc]
      omega

theorem readDigits_padDigits_of_lt {k n : ℕ} (h : n < 10 ^ k) (rest : Bytes) :
    readDigits k (padDigits k n ++ rest) 0 = some (n, rest) := by
  rw [readDigits_padDigits, Nat.zero_mul, Nat.zero_add, Nat.mod_eq_of_lt h]

theorem padDigits_length (k n : ℕ) : (padDigits k n).length = k := by
  induction k generalizing n with
  | zero => rfl
  | succ k ih => simp [padDigits, ih]

theorem padDigits_digits (k n : ℕ) : ∀ c ∈ padDigits k n, isDigitByte c = true := by
  induction k generalizing n with
  | zero => simp [padDigits]
  | succ k ih =>
      intro c hc
      rw [padDigits, List.mem_append, List.mem_singleton] at hc
      obtain hc | rfl := hc
      · exact ih _ c hc
      · exact (isDigitByte_digit (Nat.mod_lt n (by decide))).1

/-- A fraction of at most nine digits is read as these digits. -/
theorem readFraction_of_readDigits {k : ℕ} {s rest : Bytes} {digits v n : ℕ} {c : UInt8}
    (h : readDigits k s v = some (n, c :: rest)) (hc : isDigitByte c = false)
    (hk : digits + k ≤ 9) : readFraction s digits v = (digits + k, n, c :: rest) := by
  induction k generalizing s digits v with
  | zero =>
      simp only [readDigits, Option.some.injEq, Prod.mk.injEq] at h
      obtain ⟨rfl, rfl⟩ := h
      simp [readFraction, hc]
  | succ k ih =>
      cases s with
      | nil => simp [readDigits] at h
      | cons x s =>
          rw [readDigits] at h
          split at h
          · next hx =>
              rw [readFraction, if_pos hx, if_pos (by omega), ih h (by omega)]
              congr 1
              omega
          · cases h

/-! ## The instant -/

theorem readDate_format {y m d : ℕ} (hy : y < 10 ^ 4) (hm : m < 10 ^ 2) (hd : d < 10 ^ 2)
    (hv : isValidYmd ⟨y, m, d⟩ = true) (rest : Bytes) :
    readDate (padDigits 4 y ++ 0x2D :: (padDigits 2 m ++ 0x2D :: (padDigits 2 d ++ rest))) =
      some (daysFromCivil y m d, rest) := by
  simp [readDate, readByte, readDigits_padDigits_of_lt hy, readDigits_padDigits_of_lt hm,
    readDigits_padDigits_of_lt hd, hv]

theorem readMillis_format {n : ℕ} (hn : n < 10 ^ 3) :
    readMillis (0x2E :: (padDigits 3 n ++ [0x5A])) = some (n, [0x5A]) := by
  have hread : readFraction (padDigits 3 n ++ [0x5A]) 0 0 = (0 + 3, n, [0x5A]) :=
    readFraction_of_readDigits (readDigits_padDigits_of_lt hn [0x5A]) (by decide) (by decide)
  simp [readMillis, hread]

theorem readTime_format {hh mm ss ms : ℕ} (hhh : hh < 24) (hmm : mm < 60) (hss : ss < 60)
    (hms : ms < 10 ^ 3) :
    readTime (padDigits 2 hh ++ 0x3A :: (padDigits 2 mm ++ 0x3A :: (padDigits 2 ss ++
      0x2E :: (padDigits 3 ms ++ [0x5A])))) =
        some ((((hh * 60 + mm) * 60 + ss) * 1000 + ms : ℕ) : ℤ) := by
  have h1 : ¬ 23 < hh := by omega
  have h2 : ¬ 59 < mm := by omega
  have h3 : ¬ 59 < ss := by omega
  simp [readTime, readByte, readDigits_padDigits_of_lt (show hh < 10 ^ 2 by omega),
    readDigits_padDigits_of_lt (show mm < 10 ^ 2 by omega),
    readDigits_padDigits_of_lt (show ss < 10 ^ 2 by omega), readMillis_format hms, h1, h2, h3]

/-- The fields of a text that `format_instant` wrote. -/
theorem formatInstant_some {i : Instant} {b : Bytes} (h : formatInstant i = some b) :
    0 ≤ (civilFromDays i.days).y ∧ (civilFromDays i.days).y ≤ 9999 ∧
      0 ≤ i.msOfDay ∧ i.msOfDay < 86400000 ∧
      b = padDigits 4 (civilFromDays i.days).y.toNat ++
        0x2D :: (padDigits 2 (civilFromDays i.days).m.toNat ++
        0x2D :: (padDigits 2 (civilFromDays i.days).d.toNat ++
        0x54 :: (padDigits 2 (i.msOfDay.toNat / 3600000) ++
        0x3A :: (padDigits 2 (i.msOfDay.toNat / 60000 % 60) ++
        0x3A :: (padDigits 2 (i.msOfDay.toNat / 1000 % 60) ++
        0x2E :: (padDigits 3 (i.msOfDay.toNat % 1000) ++ [0x5A])))))) := by
  rw [formatInstant] at h
  split at h
  · cases h
  · next hy =>
      split at h
      · cases h
      · next hms =>
          simp only [Bool.or_eq_true, decide_eq_true_eq, not_or] at hy hms
          refine ⟨by omega, by omega, by omega, by omega, ?_⟩
          simp only [Option.some.injEq] at h
          rw [← h]
          simp [ascii]

theorem formatInstant_length {i : Instant} {b : Bytes} (h : formatInstant i = some b) :
    b.length = 24 := by
  rw [(formatInstant_some h).2.2.2.2]
  simp [padDigits_length]

/-- A written instant fits its buffer and has no NUL in it. -/
theorem clipInto_formatInstant {i : Instant} {b : Bytes} (h : formatInstant i = some b) :
    clipInto 41 b = b := by
  have hlen := formatInstant_length h
  have hdigit : ∀ {k n : ℕ} {c : UInt8}, c ∈ padDigits k n → c ≠ 0 := by
    rintro k n c hc rfl
    exact absurd (padDigits_digits k n 0 hc) (by decide)
  have hnul : ∀ c ∈ b, c ≠ 0 := by
    rw [(formatInstant_some h).2.2.2.2]
    simp only [List.mem_append, List.mem_cons, List.not_mem_nil, or_false]
    rintro c (hc | rfl | hc | rfl | hc | rfl | hc | rfl | hc | rfl | hc | rfl | hc | rfl)
    all_goals first | exact hdigit hc | decide
  have hcstr : cstr b = b := by
    rw [cstr, ← List.append_nil b, List.takeWhile_append_of_pos (by simpa using hnul)]
    rfl
  rw [clipInto, hcstr, List.take_of_length_le (by omega)]

/-- A written instant is read back. -/
theorem parseInstant_formatInstant {i : Instant} {b : Bytes} (h : formatInstant i = some b) :
    parseInstant b = some i := by
  have hlen := formatInstant_length h
  obtain ⟨hy0, hy1, hms0, hms1, hb⟩ := formatInstant_some h
  have hbounds := civilFromDays_bounds i.days
  have hy : ((civilFromDays i.days).y.toNat : ℤ) = (civilFromDays i.days).y := by omega
  have hm : ((civilFromDays i.days).m.toNat : ℤ) = (civilFromDays i.days).m := by omega
  have hd : ((civilFromDays i.days).d.toNat : ℤ) = (civilFromDays i.days).d := by omega
  have hdate : ∀ rest, readDate (padDigits 4 (civilFromDays i.days).y.toNat ++
      0x2D :: (padDigits 2 (civilFromDays i.days).m.toNat ++
      0x2D :: (padDigits 2 (civilFromDays i.days).d.toNat ++ rest))) =
        some (i.days, rest) := by
    intro rest
    rw [readDate_format (by omega) (by omega) (by omega)
      (by rw [hy, hm, hd]; exact isValidYmd_civilFromDays _), hy, hm, hd,
      daysFromCivil_civilFromDays]
  have hpos : ¬ (b.isEmpty || decide (b.length > 40)) = true := by
    cases b with
    | nil => simp at hlen
    | cons c b => simp; simp at hlen; omega
  rw [parseInstant, if_neg hpos, hb, hdate]
  have hsep : ∀ rest, readByte [0x54, 0x74, 0x20] (0x54 :: rest) = some rest := fun _ => rfl
  simp only [hsep, Option.bind_eq_bind, Option.bind_some]
  rw [readTime_format (by omega) (by omega) (by omega) (by omega), Option.bind_some]
  have hms : (((i.msOfDay.toNat / 3600000 * 60 + i.msOfDay.toNat / 60000 % 60) * 60 +
      i.msOfDay.toNat / 1000 % 60) * 1000 + i.msOfDay.toNat % 1000 : ℕ) = i.msOfDay := by omega
  rw [hms]

end Cytadel.Db
