import Mathlib.Data.List.Lex
import Mathlib.Order.Basic
import Cytadel.Proofs.TimestampOrder

/-!
# The texts that denote an instant

`parse_instant` reads by hand what this file writes down as a grammar: a date
of the calendar and, behind a separator, a time of day with an optional
fraction and an optional zone letter. The parser accepts its texts and no
others, and gives each the instant it denotes. What `format_instant` writes is
one of these texts, the same for all that denote one instant, and these
canonical texts are in the order of their instants.
-/

namespace Cytadel.Db

open Cytadel Lib

/-- The number that digits are read as. -/
def digitsValue (s : Bytes) (v : ℕ) : ℕ :=
  s.foldl (fun v c => v * 10 + (c.toNat - 0x30)) v

def fractionBytes : Option Bytes → Bytes
  | none => []
  | some f => 0x2E :: f

/-- A fraction of a second in milliseconds; what is finer is cut off. -/
def fractionMillis : Option Bytes → ℕ
  | none => 0
  | some f => digitsValue f 0 * 1000 / 10 ^ f.length

/-- Between one and nine digits. -/
def FractionDigits (fraction : Option Bytes) : Prop :=
  ∀ f ∈ fraction, 1 ≤ f.length ∧ f.length ≤ 9 ∧ ∀ c ∈ f, isDigitByte c = true

/-- The time of day behind a date. -/
structure ClockText where
  separator : UInt8
  hour : ℕ
  minute : ℕ
  second : ℕ
  fraction : Option Bytes
  zone : Option UInt8
  separator_eq : separator = 0x54 ∨ separator = 0x74 ∨ separator = 0x20
  hour_lt : hour < 24
  minute_lt : minute < 60
  second_lt : second < 60
  fraction_digits : FractionDigits fraction
  zone_letter : ∀ c ∈ zone, c = 0x5A ∨ c = 0x7A

/-- A date, alone or with a time of day. -/
structure InstantText where
  year : ℕ
  month : ℕ
  day : ℕ
  clock : Option ClockText
  year_lt : year < 10 ^ 4
  date : Civil.Gregorian ⟨year, month, day⟩

namespace ClockText

def clock (t : ClockText) : Bytes :=
  padDigits 2 t.hour ++ 0x3A :: (padDigits 2 t.minute ++ 0x3A :: (padDigits 2 t.second ++
    (fractionBytes t.fraction ++ t.zone.toList)))

def text (t : ClockText) : Bytes := t.separator :: t.clock

def msOfDay (t : ClockText) : ℕ :=
  ((t.hour * 60 + t.minute) * 60 + t.second) * 1000 + fractionMillis t.fraction

end ClockText

namespace InstantText

def text (t : InstantText) : Bytes :=
  padDigits 4 t.year ++ 0x2D :: (padDigits 2 t.month ++ 0x2D :: (padDigits 2 t.day ++
    t.clock.elim [] ClockText.text))

def instant (t : InstantText) : Instant :=
  ⟨daysFromCivil t.year t.month t.day, (t.clock.elim 0 ClockText.msOfDay : ℕ)⟩

end InstantText

/-! ## The digits -/

theorem digitsValue_lt {s : Bytes} (h : ∀ c ∈ s, isDigitByte c = true) (v : ℕ) :
    digitsValue s v < (v + 1) * 10 ^ s.length := by
  induction s generalizing v with
  | nil => simp [digitsValue]
  | cons c s ih =>
      rw [List.forall_mem_cons] at h
      have hc := digit_value h.1
      have hrest := ih h.2 (v * 10 + (c.toNat - 0x30))
      show digitsValue s (v * 10 + (c.toNat - 0x30)) < _
      rw [List.length_cons, Nat.pow_succ, Nat.mul_comm (10 ^ s.length) 10, ← Nat.mul_assoc]
      exact Nat.lt_of_lt_of_le hrest (Nat.mul_le_mul_right _ (by omega))

/-- One digit in front is the byte of this digit. -/
theorem digit_eq_ofNat {c : UInt8} (h : isDigitByte c = true) :
    c = UInt8.ofNat (0x30 + (c.toNat - 0x30)) := by
  have hc := digit_value h
  rw [show 0x30 + (c.toNat - 0x30) = c.toNat by omega, UInt8.ofNat_toNat]

theorem readDigits_one_sound {s rest : Bytes} {v n : ℕ} (h : readDigits 1 s v = some (n, rest)) :
    ∃ d < 10, s = UInt8.ofNat (0x30 + d) :: rest ∧ n = v * 10 + d := by
  cases s with
  | nil => cases h
  | cons c s =>
      rw [readDigits] at h
      split at h
      · next hc =>
          simp only [readDigits, Option.some.injEq, Prod.mk.injEq] at h
          obtain ⟨rfl, rfl⟩ := h
          have hval := digit_value hc
          refine ⟨c.toNat - 0x30, by omega, ?_, rfl⟩
          rw [← digit_eq_ofNat hc]
      · cases h

/-- Digits that are read are the digits of the number they are read as. -/
theorem readDigits_sound {k : ℕ} {s rest : Bytes} {n : ℕ} (h : readDigits k s 0 = some (n, rest)) :
    n < 10 ^ k ∧ s = padDigits k n ++ rest := by
  induction k generalizing n rest with
  | zero =>
      simp only [readDigits, Option.some.injEq, Prod.mk.injEq] at h
      obtain ⟨rfl, rfl⟩ := h
      exact ⟨by simp, rfl⟩
  | succ k ih =>
      rw [readDigits_succ, Option.bind_eq_some_iff] at h
      obtain ⟨⟨m, s'⟩, hinit, hlast⟩ := h
      obtain ⟨hm, rfl⟩ := ih hinit
      obtain ⟨d, hd, rfl, rfl⟩ := readDigits_one_sound hlast
      refine ⟨?_, ?_⟩
      · rw [Nat.pow_succ]
        omega
      · rw [padDigits, show (m * 10 + d) / 10 = m by omega, show (m * 10 + d) % 10 = d by omega,
          List.append_assoc]
        rfl

theorem readByte_sound {accepted s rest : Bytes} (h : readByte accepted s = some rest) :
    ∃ c ∈ accepted, s = c :: rest := by
  cases s with
  | nil => cases h
  | cons c s =>
      rw [readByte] at h
      split at h
      · next hc =>
          obtain rfl := Option.some.inj h
          exact ⟨c, List.contains_iff_mem.mp hc, rfl⟩
      · cases h

/-! ## The fraction -/

/-- A rest that starts with no digit. -/
def NoDigit (s : Bytes) : Prop := ∀ c ∈ s.head?, isDigitByte c = false

theorem readFraction_append {f rest : Bytes} {n v : ℕ} (hf : ∀ c ∈ f, isDigitByte c = true)
    (hrest : NoDigit rest) (hn : n + f.length ≤ 9) :
    readFraction (f ++ rest) n v = (n + f.length, digitsValue f v, rest) := by
  induction f generalizing n v with
  | nil =>
      cases rest with
      | nil => rfl
      | cons c rest =>
          have hc : isDigitByte c = false := hrest c rfl
          simp [readFraction, hc, digitsValue]
  | cons c f ih =>
      rw [List.forall_mem_cons] at hf
      rw [List.length_cons] at hn
      rw [List.cons_append, readFraction, if_pos hf.1, if_pos (by omega), ih hf.2 (by omega),
        List.length_cons, show n + 1 + f.length = n + (f.length + 1) by omega]
      rfl

theorem readFraction_sound {s rest : Bytes} {n v m w : ℕ}
    (h : readFraction s n v = (m, w, rest)) :
    ∃ f, s = f ++ rest ∧ (∀ c ∈ f, isDigitByte c = true) ∧ NoDigit rest ∧ m = n + f.length := by
  induction s generalizing n v with
  | nil =>
      simp only [readFraction, Prod.mk.injEq] at h
      obtain ⟨rfl, rfl, rfl⟩ := h
      exact ⟨[], rfl, by simp, by simp [NoDigit], rfl⟩
  | cons c s ih =>
      rw [readFraction] at h
      split at h
      · next hc =>
          obtain ⟨f, rfl, hf, hrest, rfl⟩ := ih h
          refine ⟨c :: f, rfl, ?_, hrest, ?_⟩
          · rw [List.forall_mem_cons]
            exact ⟨hc, hf⟩
          · rw [List.length_cons]
            omega
      · next hc =>
          simp only [Prod.mk.injEq] at h
          obtain ⟨rfl, rfl, rfl⟩ := h
          refine ⟨[], rfl, by simp, ?_, rfl⟩
          intro d hd
          obtain rfl : c = d := by simpa using hd
          simpa using hc

theorem fractionMillis_lt {fraction : Option Bytes} (h : FractionDigits fraction) :
    fractionMillis fraction < 1000 := by
  cases fraction with
  | none => decide
  | some f =>
      have hlt := digitsValue_lt (h f rfl).2.2 0
      rw [Nat.zero_add, Nat.one_mul] at hlt
      rw [fractionMillis, Nat.div_lt_iff_lt_mul (Nat.pow_pos (by decide)), Nat.mul_comm 1000]
      exact Nat.mul_lt_mul_of_pos_right hlt (by decide)

/-- Leading digits are kept, missing ones count as zeros. -/
theorem scale_eq (v k : ℕ) :
    (if k ≥ 3 then v / 10 ^ (k - 3) else v * 10 ^ (3 - k)) = v * 1000 / 10 ^ k := by
  split
  · next h =>
      rw [show 10 ^ k = 10 ^ (k - 3) * 1000 by
        rw [show (1000 : ℕ) = 10 ^ 3 by rfl, ← Nat.pow_add, Nat.sub_add_cancel h],
        Nat.mul_div_mul_right _ _ (by decide)]
  · next h =>
      rw [show 1000 = 10 ^ (3 - k) * 10 ^ k by
        rw [← Nat.pow_add, Nat.sub_add_cancel (by omega)], ← Nat.mul_assoc,
        Nat.mul_div_cancel _ (Nat.pow_pos (by decide))]

theorem readMillis_fraction {f rest : Bytes} (h0 : 1 ≤ f.length) (h1 : f.length ≤ 9)
    (hf : ∀ c ∈ f, isDigitByte c = true) (hrest : NoDigit rest) :
    readMillis (0x2E :: (f ++ rest)) = some (fractionMillis (some f), rest) := by
  have hread : readFraction (f ++ rest) 0 0 = (f.length, digitsValue f 0, rest) := by
    rw [readFraction_append hf hrest (by omega), Nat.zero_add]
  have hcount : ¬ (f.length == 0 || decide (f.length > 9)) = true := by
    simp only [Bool.or_eq_true, beq_iff_eq, decide_eq_true_eq]
    omega
  simp only [readMillis, hread]
  rw [if_neg hcount, fractionMillis, ← scale_eq]
  split <;> rfl

theorem zone_noDigit {zone : Option UInt8} (h : ∀ c ∈ zone, c = 0x5A ∨ c = 0x7A) :
    NoDigit zone.toList := by
  cases zone with
  | none => simp [NoDigit]
  | some c =>
      intro d hd
      obtain rfl : c = d := by simpa using hd
      rcases h c rfl with rfl | rfl <;> decide

theorem readMillis_append {fraction : Option Bytes} {zone : Option UInt8}
    (hf : FractionDigits fraction) (hz : ∀ c ∈ zone, c = 0x5A ∨ c = 0x7A) :
    readMillis (fractionBytes fraction ++ zone.toList) =
      some (fractionMillis fraction, zone.toList) := by
  cases fraction with
  | none =>
      cases zone with
      | none => rfl
      | some c => rcases hz c rfl with rfl | rfl <;> rfl
  | some f =>
      obtain ⟨h0, h1, hdigits⟩ := hf f rfl
      exact readMillis_fraction h0 h1 hdigits (zone_noDigit hz)

theorem readMillis_sound {s rest : Bytes} {n : ℕ} (h : readMillis s = some (n, rest)) :
    ∃ fraction, FractionDigits fraction ∧ s = fractionBytes fraction ++ rest ∧
      n = fractionMillis fraction := by
  have hread := h
  unfold readMillis at h
  split at h
  · next s' =>
      obtain ⟨⟨digits, v, rest'⟩, hfrac⟩ : ∃ p, readFraction s' 0 0 = p := ⟨_, rfl⟩
      obtain ⟨f, rfl, hf, hrest, hlen⟩ := readFraction_sound hfrac
      rw [Nat.zero_add] at hlen
      subst hlen
      rw [hfrac] at h
      dsimp only at h
      split at h
      · cases h
      · next hcount =>
          simp only [Bool.or_eq_true, beq_iff_eq, decide_eq_true_eq, not_or] at hcount
          rw [readMillis_fraction (by omega) (by omega) hf hrest, Option.some.injEq,
            Prod.mk.injEq] at hread
          obtain ⟨rfl, rfl⟩ := hread
          refine ⟨some f, ?_, rfl, rfl⟩
          rintro _ ⟨⟩
          exact ⟨by omega, by omega, hf⟩
  · obtain ⟨rfl, rfl⟩ : 0 = n ∧ s = rest := by simpa using h
    exact ⟨none, by simp [FractionDigits], rfl, rfl⟩

/-! ## The time of day and the date -/

theorem readZone_append {zone : Option UInt8} (h : ∀ c ∈ zone, c = 0x5A ∨ c = 0x7A) :
    (readByte [0x5A, 0x7A] zone.toList).getD zone.toList = [] := by
  cases zone with
  | none => rfl
  | some c => rcases h c rfl with rfl | rfl <;> rfl

theorem readZone_sound {s : Bytes} (h : (readByte [0x5A, 0x7A] s).getD s = []) :
    ∃ zone : Option UInt8, (∀ c ∈ zone, c = 0x5A ∨ c = 0x7A) ∧ s = zone.toList := by
  cases hread : readByte [0x5A, 0x7A] s with
  | none =>
      rw [hread] at h
      exact ⟨none, by simp, h⟩
  | some rest =>
      rw [hread] at h
      obtain rfl : rest = [] := h
      obtain ⟨c, hc, rfl⟩ := readByte_sound hread
      exact ⟨some c, by simpa using hc, rfl⟩

theorem readTime_clock (t : ClockText) : readTime t.clock = some (t.msOfDay : ℤ) := by
  have hh := t.hour_lt
  have hm := t.minute_lt
  have hs := t.second_lt
  have h1 : ¬ 23 < t.hour := by omega
  have h2 : ¬ 59 < t.minute := by omega
  have h3 : ¬ 59 < t.second := by omega
  have hcolon : ∀ rest, readByte [0x3A] (0x3A :: rest) = some rest := fun _ => rfl
  simp only [readTime, ClockText.clock, Option.bind_eq_bind, Option.bind_some, hcolon,
    readDigits_padDigits_of_lt (show t.hour < 10 ^ 2 by omega),
    readDigits_padDigits_of_lt (show t.minute < 10 ^ 2 by omega),
    readDigits_padDigits_of_lt (show t.second < 10 ^ 2 by omega),
    readMillis_append t.fraction_digits t.zone_letter, readZone_append t.zone_letter]
  rw [if_neg h1, if_neg h2, if_neg h3]
  rfl

theorem readTime_sound {s : Bytes} {ms : ℤ} (h : readTime s = some ms) {separator : UInt8}
    (hsep : separator = 0x54 ∨ separator = 0x74 ∨ separator = 0x20) :
    ∃ t : ClockText, separator :: s = t.text ∧ ms = t.msOfDay := by
  simp only [readTime, Option.bind_eq_bind, Option.bind_none, Option.ite_none_left_eq_some,
    Option.bind_eq_some_iff] at h
  obtain ⟨⟨hh, s1⟩, hhour, hh24, s2, hcolon, ⟨mm, s3⟩, hminute, hmm60, s4, hcolon', ⟨ss, s5⟩,
    hsecond, hss60, ⟨millis, s6⟩, hmillis, hend, hms⟩ := h
  obtain ⟨-, rfl⟩ := readDigits_sound hhour
  obtain ⟨c, hc, rfl⟩ := readByte_sound hcolon
  obtain rfl : c = 0x3A := by simpa using hc
  obtain ⟨-, rfl⟩ := readDigits_sound hminute
  obtain ⟨c, hc, rfl⟩ := readByte_sound hcolon'
  obtain rfl : c = 0x3A := by simpa using hc
  obtain ⟨-, rfl⟩ := readDigits_sound hsecond
  obtain ⟨fraction, hfraction, rfl, rfl⟩ := readMillis_sound hmillis
  obtain ⟨zone, hzone, rfl⟩ := readZone_sound (by simpa using hend)
  dsimp only at hh24 hmm60 hss60 hms
  refine ⟨⟨separator, hh, mm, ss, fraction, zone, hsep, by omega, by omega, by omega, hfraction,
    hzone⟩, rfl, ?_⟩
  exact (Option.some.inj hms).symm

theorem readDate_sound {s rest : Bytes} {days : ℤ} (h : readDate s = some (days, rest)) :
    ∃ y m d : ℕ, y < 10 ^ 4 ∧ Civil.Gregorian ⟨y, m, d⟩ ∧ days = daysFromCivil y m d ∧
      s = padDigits 4 y ++ 0x2D :: (padDigits 2 m ++ 0x2D :: (padDigits 2 d ++ rest)) := by
  simp only [readDate, Option.bind_eq_bind, Option.bind_eq_some_iff,
    Option.ite_none_left_eq_some] at h
  obtain ⟨⟨y, s1⟩, hyear, s2, hdash, ⟨m, s3⟩, hmonth, s4, hdash', ⟨d, s5⟩, hday, hvalid, hdays⟩ := h
  obtain ⟨hy, rfl⟩ := readDigits_sound hyear
  obtain ⟨c, hc, rfl⟩ := readByte_sound hdash
  obtain rfl : c = 0x2D := by simpa using hc
  obtain ⟨-, rfl⟩ := readDigits_sound hmonth
  obtain ⟨c, hc, rfl⟩ := readByte_sound hdash'
  obtain rfl : c = 0x2D := by simpa using hc
  obtain ⟨-, rfl⟩ := readDigits_sound hday
  dsimp only at hvalid hdays
  rw [Option.some.injEq, Prod.mk.injEq] at hdays
  obtain ⟨rfl, rfl⟩ := hdays
  refine ⟨y, m, d, hy, (isValidYmd_iff _).mp ?_, rfl, rfl⟩
  simpa using hvalid

namespace InstantText

theorem readDate_text (t : InstantText) :
    readDate t.text =
      some (daysFromCivil t.year t.month t.day, t.clock.elim [] ClockText.text) := by
  have hmonth := t.date.month
  have hday := t.date.day
  have hlen : monthLength t.year t.month ≤ 31 := by
    rw [monthLength]
    split_ifs <;> omega
  dsimp only at hmonth hday
  have hpow : 10 ^ 2 = 100 := rfl
  exact readDate_format t.year_lt (by omega) (by omega) ((isValidYmd_iff _).mpr t.date) _

theorem text_length (t : InstantText) : 10 ≤ t.text.length ∧ t.text.length ≤ 30 := by
  have hclock : (t.clock.elim [] ClockText.text).length ≤ 20 := by
    cases t.clock with
    | none => exact Nat.zero_le _
    | some c =>
        have hzone : c.zone.toList.length ≤ 1 := by cases c.zone <;> simp
        have hfraction : (fractionBytes c.fraction).length ≤ 10 := by
          cases hf : c.fraction with
          | none => exact Nat.zero_le _
          | some f =>
              have := (c.fraction_digits f hf).2.1
              rw [fractionBytes, List.length_cons]
              omega
        simp only [Option.elim_some, ClockText.text, ClockText.clock, List.length_cons,
          List.length_append, padDigits_length]
        omega
  simp only [text, List.length_cons, List.length_append, padDigits_length]
  omega

/-- A text of the grammar is read as the instant it denotes. -/
theorem parseInstant_text (t : InstantText) : parseInstant t.text = some t.instant := by
  have hlen := t.text_length
  have hpos : ¬ (t.text.isEmpty || decide (t.text.length > 40)) = true := by
    rw [Bool.or_eq_true, List.isEmpty_iff, decide_eq_true_eq]
    rintro (hnil | hlong)
    · rw [hnil, List.length_nil] at hlen
      omega
    · omega
  rw [parseInstant, if_neg hpos, t.readDate_text, instant]
  cases t.clock with
  | none => rfl
  | some c =>
      have hsep : readByte [0x54, 0x74, 0x20] c.text = some c.clock := by
        rw [ClockText.text]
        rcases c.separator_eq with h | h | h <;> rw [h] <;> rfl
      show (readByte [0x54, 0x74, 0x20] c.text).bind _ = _
      rw [hsep, Option.bind_some, readTime_clock]
      rfl

end InstantText

/-- What is read as an instant is a text of the grammar. -/
theorem parseInstant_sound {s : Bytes} {i : Instant} (h : parseInstant s = some i) :
    ∃ t : InstantText, t.text = s ∧ t.instant = i := by
  rw [parseInstant] at h
  split at h
  · cases h
  · cases hdate : readDate s with
    | none =>
        rw [hdate] at h
        cases h
    | some p =>
        obtain ⟨days, rest⟩ := p
        obtain ⟨y, m, d, hy, hgreg, rfl, rfl⟩ := readDate_sound hdate
        rw [hdate] at h
        cases rest with
        | nil =>
            obtain rfl := Option.some.inj h
            exact ⟨⟨y, m, d, none, hy, hgreg⟩, rfl, rfl⟩
        | cons c rest =>
            simp only [Option.bind_eq_bind, Option.bind_eq_some_iff, Option.some.injEq] at h
            obtain ⟨s', hsep, ms, htime, rfl⟩ := h
            obtain ⟨c', hc, heq⟩ := readByte_sound hsep
            obtain ⟨rfl, rfl⟩ := List.cons.inj heq
            obtain ⟨t, htext, rfl⟩ := readTime_sound htime (by simpa using hc)
            refine ⟨⟨y, m, d, some t, hy, hgreg⟩, ?_, rfl⟩
            rw [InstantText.text, htext]
            rfl

/-! ## The canonical text -/

/-- The instants that some text denotes. -/
structure Instant.Parsed (i : Instant) : Prop where
  year : 0 ≤ (civilFromDays i.days).y ∧ (civilFromDays i.days).y ≤ 9999
  ms : 0 ≤ i.msOfDay ∧ i.msOfDay ≤ 86399999

theorem ClockText.msOfDay_le (t : ClockText) : t.msOfDay ≤ 86399999 := by
  have hh := t.hour_lt
  have hm := t.minute_lt
  have hs := t.second_lt
  have hf := fractionMillis_lt t.fraction_digits
  rw [msOfDay]
  omega

theorem InstantText.instant_parsed (t : InstantText) : t.instant.Parsed := by
  have hy := t.year_lt
  have hcivil := @civilFromDays_daysFromCivil ⟨t.year, t.month, t.day⟩ t.date
  have hdays : t.instant.days = daysFromCivil t.year t.month t.day := rfl
  refine ⟨?_, ?_⟩
  · rw [hdays, hcivil]
    dsimp only
    omega
  · have hms : t.instant.msOfDay = (t.clock.elim 0 ClockText.msOfDay : ℕ) := rfl
    rw [hms]
    cases t.clock with
    | none => decide
    | some c =>
        have := c.msOfDay_le
        simp only [Option.elim_some]
        omega

namespace Instant.Parsed

variable {i j : Instant}

/-- The canonical text as a timestamp with three fraction digits. -/
def isoTime (h : i.Parsed) : IsoTime where
  year := (civilFromDays i.days).y.toNat
  month := (civilFromDays i.days).m.toNat
  day := (civilFromDays i.days).d.toNat
  hour := i.msOfDay.toNat / 3600000
  minute := i.msOfDay.toNat / 60000 % 60
  second := i.msOfDay.toNat / 1000 % 60
  fraction := some (padDigits 3 (i.msOfDay.toNat % 1000))
  zone := some 0x5A
  year_lt := by
    have := h.year
    omega
  date_valid := by
    have hy := h.year
    have hb := civilFromDays_bounds i.days
    rw [Int.toNat_of_nonneg (by omega), Int.toNat_of_nonneg (by omega),
      Int.toNat_of_nonneg (by omega)]
    exact isValidYmd_civilFromDays _
  hour_lt := by
    have := h.ms
    omega
  minute_lt := Nat.mod_lt _ (by decide)
  second_lt := Nat.mod_lt _ (by decide)
  fraction_digits := by
    rintro _ ⟨⟩
    exact ⟨fun hnil => by simpa [padDigits_length] using congrArg List.length hnil,
      padDigits_digits _ _⟩
  zone_letter := by simp

theorem seconds_isoTime (h : i.Parsed) :
    h.isoTime.seconds = i.days * 86400 + i.msOfDay.toNat / 1000 := by
  have hy := h.year
  have hms := h.ms
  have hb := civilFromDays_bounds i.days
  show daysFromCivil (civilFromDays i.days).y.toNat (civilFromDays i.days).m.toNat
    (civilFromDays i.days).d.toNat * 86400 + _ = _
  rw [Int.toNat_of_nonneg (by omega), Int.toNat_of_nonneg (by omega),
    Int.toNat_of_nonneg (by omega), daysFromCivil_civilFromDays]
  simp only [isoTime]
  omega

theorem formatInstant_eq (h : i.Parsed) : formatInstant i = some h.isoTime.text := by
  have hy := h.year
  have hms := h.ms
  rw [formatInstant]
  rw [if_neg (by simp only [Bool.or_eq_true, decide_eq_true_eq]; omega),
    if_neg (by simp only [Bool.or_eq_true, decide_eq_true_eq]; omega)]
  simp [IsoTime.text, IsoTime.stamp, IsoTime.fractionText, isoTime, ascii]

theorem text_firstLess (hi : i.Parsed) (hj : j.Parsed) (h : i.before j = true) :
    FirstLess hi.isoTime.text hj.isoTime.text := by
  have hsi := hi.seconds_isoTime
  have hsj := hj.seconds_isoTime
  have hmi := hi.ms
  have hmj := hj.ms
  have horder : hi.isoTime.seconds < hj.isoTime.seconds ∨
      hi.isoTime.seconds = hj.isoTime.seconds ∧
        i.msOfDay.toNat % 1000 < j.msOfDay.toNat % 1000 := by
    rw [Instant.before] at h
    split at h
    · have := of_decide_eq_true h
      omega
    · have := of_decide_eq_true h
      omega
  rcases horder with hlt | ⟨heq, hlt⟩
  · exact (IsoTime.stamp_firstLess hlt).append _ _
  · rw [IsoTime.text, IsoTime.text, IsoTime.stamp_eq heq]
    refine FirstLess.append_left ?_ _
    refine FirstLess.append ?_ _ _
    exact .cons (padDigits_firstLess hlt (Nat.mod_lt _ (by decide)))

theorem text_lt_iff (hi : i.Parsed) (hj : j.Parsed) :
    hi.isoTime.text < hj.isoTime.text ↔ i.before j = true := by
  constructor
  · intro hlt
    by_contra hnot
    by_cases hback : j.before i = true
    · exact List.lt_asymm (text_firstLess hj hi hback).lt hlt
    · -- neither is before the other: they are one instant
      have hsame : i = j := by
        obtain ⟨di, mi⟩ := i
        obtain ⟨dj, mj⟩ := j
        simp only [Instant.before] at hnot hback
        split_ifs at hnot hback <;> simp only [decide_eq_true_eq] at hnot hback <;>
          simp only [Instant.mk.injEq] <;> omega
      subst hsame
      exact List.lt_irrefl _ hlt
  · intro h
    exact (text_firstLess hi hj h).lt

end Instant.Parsed

theorem parseInstant_parsed {s : Bytes} {i : Instant} (h : parseInstant s = some i) :
    i.Parsed := by
  obtain ⟨t, -, rfl⟩ := parseInstant_sound h
  exact t.instant_parsed

/-- Accepted are the texts of the grammar, as the instants they denote, with
the time of day in its range. Every instant that was read has a canonical text,
which is read back as this instant, and the canonical texts are in the order of
their instants. -/
theorem parseInstant_formatInstant_spec :
    (∀ s i, parseInstant s = some i ↔
      ∃ t : InstantText, t.text = s ∧ s.length ≤ 40 ∧ t.instant = i) ∧
    (∀ s i, parseInstant s = some i → 0 ≤ i.msOfDay ∧ i.msOfDay ≤ 86399999 ∧
      ∃ b, formatInstant i = some b ∧ parseInstant b = some i) ∧
    (∀ s t i j, parseInstant s = some i → parseInstant t = some j →
      ∀ b c, formatInstant i = some b → formatInstant j = some c →
        (b < c ↔ i.before j = true)) := by
  refine ⟨fun s i => ⟨fun h => ?_, ?_⟩, fun s i h => ?_, fun s t i j hs ht b c hb hc => ?_⟩
  · obtain ⟨t, rfl, rfl⟩ := parseInstant_sound h
    have := t.text_length
    exact ⟨t, rfl, by omega, rfl⟩
  · rintro ⟨t, rfl, -, rfl⟩
    exact t.parseInstant_text
  · have hi := parseInstant_parsed h
    exact ⟨hi.ms.1, hi.ms.2, _, hi.formatInstant_eq, parseInstant_formatInstant hi.formatInstant_eq⟩
  · have hi := parseInstant_parsed hs
    have hj := parseInstant_parsed ht
    obtain rfl := Option.some.inj (hi.formatInstant_eq.symm.trans hb)
    obtain rfl := Option.some.inj (hj.formatInstant_eq.symm.trans hc)
    exact hi.text_lt_iff hj

end Cytadel.Db
