import Mathlib.Algebra.Order.Field.Rat
import Mathlib.Data.List.Infix
import Mathlib.Tactic.Linarith
import Mathlib.Tactic.NormNum
import Cytadel.Lib.FirstLess
import Cytadel.Proofs.Calendar
import Cytadel.Db.NvdIngest

/-!
# The order of stored timestamps

The schema compares timestamps as texts and wants every writer to keep to one
zero-padded format with three fraction digits. The NVD writer only puts a `Z`
behind what it was sent. Two texts of different whole seconds are in the order
of their instants all the same: the first nineteen bytes decide. Within one
second the fractions decide, as long as they differ at a digit that both have
and that was not cut off; a fraction that runs out first is followed by a
letter, which is greater than any digit and greater than the point.
-/

namespace Cytadel.Db

open Cytadel Lib

/-! ## Timestamps -/

/-- A UTC timestamp in the extended format of ISO 8601, with or without a
fraction and a zone letter. -/
structure IsoTime where
  year : ℕ
  month : ℕ
  day : ℕ
  hour : ℕ
  minute : ℕ
  second : ℕ
  fraction : Option Bytes
  zone : Option UInt8
  year_lt : year < 10 ^ 4
  date_valid : isValidYmd ⟨year, month, day⟩ = true
  hour_lt : hour < 24
  minute_lt : minute < 60
  second_lt : second < 60
  fraction_digits : ∀ f ∈ fraction, f ≠ [] ∧ ∀ c ∈ f, isDigitByte c = true
  zone_letter : ∀ c ∈ zone, c = 0x5A ∨ c = 0x7A

/-- What digits behind a point are worth. -/
def fractionValue : Bytes → ℚ
  | [] => 0
  | c :: s => ((c.toNat - 0x30 : ℕ) + fractionValue s) / 10

namespace IsoTime

/-- The date and the time of day, down to the second. -/
def stamp (t : IsoTime) : Bytes :=
  padDigits 4 t.year ++ 0x2D :: (padDigits 2 t.month ++ 0x2D :: (padDigits 2 t.day ++
    0x54 :: (padDigits 2 t.hour ++ 0x3A :: (padDigits 2 t.minute ++
      0x3A :: padDigits 2 t.second))))

def digits (t : IsoTime) : Bytes := t.fraction.getD []

def fractionText (t : IsoTime) : Bytes :=
  match t.fraction with
  | none => []
  | some f => 0x2E :: f

def text (t : IsoTime) : Bytes := t.stamp ++ (t.fractionText ++ t.zone.toList)

/-- The seconds since 1970, without the fraction. -/
def seconds (t : IsoTime) : ℤ :=
  daysFromCivil t.year t.month t.day * 86400 + ((t.hour * 60 + t.minute) * 60 + t.second : ℕ)

/-- The instant a timestamp denotes, in seconds since 1970. -/
def instant (t : IsoTime) : ℚ := t.seconds + fractionValue t.digits

theorem stamp_length (t : IsoTime) : t.stamp.length = 19 := by
  simp [stamp, padDigits_length]

theorem digits_digits (t : IsoTime) : ∀ c ∈ t.digits, isDigitByte c = true := by
  intro c hc
  cases hf : t.fraction with
  | none => simp [digits, hf] at hc
  | some f =>
      rw [digits, hf] at hc
      exact (t.fraction_digits f hf).2 c hc

end IsoTime

/-! ## Digits and numbers -/

theorem digitByte_lt {i j : ℕ} (hj : j < 10) (h : i < j) :
    UInt8.ofNat (0x30 + i) < UInt8.ofNat (0x30 + j) := by
  have hall : ∀ j < 10, ∀ i < j, UInt8.ofNat (0x30 + i) < UInt8.ofNat (0x30 + j) := by decide
  exact hall j hj i h

/-- The smaller of two numbers has the smaller digit at the first difference. -/
theorem padDigits_firstLess {k n m : ℕ} (h : n < m) (hm : m < 10 ^ k) :
    FirstLess (padDigits k n) (padDigits k m) := by
  induction k generalizing n m with
  | zero =>
      rw [Nat.pow_zero] at hm
      omega
  | succ k ih =>
      rw [padDigits, padDigits]
      rcases Nat.lt_or_ge (n / 10) (m / 10) with hlt | hge
      · refine (ih hlt ?_).append _ _
        rw [Nat.pow_succ] at hm
        omega
      · rw [show n / 10 = m / 10 by omega]
        exact .append_left (.head (digitByte_lt (by omega) (by omega))) _

/-- A field of a fixed width in front: it decides, or what follows it does. -/
theorem padDigits_append_firstLess {k n m : ℕ} {s t : Bytes} (hm : m < 10 ^ k)
    (h : n < m ∨ n = m ∧ FirstLess s t) :
    FirstLess (padDigits k n ++ s) (padDigits k m ++ t) := by
  rcases h with h | ⟨rfl, h⟩
  · exact (padDigits_firstLess h hm).append s t
  · exact h.append_left _

theorem digit_value {c : UInt8} (h : isDigitByte c = true) :
    0x30 ≤ c.toNat ∧ c.toNat ≤ 0x39 := by
  simpa [isDigitByte, UInt8.le_iff_toNat_le] using h

theorem fractionValue_bounds {f : Bytes} (h : ∀ c ∈ f, isDigitByte c = true) :
    0 ≤ fractionValue f ∧ fractionValue f < 1 := by
  induction f with
  | nil => simp [fractionValue]
  | cons c f ih =>
      rw [List.forall_mem_cons] at h
      obtain ⟨h0, h1⟩ := ih h.2
      have hc := digit_value h.1
      have hdigit : ((c.toNat - 0x30 : ℕ) : ℚ) ≤ 9 := by exact_mod_cast (by omega)
      have hpos : (0 : ℚ) ≤ (c.toNat - 0x30 : ℕ) := Nat.cast_nonneg _
      rw [fractionValue]
      constructor <;> linarith

/-- The smaller of two fractions has the smaller digit at the first difference,
or it runs out before there is one. -/
theorem firstLess_of_fractionValue_lt {f g : Bytes} (hf : ∀ c ∈ f, isDigitByte c = true)
    (hg : ∀ c ∈ g, isDigitByte c = true) (h : fractionValue f < fractionValue g) :
    FirstLess f g ∨ f <+: g := by
  induction f generalizing g with
  | nil => exact .inr (List.nil_prefix)
  | cons c f ih =>
      cases g with
      | nil =>
          have := (fractionValue_bounds hf).1
          rw [fractionValue.eq_1] at h
          linarith
      | cons d g =>
          rw [List.forall_mem_cons] at hf hg
          have hc := digit_value hf.1
          have hd := digit_value hg.1
          have hfb := fractionValue_bounds hf.2
          have hgb := fractionValue_bounds hg.2
          rw [fractionValue, fractionValue] at h
          rcases Nat.lt_trichotomy c.toNat d.toNat with hlt | heq | hgt
          · exact .inl (.head (UInt8.lt_iff_toNat_lt.mpr hlt))
          · obtain rfl := UInt8.toNat_inj.mp heq
            have htail : fractionValue f < fractionValue g := by linarith
            rcases ih hf.2 hg.2 htail with htail | htail
            · exact .inl (.cons htail)
            · exact .inr (List.cons_prefix_cons.mpr ⟨rfl, htail⟩)
          · -- a digit more at this place outweighs all that can follow
            have hone : ((d.toNat - 0x30 : ℕ) : ℚ) + 1 ≤ (c.toNat - 0x30 : ℕ) := by
              exact_mod_cast (by omega)
            linarith

namespace IsoTime

variable {a b : IsoTime}

/-! ## The first nineteen bytes -/

theorem stamp_firstLess (h : a.seconds < b.seconds) : FirstLess a.stamp b.stamp := by
  obtain ⟨hca, hma⟩ := civilFromDays_of_valid a.date_valid
  obtain ⟨hcb, hmb⟩ := civilFromDays_of_valid b.date_valid
  have hta := a.hour_lt
  have htb := b.hour_lt
  have hna := a.minute_lt
  have hnb := b.minute_lt
  have hsa := a.second_lt
  have hsb := b.second_lt
  have hyb := b.year_lt
  rw [seconds, seconds] at h
  dsimp only at hca hma hcb hmb
  -- an earlier day is an earlier date; on one day the time of day decides
  have hdate : (Civil.mk a.year a.month a.day).Before ⟨b.year, b.month, b.day⟩ ∨
      Civil.mk a.year a.month a.day = ⟨b.year, b.month, b.day⟩ ∧
        (a.hour * 60 + a.minute) * 60 + a.second < (b.hour * 60 + b.minute) * 60 + b.second := by
    rcases lt_trichotomy (daysFromCivil a.year a.month a.day)
      (daysFromCivil b.year b.month b.day) with hlt | heq | hgt
    · rw [← hca, ← hcb]
      exact .inl (civilFromDays_before hlt)
    · rw [← hca, ← hcb, heq]
      exact .inr ⟨rfl, by omega⟩
    · omega
  rw [Civil.Before, Civil.mk.injEq] at hdate
  dsimp only at hdate
  rw [stamp, stamp]
  have hpow2 : 10 ^ 2 = 100 := rfl
  refine padDigits_append_firstLess hyb ?_
  by_cases hy : a.year < b.year
  · exact .inl hy
  refine .inr ⟨by omega, .cons (padDigits_append_firstLess (by omega) ?_)⟩
  by_cases hm : a.month < b.month
  · exact .inl hm
  refine .inr ⟨by omega, .cons (padDigits_append_firstLess (by omega) ?_)⟩
  by_cases hd : a.day < b.day
  · exact .inl hd
  refine .inr ⟨by omega, .cons (padDigits_append_firstLess (by omega) ?_)⟩
  by_cases hh : a.hour < b.hour
  · exact .inl hh
  refine .inr ⟨by omega, .cons (padDigits_append_firstLess (by omega) ?_)⟩
  by_cases hn : a.minute < b.minute
  · exact .inl hn
  exact .inr ⟨by omega, .cons (padDigits_firstLess (by omega) (by omega))⟩

theorem stamp_eq (h : a.seconds = b.seconds) : a.stamp = b.stamp := by
  obtain ⟨hca, -⟩ := civilFromDays_of_valid a.date_valid
  obtain ⟨hcb, -⟩ := civilFromDays_of_valid b.date_valid
  have hta := a.hour_lt
  have htb := b.hour_lt
  have hna := a.minute_lt
  have hnb := b.minute_lt
  have hsa := a.second_lt
  have hsb := b.second_lt
  rw [seconds, seconds] at h
  have hdays : daysFromCivil a.year a.month a.day = daysFromCivil b.year b.month b.day := by omega
  have hdate : Civil.mk a.year a.month a.day = ⟨b.year, b.month, b.day⟩ := by
    rw [← hca, ← hcb]
    dsimp only
    rw [hdays]
  rw [Civil.mk.injEq] at hdate
  rw [stamp, stamp, show a.year = b.year by omega, show a.month = b.month by omega,
    show a.day = b.day by omega, show a.hour = b.hour by omega, show a.minute = b.minute by omega,
    show a.second = b.second by omega]

/-! ## What is stored -/

/-- The letter a stored timestamp ends in: the one it came with, unless that
was cut off or there was none. -/
def closing (t : IsoTime) : UInt8 :=
  if 28 ≤ t.digits.length then 0x5A else t.zone.getD 0x5A

theorem closing_letter (t : IsoTime) : t.closing = 0x5A ∨ t.closing = 0x7A := by
  rw [closing]
  split
  · exact .inl rfl
  · cases hz : t.zone with
    | none => exact .inl rfl
    | some c => exact t.zone_letter c hz

theorem digit_not_letter {c : UInt8} (h : isDigitByte c = true) : c ≠ 0x5A ∧ c ≠ 0x7A := by
  constructor <;> (rintro rfl; exact absurd h (by decide))

theorem stamp_no_letter (t : IsoTime) : ∀ c ∈ t.stamp, c ≠ 0x5A ∧ c ≠ 0x7A := by
  have hdigit : ∀ {k n : ℕ} {c : UInt8}, c ∈ padDigits k n → c ≠ 0x5A ∧ c ≠ 0x7A :=
    fun hc => digit_not_letter (padDigits_digits _ _ _ hc)
  simp only [stamp, List.mem_append, List.mem_cons]
  rintro c (hc | rfl | hc | rfl | hc | rfl | hc | rfl | hc | rfl | hc)
  all_goals first | exact hdigit hc | decide

theorem fractionText_no_letter (t : IsoTime) : ∀ c ∈ t.fractionText, c ≠ 0x5A ∧ c ≠ 0x7A := by
  intro c hc
  cases hf : t.fraction with
  | none => simp [fractionText, hf] at hc
  | some f =>
      rw [fractionText, hf, List.mem_cons] at hc
      rcases hc with rfl | hc
      · decide
      · exact digit_not_letter ((t.fraction_digits f hf).2 c hc)

theorem normalize_of_letter {raw s : Bytes} {c : UInt8} (h : raw.take 48 = s ++ [c])
    (hc : c = 0x5A ∨ c = 0x7A) : normalizeNvdTimestamp raw = some (s ++ [c]) := by
  have hz : (c == 0x5A || c == 0x7A) = true := by
    rcases hc with rfl | rfl <;> decide
  simp [normalizeNvdTimestamp, h, hz]

theorem normalize_of_no_letter {raw s : Bytes} (h : raw.take 48 = s) (hs : s ≠ [])
    (hno : ∀ c ∈ s, c ≠ 0x5A ∧ c ≠ 0x7A) : normalizeNvdTimestamp raw = some (s ++ [0x5A]) := by
  have hlast := List.getLast?_eq_some_getLast hs
  have hz := hno _ (List.getLast_mem hs)
  simp [normalizeNvdTimestamp, h, hlast, hz.1, hz.2, ascii]

theorem fractionText_length (t : IsoTime) :
    t.fractionText.length = 0 ∧ t.digits.length = 0 ∨
      t.fractionText.length = t.digits.length + 1 := by
  cases hf : t.fraction with
  | none => simp [fractionText, digits, hf]
  | some f => simp [fractionText, digits, hf]

/-- Every timestamp is accepted; what is stored of it are the stamp, at most
28 digits of the fraction with the point in front, and a letter. -/
theorem normalize_text (t : IsoTime) :
    normalizeNvdTimestamp t.text =
      some (t.stamp ++ (t.fractionText.take 29 ++ [t.closing])) := by
  have htake : t.text.take 48 =
      t.stamp ++ (t.fractionText ++ t.zone.toList).take 29 := by
    rw [text, List.take_append, stamp_length, List.take_of_length_le]
    rw [stamp_length]
    decide
  have hlen := t.fractionText_length
  have hne : t.stamp ++ t.fractionText.take 29 ≠ [] := by
    intro h
    have := congrArg List.length h
    rw [List.length_append, stamp_length, List.length_nil] at this
    omega
  have hno : ∀ c ∈ t.stamp ++ t.fractionText.take 29, c ≠ 0x5A ∧ c ≠ 0x7A := by
    intro c hc
    rcases List.mem_append.mp hc with hc | hc
    · exact t.stamp_no_letter c hc
    · exact t.fractionText_no_letter c (List.mem_of_mem_take hc)
  by_cases hlong : 28 ≤ t.digits.length
  · -- the letter is cut off, and a `Z` put in its place
    rw [List.take_append_of_le_length (by omega)] at htake
    rw [normalize_of_no_letter htake hne hno, closing, if_pos hlong, List.append_assoc]
  · have hwhole : t.fractionText.take 29 = t.fractionText :=
      List.take_of_length_le (by omega)
    rw [closing, if_neg hlong]
    cases hz : t.zone with
    | none =>
        rw [hz, Option.toList_none, List.append_nil] at htake
        rw [normalize_of_no_letter htake hne hno, List.append_assoc]
        rfl
    | some c =>
        have hfits : (t.fractionText ++ [c]).length ≤ 29 := by
          rw [List.length_append, List.length_singleton]
          omega
        rw [hz, Option.toList_some, List.take_of_length_le hfits, ← List.append_assoc] at htake
        rw [normalize_of_letter htake (t.zone_letter c hz), hwhole, List.append_assoc]
        rfl

/-! ## The order -/

theorem letter_gt_digit {c z : UInt8} (hc : isDigitByte c = true) (hz : z = 0x5A ∨ z = 0x7A) :
    c < z := by
  rw [UInt8.lt_iff_toNat_lt]
  have := digit_value hc
  rcases hz with rfl | rfl
  · show c.toNat < 90
    omega
  · show c.toNat < 122
    omega

theorem instant_bounds (t : IsoTime) :
    (t.seconds : ℚ) ≤ t.instant ∧ t.instant < t.seconds + 1 := by
  have := fractionValue_bounds t.digits_digits
  rw [instant]
  constructor <;> linarith

theorem seconds_le (h : a.instant < b.instant) : a.seconds ≤ b.seconds := by
  have ha := a.instant_bounds
  have hb := b.instant_bounds
  have hlt : (a.seconds : ℚ) < b.seconds + 1 := by linarith
  have : a.seconds < b.seconds + 1 := by exact_mod_cast hlt
  omega

theorem fraction_of_instant_lt (hs : a.seconds = b.seconds) (h : a.instant < b.instant) :
    fractionValue a.digits < fractionValue b.digits := by
  rw [instant, instant, hs] at h
  linarith

theorem fractionText_of_digits {t : IsoTime} (h : t.digits ≠ []) :
    t.fractionText = 0x2E :: t.digits := by
  cases hf : t.fraction with
  | none => simp [digits, hf] at h
  | some f => simp [fractionText, digits, hf]

theorem fractionText_of_no_digits {t : IsoTime} (h : t.digits = []) : t.fractionText = [] := by
  cases hf : t.fraction with
  | none => simp [fractionText, hf]
  | some f =>
      rw [digits, hf] at h
      exact absurd h (t.fraction_digits f hf).1

theorem closing_of_long {t : IsoTime} (h : 28 ≤ t.digits.length) : t.closing = 0x5A := by
  rw [closing, if_pos h]

/-- A cut that makes two different runs of digits equal cuts both. -/
theorem long_of_take_eq {f g : Bytes} (hne : f ≠ g) (h : f.take 28 = g.take 28) :
    28 ≤ f.length ∧ 28 ≤ g.length := by
  have hlen := congrArg List.length h
  rw [List.length_take, List.length_take] at hlen
  by_contra hshort
  rw [List.take_of_length_le (by omega), List.take_of_length_le (by omega)] at h
  exact hne h

/-- A fraction that is the start of the other one is not stored before it. -/
theorem not_lt_of_prefix (hs : a.seconds = b.seconds)
    (h : fractionValue a.digits < fractionValue b.digits)
    (hp : a.digits.take 28 <+: b.digits.take 28) :
    ¬ a.stamp ++ (a.fractionText.take 29 ++ [a.closing]) <
      b.stamp ++ (b.fractionText.take 29 ++ [b.closing]) := by
  have hb : b.digits ≠ [] := by
    intro hnil
    have := (fractionValue_bounds a.digits_digits).1
    rw [hnil, fractionValue.eq_1] at h
    linarith
  rw [stamp_eq hs, fractionText_of_digits hb, List.take_succ_cons]
  by_cases ha : a.digits = []
  · -- the letter stands where the other one has its point
    rw [fractionText_of_no_digits ha, List.take_nil, List.nil_append]
    refine List.lt_asymm (FirstLess.append_left ?_ _).lt
    refine .head ?_
    rcases a.closing_letter with hc | hc <;> (rw [hc]; decide)
  · rw [fractionText_of_digits ha, List.take_succ_cons]
    obtain ⟨r, hr⟩ := hp
    cases r with
    | nil =>
        rw [List.append_nil] at hr
        have hne : a.digits ≠ b.digits := by
          intro heq
          rw [heq] at h
          exact lt_irrefl _ h
        have hlong := long_of_take_eq hne hr
        rw [hr, closing_of_long hlong.1, closing_of_long hlong.2]
        exact List.lt_irrefl _
    | cons d r =>
        -- the letter stands where the other one has one more digit
        have hd : isDigitByte d = true := by
          refine b.digits_digits d (List.mem_of_mem_take (i := 28) ?_)
          rw [← hr]
          simp
        rw [← hr, List.cons_append, List.cons_append, List.append_assoc]
        refine List.lt_asymm (FirstLess.append_left ?_ _).lt
        refine .cons (FirstLess.append_left ?_ _)
        exact .head (letter_gt_digit hd a.closing_letter)

/-- Fractions that differ at a stored digit keep their order. -/
theorem lt_of_firstLess (hs : a.seconds = b.seconds)
    (h : FirstLess (a.digits.take 28) (b.digits.take 28)) :
    a.stamp ++ (a.fractionText.take 29 ++ [a.closing]) <
      b.stamp ++ (b.fractionText.take 29 ++ [b.closing]) := by
  have ha : a.digits ≠ [] := fun hnil => h.ne_nil.1 (by rw [hnil, List.take_nil])
  have hb : b.digits ≠ [] := fun hnil => h.ne_nil.2 (by rw [hnil, List.take_nil])
  rw [stamp_eq hs, fractionText_of_digits ha, fractionText_of_digits hb, List.take_succ_cons,
    List.take_succ_cons]
  exact ((h.cons.append _ _).append_left _).lt

end IsoTime

/-- Of two instants the earlier one is stored as the smaller text exactly when
they lie in different seconds or its stored fraction digits, none if it has no
fraction, are not the first of the other one's. -/
theorem storedTimestamp_lt_iff {a b : IsoTime} (h : a.instant < b.instant) :
    ∃ s t, normalizeNvdTimestamp a.text = some s ∧ normalizeNvdTimestamp b.text = some t ∧
      (s < t ↔ a.seconds ≠ b.seconds ∨ ¬ a.digits.take 28 <+: b.digits.take 28) := by
  refine ⟨_, _, a.normalize_text, b.normalize_text, ?_⟩
  rcases (IsoTime.seconds_le h).lt_or_eq with hlt | heq
  · have hfirst := (IsoTime.stamp_firstLess hlt).append
      (a.fractionText.take 29 ++ [a.closing]) (b.fractionText.take 29 ++ [b.closing])
    exact ⟨fun _ => .inl hlt.ne, fun _ => hfirst.lt⟩
  · have hfrac := IsoTime.fraction_of_instant_lt heq h
    have hcases : FirstLess (a.digits.take 28) (b.digits.take 28) ∨
        a.digits.take 28 <+: b.digits.take 28 := by
      rcases firstLess_of_fractionValue_lt a.digits_digits b.digits_digits hfrac with hf | hp
      · rcases hf.take 28 with hf | he
        · exact .inl hf
        · exact .inr (he ▸ List.prefix_rfl)
      · exact .inr (hp.take 28)
    constructor
    · intro hst
      refine .inr fun hp => ?_
      exact IsoTime.not_lt_of_prefix heq hfrac hp hst
    · rintro (hne | hnot)
      · exact absurd heq hne
      · exact IsoTime.lt_of_firstLess heq (hcases.resolve_right hnot)

/-- Midnight of a new year, and what follows the seconds. -/
def newYear (fraction : Option Bytes) (zone : Option UInt8)
    (hf : ∀ f ∈ fraction, f ≠ [] ∧ f.all isDigitByte = true)
    (hz : ∀ c ∈ zone, c = 0x5A ∨ c = 0x7A) : IsoTime where
  year := 2024
  month := 1
  day := 1
  hour := 0
  minute := 0
  second := 0
  fraction := fraction
  zone := zone
  year_lt := by decide
  date_valid := by decide
  hour_lt := by decide
  minute_lt := by decide
  second_lt := by decide
  fraction_digits f h := ⟨(hf f h).1, List.all_eq_true.mp (hf f h).2⟩
  zone_letter := hz

theorem storedTimestamp_lt_iff_quarter :
    ∃ a b : IsoTime, a.text = ascii "2024-01-01T00:00:00.25z" ∧
      b.text = ascii "2024-01-01T00:00:00.5" ∧
      ∃ s t, normalizeNvdTimestamp a.text = some s ∧ normalizeNvdTimestamp b.text = some t ∧
        s < t := by
  have hlt : (newYear (some [0x32, 0x35]) (some 0x7A) (by rintro _ ⟨⟩; decide) (by simp)).instant <
      (newYear (some [0x35]) none (by rintro _ ⟨⟩; decide) (by simp)).instant := by
    show _ + fractionValue [0x32, 0x35] < _ + fractionValue [0x35]
    refine add_lt_add_of_le_of_lt (le_refl _) ?_
    show (((2 : ℕ) : ℚ) + (((5 : ℕ) : ℚ) + 0) / 10) / 10 < (((5 : ℕ) : ℚ) + 0) / 10
    norm_num
  obtain ⟨s, t, hs, ht, hst⟩ := storedTimestamp_lt_iff hlt
  exact ⟨_, _, by decide, by decide, s, t, hs, ht, hst.mpr (.inr (by decide))⟩

/-- Half a second later, and stored as the smaller text. -/
theorem storedTimestamp_out_of_order :
    ∃ a b : IsoTime, a.text = ascii "2024-01-01T00:00:00" ∧
      b.text = ascii "2024-01-01T00:00:00.500" ∧ a.instant < b.instant ∧
      normalizeNvdTimestamp a.text = some (ascii "2024-01-01T00:00:00Z") ∧
      normalizeNvdTimestamp b.text = some (ascii "2024-01-01T00:00:00.500Z") ∧
      ¬ ascii "2024-01-01T00:00:00Z" < ascii "2024-01-01T00:00:00.500Z" := by
  refine ⟨newYear none none (by simp) (by simp),
    newYear (some [0x35, 0x30, 0x30]) none (by rintro _ ⟨⟩; decide) (by simp), by decide,
    by decide, ?_, by decide, by decide, by decide⟩
  show _ + fractionValue [] < _ + fractionValue [0x35, 0x30, 0x30]
  refine add_lt_add_of_le_of_lt (le_refl _) ?_
  show (0 : ℚ) < (((5 : ℕ) : ℚ) + (((0 : ℕ) : ℚ) + (((0 : ℕ) : ℚ) + 0) / 10) / 10) / 10
  norm_num

end Cytadel.Db
