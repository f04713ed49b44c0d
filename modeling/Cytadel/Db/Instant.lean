import Mathlib.Algebra.Group.Nat.Defs
import Mathlib.Data.Nat.Init
import Mathlib.Tactic.Basic
import Cytadel.Bytes

/-!
# Instants

The calendar and timestamp functions of `src/db/nvd_catchup.c`. Days are
counted from 1970-01-01, in the proleptic Gregorian calendar; `long long` is
the integers, and division is the one of C, which cuts towards zero.
-/

namespace Cytadel.Db

open Cytadel

/-- `days_from_civil`. -/
def daysFromCivil (y m d : ℤ) : ℤ :=
  let y := y - if m ≤ 2 then 1 else 0
  let era := (if y ≥ 0 then y else y - 399).tdiv 400
  let yoe := y - era * 400
  let doy := (153 * (m + if m > 2 then -3 else 9) + 2).tdiv 5 + d - 1
  let doe := yoe * 365 + yoe.tdiv 4 - yoe.tdiv 100 + doy
  era * 146097 + doe - 719468

structure Civil where
  y : ℤ
  m : ℤ
  d : ℤ
  deriving DecidableEq, Repr

/-- `civil_from_days`. -/
def civilFromDays (z : ℤ) : Civil :=
  let z := z + 719468
  let era := (if z ≥ 0 then z else z - 146096).tdiv 146097
  let doe := z - era * 146097
  let yoe := (doe - doe.tdiv 1460 + doe.tdiv 36524 - doe.tdiv 146096).tdiv 365
  let yy := yoe + era * 400
  let doy := doe - (365 * yoe + yoe.tdiv 4 - yoe.tdiv 100)
  let mp := (5 * doy + 2).tdiv 153
  let dd := doy - (153 * mp + 2).tdiv 5 + 1
  let mm := mp + if mp < 10 then 3 else -9
  ⟨yy + if mm ≤ 2 then 1 else 0, mm, dd⟩

/-- `is_valid_ymd`. -/
def isValidYmd (c : Civil) : Bool :=
  if c.m < 1 || c.m > 12 || c.d < 1 || c.d > 31 then false
  else civilFromDays (daysFromCivil c.y c.m c.d) == c

/-- `cytadel_instant_t`. -/
structure Instant where
  days : ℤ
  msOfDay : ℤ
  deriving DecidableEq, Repr

/-- `instant_compare(a, b) < 0`. -/
def Instant.before (a b : Instant) : Bool :=
  if a.days ≠ b.days then decide (a.days < b.days) else decide (a.msOfDay < b.msOfDay)

/-- `instant_add_days`. -/
def Instant.addDays (i : Instant) (n : ℤ) : Instant := { i with days := i.days + n }

/-! ## Reading -/

/-- `read_digits`: exactly so many digits, and what comes after them. -/
def readDigits : ℕ → Bytes → ℕ → Option (ℕ × Bytes)
  | 0, s, val => some (val, s)
  | _ + 1, [], _ => none
  | n + 1, c :: s, val =>
      if isDigitByte c then readDigits n s (val * 10 + (c.toNat - 0x30)) else none

/-- One expected byte. -/
def readByte (accepted : Bytes) : Bytes → Option Bytes
  | [] => none
  | c :: s => if accepted.contains c then some s else none

/-- The digits of a fraction: how many, and their value up to the ninth. -/
def readFraction : Bytes → ℕ → ℕ → ℕ × ℕ × Bytes
  | [], digits, val => (digits, val, [])
  | c :: s, digits, val =>
      if isDigitByte c then
        readFraction s (digits + 1) (if digits < 9 then val * 10 + (c.toNat - 0x30) else val)
      else (digits, val, c :: s)

/-- The optional fraction of a second, in milliseconds. -/
def readMillis (s : Bytes) : Option (ℕ × Bytes) :=
  match s with
  | 0x2E :: s =>
      let (digits, val, rest) := readFraction s 0 0
      if digits == 0 || digits > 9 then none
      else if digits ≥ 3 then some (val / 10 ^ (digits - 3), rest)
      else some (val * 10 ^ (3 - digits), rest)
  | _ => some (0, s)

/-- The date in front of an instant. -/
def readDate (s : Bytes) : Option (ℤ × Bytes) := do
  let (year, s) ← readDigits 4 s 0
  let s ← readByte [0x2D] s
  let (month, s) ← readDigits 2 s 0
  let s ← readByte [0x2D] s
  let (day, s) ← readDigits 2 s 0
  if !isValidYmd ⟨year, month, day⟩ then none
  else some (daysFromCivil year month day, s)

/-- The time of day, and the closing `Z`, to the end of the string. -/
def readTime (s : Bytes) : Option ℤ := do
  let (hh, s) ← readDigits 2 s 0
  if hh > 23 then none
  let s ← readByte [0x3A] s
  let (mm, s) ← readDigits 2 s 0
  if mm > 59 then none
  let s ← readByte [0x3A] s
  let (ss, s) ← readDigits 2 s 0
  if ss > 59 then none
  let (millis, s) ← readMillis s
  let s := (readByte [0x5A, 0x7A] s).getD s
  if !s.isEmpty then none
  some ((((hh * 60 + mm) * 60 + ss) * 1000 + millis : ℕ) : ℤ)

/-- `parse_instant`. -/
def parseInstant (s : Bytes) : Option Instant :=
  if s.isEmpty || s.length > 40 then none
  else
    match readDate s with
    | none => none
    | some (days, []) => some ⟨days, 0⟩
    | some (days, rest) => do
        let s ← readByte [0x54, 0x74, 0x20] rest
        let ms ← readTime s
        some ⟨days, ms⟩

/-! ## Writing -/

/-- The last so many decimal digits. -/
def padDigits : ℕ → ℕ → Bytes
  | 0, _ => []
  | n + 1, v => padDigits n (v / 10) ++ [UInt8.ofNat (0x30 + v % 10)]

/-- `format_instant`. No field is wider than its conversion: the year is
checked, and a month or a day has at most two digits. It is sealed: nothing
unfolds the calendar but what is proved of it. -/
@[irreducible] def formatInstant (i : Instant) : Option Bytes :=
  let c := civilFromDays i.days
  if c.y < 0 || c.y > 9999 then none
  else if i.msOfDay < 0 || i.msOfDay ≥ 86400000 then none
  else
    let ms := i.msOfDay.toNat
    some (padDigits 4 c.y.toNat ++ ascii "-" ++ padDigits 2 c.m.toNat ++ ascii "-" ++
      padDigits 2 c.d.toNat ++ ascii "T" ++ padDigits 2 (ms / 3600000) ++ ascii ":" ++
      padDigits 2 (ms / 60000 % 60) ++ ascii ":" ++ padDigits 2 (ms / 1000 % 60) ++ ascii "." ++
      padDigits 3 (ms % 1000) ++ ascii "Z")

end Cytadel.Db
