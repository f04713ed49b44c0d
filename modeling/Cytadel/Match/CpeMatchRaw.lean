import Cytadel.Match.CpeMatch

/-!
# The evaluator on pointers

`src/match/cpe_match.c` once more, with a text field as the pointer and the
length that it is: a NULL may stand beside any length. A read through a NULL
pointer has no result. The comparator comes with a guard of its own.
-/

namespace Cytadel.Match

open Cytadel

/-- A pointer and its length. -/
inductive TextField
  | null (len : ℕ)
  | buf (text : Bytes)
  deriving DecidableEq, Repr

namespace TextField

def len : TextField → ℕ
  | null len => len
  | buf text => text.length

def isNull : TextField → Bool
  | null _ => true
  | buf _ => false

/-- `s[i]`. -/
def read : TextField → ℕ → Option UInt8
  | null _, _ => none
  | buf text, i => text[i]?

/-- All the bytes of the field; of a NULL pointer there are none to read. -/
def readAll : TextField → Option Bytes
  | null 0 => some []
  | null (_ + 1) => none
  | buf text => some text

end TextField

/-- `cytadel_cpe_match_row_t`. -/
structure CpeMatchRowRaw where
  version : TextField
  versionStartIncluding : TextField
  versionStartExcluding : TextField
  versionEndIncluding : TextField
  versionEndExcluding : TextField
  vulnerable : Int
  deriving DecidableEq, Repr

/-- `cytadel_version_compare`, with the guard that it starts with. -/
def versionCompareRaw (a b : TextField) : Option Vercmp :=
  if (a.isNull && a.len > 0) || (b.isNull && b.len > 0) then some .undecidable
  else do
    let a ← a.readAll
    let b ← b.readAll
    some (versionCompare a b)

/-- `cytadel_cpe_is_star`. -/
def cpeIsStarRaw (s : TextField) : Option Bool :=
  if !s.isNull && s.len == 1 then (s.read 0).map fun c => c == 0x2A else some false

/-- The loop of `cytadel_cpe_bound_is_sentinel_only`, with the number of bytes
still to look at. -/
def sentinelLoop (s : TextField) : ℕ → ℕ → Option Bool
  | 0, _ => some true
  | left + 1, i =>
      match s.read i with
      | none => none
      | some c => if c != 0x2A && c != 0x2D then some false else sentinelLoop s left (i + 1)

/-- `cytadel_cpe_bound_is_sentinel_only`. -/
def cpeBoundIsSentinelOnlyRaw (s : TextField) : Option Bool :=
  if s.len == 0 then some false else sentinelLoop s s.len 0

/-- The bound loop. A sentinel-only bound leaves it at once, with `some none`. -/
def scanBoundsRaw (detected : TextField) :
    List (TextField × BoundKind) → BoundScan → Option (Option BoundScan)
  | [], acc => some (some acc)
  | (bound, kind) :: rest, acc =>
      if bound.len == 0 then scanBoundsRaw detected rest acc
      else
        match cpeBoundIsSentinelOnlyRaw bound with
        | none => none
        | some true => some none
        | some false =>
            match versionCompareRaw detected bound with
            | none => none
            | some cmp =>
                let acc := { acc with anySet := true }
                match cpeBoundVerdict kind cmp with
                | .pass => scanBoundsRaw detected rest acc
                | .fail => scanBoundsRaw detected rest { acc with anyFail := true }
                | .undecidable => scanBoundsRaw detected rest { acc with anyUndecidable := true }

/-- The four bounds of a row, in the order of the source's array. -/
def CpeMatchRowRaw.bounds (row : CpeMatchRowRaw) : List (TextField × BoundKind) :=
  [(row.versionStartIncluding, .startIncluding),
    (row.versionStartExcluding, .startExcluding),
    (row.versionEndIncluding, .endIncluding),
    (row.versionEndExcluding, .endExcluding)]

/-- `cytadel_cpe_evaluate_range_row`. -/
def cpeEvaluateRangeRowRaw (row : CpeMatchRowRaw) (detected : TextField) : Option CpeMatch :=
  match scanBoundsRaw detected row.bounds ⟨false, false, false⟩ with
  | none => none
  | some none => some .malformedRow
  | some (some acc) =>
      if !acc.anySet then some .malformedRow
      else if acc.anyFail then some .noMatch
      else if acc.anyUndecidable then some .undecidable
      else some .matched

/-- `cytadel_cpe_match_evaluate`; a row that is NULL is `none`. -/
def cpeMatchEvaluateRaw (row : Option CpeMatchRowRaw) (detected : TextField) : Option CpeMatch :=
  match row with
  | none => some .undecidable
  | some row =>
      if row.vulnerable == 0 then some .noMatch
      else do
        let star ← cpeIsStarRaw row.version
        if star || row.version.len == 0 then cpeEvaluateRangeRowRaw row detected
        else
          match ← versionCompareRaw detected row.version with
          | .equal => some .matched
          | .undecidable => some .undecidable
          | .less => some .noMatch
          | .greater => some .noMatch

end Cytadel.Match
