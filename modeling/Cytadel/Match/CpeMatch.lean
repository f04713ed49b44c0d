import Cytadel.Match.VersionCompare

/-!
# One candidate row against one detected version

`src/match/cpe_match.c`. A row either pins a version or gives a range of up
to four bounds; the bounds are all looked at, and their verdicts combine as a
three-valued AND: a decided failure settles it, then an undecided bound, and
only then a match. A row whose bounds say nothing at all is malformed.

Every text field is the byte string of its pointer and length; a NULL pointer
goes with length zero.
-/

namespace Cytadel.Match

open Cytadel

/-- `cytadel_cpe_match_t`. -/
inductive CpeMatch
  | noMatch
  | matched
  | undecidable
  | malformedRow
  deriving DecidableEq, Repr

/-- `cytadel_cpe_match_row_t`. -/
structure CpeMatchRow where
  version : Bytes
  versionStartIncluding : Bytes
  versionStartExcluding : Bytes
  versionEndIncluding : Bytes
  versionEndExcluding : Bytes
  vulnerable : Int
  deriving DecidableEq, Repr

/-- The one-byte wildcard `*`. -/
def cpeIsStar (s : Bytes) : Bool := s == [0x2A]

inductive BoundKind
  | startIncluding
  | startExcluding
  | endIncluding
  | endExcluding
  deriving DecidableEq, Repr

inductive BoundVerdict
  | pass
  | fail
  | undecidable
  deriving DecidableEq, Repr

/-- What `compare(detected, bound)` says about a bound of this kind. -/
def cpeBoundVerdict (kind : BoundKind) (cmp : Vercmp) : BoundVerdict :=
  if cmp == .undecidable then .undecidable
  else
    match kind with
    | .startIncluding => if cmp == .greater || cmp == .equal then .pass else .fail
    | .startExcluding => if cmp == .greater then .pass else .fail
    | .endIncluding => if cmp == .less || cmp == .equal then .pass else .fail
    | .endExcluding => if cmp == .less then .pass else .fail

/-- Not empty, and nothing but the sentinel bytes `*` and `-`. -/
def cpeBoundIsSentinelOnly (s : Bytes) : Bool :=
  !s.isEmpty && s.all fun c => c == 0x2A || c == 0x2D

/-- The three flags of the bound loop. -/
structure BoundScan where
  anySet : Bool
  anyFail : Bool
  anyUndecidable : Bool
  deriving DecidableEq, Repr

/-- The bound loop. A sentinel-only bound leaves it at once, with `none`. -/
def scanBounds (detected : Bytes) :
    List (Bytes × BoundKind) → BoundScan → Option BoundScan
  | [], acc => some acc
  | (bound, kind) :: rest, acc =>
      if bound.isEmpty then scanBounds detected rest acc
      else if cpeBoundIsSentinelOnly bound then none
      else
        let acc := { acc with anySet := true }
        match cpeBoundVerdict kind (versionCompare detected bound) with
        | .pass => scanBounds detected rest acc
        | .fail => scanBounds detected rest { acc with anyFail := true }
        | .undecidable =>
            scanBounds detected rest { acc with anyUndecidable := true }

/-- The four bounds of a row, in the order of the source's array. -/
def CpeMatchRow.bounds (row : CpeMatchRow) : List (Bytes × BoundKind) :=
  [(row.versionStartIncluding, .startIncluding),
    (row.versionStartExcluding, .startExcluding),
    (row.versionEndIncluding, .endIncluding),
    (row.versionEndExcluding, .endExcluding)]

def cpeEvaluateRangeRow (row : CpeMatchRow) (detected : Bytes) : CpeMatch :=
  match scanBounds detected row.bounds ⟨false, false, false⟩ with
  | none => .malformedRow
  | some acc =>
      if !acc.anySet then .malformedRow
      else if acc.anyFail then .noMatch
      else if acc.anyUndecidable then .undecidable
      else .matched

/-- A row whose version is `*` or empty is judged by its bounds. -/
def CpeMatchRow.isRange (row : CpeMatchRow) : Bool :=
  cpeIsStar row.version || row.version.isEmpty

/-- `cytadel_cpe_match_evaluate`. -/
def cpeMatchEvaluate (row : CpeMatchRow) (detected : Bytes) : CpeMatch :=
  if row.vulnerable == 0 then .noMatch
  else if row.isRange then cpeEvaluateRangeRow row detected
  else
    match versionCompare detected row.version with
    | .equal => .matched
    | .undecidable => .undecidable
    | .less => .noMatch
    | .greater => .noMatch

end Cytadel.Match
