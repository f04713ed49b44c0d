import Cytadel.Bytes

/-!
# The version comparator

`src/match/version_compare.c`, function by function. The C code walks two
buffers with a pair of positions; here a position is the suffix of the buffer
that starts at it, so `nextToken` returns the token together with the suffix
after it. The two loops, `residualVerdict` and the lockstep of
`versionCompare`, consume at least one byte per round, and run on fuel one
above the length of what they walk.

A version is a byte string of any length. The NULL checks of the C entry
point have no counterpart: a NULL pointer with length zero is the empty
string.
-/

namespace Cytadel.Match

open Cytadel

/-- `cytadel_vercmp_t`. -/
inductive Vercmp
  | less
  | equal
  | greater
  | undecidable
  deriving DecidableEq, Repr

/-- The three delimiters `.`, `-` and `_`. -/
def isDelimByte (c : UInt8) : Bool := c == 0x2E || c == 0x2D || c == 0x5F

/-- Drops one `v` or `V` that stands directly before a digit. -/
def stripVPrefix : Bytes → Bytes
  | v :: d :: rest =>
      if (v == 0x76 || v == 0x56) && isDigitByte d then d :: rest
      else v :: d :: rest
  | s => s

/-- A control byte, DEL, or anything outside ASCII. -/
def hasDisallowedByte (s : Bytes) : Bool :=
  s.any fun c => c < 0x20 || c == 0x7F || 0x80 ≤ c

/-- The two kinds of component; `CYTADEL_TOK_NONE` is the `none` of
`nextToken`. -/
inductive TokType
  | num
  | alpha
  deriving DecidableEq, Repr

/-- One component: its kind, its bytes, and whether a delimiter was skipped
right before it (`delim_skipped`, a detached component) or not (an attached
one). -/
structure Token where
  typ : TokType
  text : Bytes
  delimSkipped : Bool
  deriving DecidableEq, Repr

/-- A byte that continues an alpha run. -/
def isAlphaByte (c : UInt8) : Bool := !isDigitByte c && !isDelimByte c

/-- The next component of `buf` and the suffix after it. -/
def nextToken (buf : Bytes) : Option (Token × Bytes) :=
  let p := buf.dropWhile isDelimByte
  let skipped := p.length != buf.length
  match p with
  | [] => none
  | c :: _ =>
      if isDigitByte c then
        some (⟨.num, p.takeWhile isDigitByte, skipped⟩, p.dropWhile isDigitByte)
      else
        some (⟨.alpha, p.takeWhile isAlphaByte, skipped⟩, p.dropWhile isAlphaByte)

/-- Digit runs by value, without converting them: leading zeros go, then the
longer run wins, then the bytes decide. -/
def cmpDigitRuns (a b : Bytes) : Vercmp :=
  let ea := a.dropWhile (· == 0x30)
  let eb := b.dropWhile (· == 0x30)
  if ea.length != eb.length then
    if ea.length < eb.length then .less else .greater
  else
    match memcmp ea eb with
    | .lt => .less
    | .gt => .greater
    | .eq => .equal

/-- Case-insensitive order of two alpha runs, the shorter first on a tie. -/
def alphaCmpCi : Bytes → Bytes → Ordering
  | x :: xs, y :: ys =>
      if toLowerAscii x != toLowerAscii y then
        if toLowerAscii x < toLowerAscii y then .lt else .gt
      else alphaCmpCi xs ys
  | [], [] => .eq
  | [], _ :: _ => .lt
  | _ :: _, [] => .gt

/-- `CYTADEL_PRERELEASE_KEYWORDS`. -/
def prereleaseKeywords : List Bytes :=
  [ascii "alpha", ascii "beta", ascii "rc", ascii "pre", ascii "preview",
    ascii "dev", ascii "devel", ascii "snapshot", ascii "nightly",
    ascii "test", ascii "unstable", ascii "alfa", ascii "milestone"]

/-- `CYTADEL_RELEASE_EQUIVALENT_KEYWORDS`. -/
def releaseEquivalentKeywords : List Bytes :=
  [ascii "ga", ascii "final", ascii "release", ascii "stable"]

/-- The whole token is a word of the table, up to case. -/
def inTable (table : List Bytes) (s : Bytes) : Bool :=
  table.any fun w => s.length == w.length && alphaCmpCi s w == .eq

def isPrereleaseKeyword (s : Bytes) : Bool := inTable prereleaseKeywords s

def isReleaseEquivalentKeyword (s : Bytes) : Bool :=
  inTable releaseEquivalentKeywords s

/-- 0 for a pre-release keyword, 1 for a release-equivalent one, 2 for text
neither table knows. -/
def alphaKeywordRank (s : Bytes) : Nat :=
  if isPrereleaseKeyword s then 0
  else if isReleaseEquivalentKeyword s then 1
  else 2

def isAllZeroDigits (s : Bytes) : Bool := s.all (· == 0x30)

/-- A lone `a`, `b` or `c` with a digit right behind it: `rest` is the buffer
after the token. -/
def isAmbiguousAttachedLetter (s rest : Bytes) : Bool :=
  match s with
  | [l] =>
      let c := toLowerAscii l
      if c != 0x61 && c != 0x62 && c != 0x63 then false
      else
        match rest with
        | [] => false
        | d :: _ => isDigitByte d
  | _ => false

/-- The loop of `cytadel_residual_verdict`. -/
def residualGo : Nat → Bytes → Vercmp
  | 0, _ => .undecidable
  | fuel + 1, buf =>
      match nextToken buf with
      | none => .equal
      | some (t, rest) =>
          match t.typ with
          | .num =>
              if !isAllZeroDigits t.text then .greater
              else residualGo fuel rest
          | .alpha =>
              if isPrereleaseKeyword t.text then .less
              else if isReleaseEquivalentKeyword t.text then residualGo fuel rest
              else if !t.delimSkipped then
                if isAmbiguousAttachedLetter t.text rest then .undecidable
                else .greater
              else .undecidable

/-- What the components one side still has say about it, the other side being
exhausted. -/
def residualVerdict (buf : Bytes) : Vercmp := residualGo (buf.length + 1) buf

/-- An optional leading `[0-9]+:`; absent, the epoch is `0`. -/
def splitEpoch (s : Bytes) : Bytes × Bytes :=
  let epoch := s.takeWhile isDigitByte
  match epoch, s.dropWhile isDigitByte with
  | _ :: _, 0x3A :: rest => (epoch, rest)
  | _, _ => (ascii "0", s)

/-- Everything before the first `+`. -/
def cutBuildMetadata (s : Bytes) : Bytes := s.takeWhile (· != 0x2B)

/-- The residual of the second argument, read from the first one's side. -/
def Vercmp.mirror : Vercmp → Vercmp
  | .less => .greater
  | .equal => .equal
  | .greater => .less
  | .undecidable => .undecidable

/-- Two alpha components at one position: the rank decides, and only within
one rank the text. `equal` means that the walk goes on. -/
def cmpAlphaTokens (a b : Bytes) : Vercmp :=
  let rankA := alphaKeywordRank a
  let rankB := alphaKeywordRank b
  if rankA != rankB then
    if rankA == 2 || rankB == 2 then .undecidable
    else if rankA > rankB then .greater else .less
  else if rankA == 1 then .equal
  else
    match alphaCmpCi a b with
    | .lt => .less
    | .gt => .greater
    | .eq => .equal

/-- The lockstep loop of `cytadel_version_compare`. -/
def lockstepGo : Nat → Bytes → Bytes → Vercmp
  | 0, _, _ => .undecidable
  | fuel + 1, bufA, bufB =>
      match nextToken bufA, nextToken bufB with
      | none, none => .equal
      | none, some _ => (residualVerdict bufB).mirror
      | some _, none => residualVerdict bufA
      | some (ta, restA), some (tb, restB) =>
          let v :=
            match ta.typ, tb.typ with
            | .num, .num => cmpDigitRuns ta.text tb.text
            | .alpha, .alpha => cmpAlphaTokens ta.text tb.text
            | _, _ => .undecidable
          if v != .equal then v else lockstepGo fuel restA restB

/-- `cytadel_version_compare`. -/
def versionCompare (a b : Bytes) : Vercmp :=
  if hasDisallowedByte a || hasDisallowedByte b then .undecidable
  else
    let (epochA, tailA) := splitEpoch (stripVPrefix a)
    let (epochB, tailB) := splitEpoch (stripVPrefix b)
    let restA := cutBuildMetadata tailA
    let restB := cutBuildMetadata tailB
    if (nextToken restA).isNone || (nextToken restB).isNone then .undecidable
    else
      let epochCmp := cmpDigitRuns epochA epochB
      if epochCmp != .equal then epochCmp
      else lockstepGo (restA.length + 1) restA restB

end Cytadel.Match
