import Mathlib.Algebra.Group.Nat.Defs
import Mathlib.Data.Nat.Init
import Cytadel.Bytes

/-!
# The report buffer and its escapers

`src/report/escape.c`. The buffer grows by doubling, and every request for
memory may be refused; which ones are, the schedule `alloc` tells by their
number. An escaper appends one piece for each byte of its input and stops at
the first piece that is refused, so that no piece is ever cut.
-/

namespace Cytadel.Report

open Cytadel

/-- SIZE_MAX. -/
def sizeMax : ℕ := 2 ^ 64 - 1

/-- `cytadel_report_buf_t`, with the number of requests for memory so far. -/
structure ReportBuf where
  data : Bytes
  cap : ℕ
  allocs : ℕ
  deriving DecidableEq, Repr

/-- `cytadel_report_buf_init`. -/
def ReportBuf.empty (allocs : ℕ) : ReportBuf := ⟨[], 0, allocs⟩

/-- The doubling loop of `buf_reserve`; it ends within as many turns as a size
has bits. -/
def growCap (need : ℕ) : ℕ → ℕ → ℕ
  | 0, cap => cap
  | turns + 1, cap =>
      if cap ≥ need then cap
      else if cap > sizeMax / 2 then need
      else growCap need turns (cap * 2)

section

variable (alloc : ℕ → Bool)

/-- `buf_reserve`. -/
def bufReserve (extra : ℕ) (b : ReportBuf) : Bool × ReportBuf :=
  if b.data.length > sizeMax - 1 then (false, b)
  else if extra > sizeMax - (b.data.length + 1) then (false, b)
  else
    let need := b.data.length + 1 + extra
    if need ≤ b.cap then (true, b)
    else if alloc b.allocs then (false, { b with allocs := b.allocs + 1 })
    else
      (true, { b with
        cap := growCap need 64 (if b.cap = 0 then 64 else b.cap)
        allocs := b.allocs + 1 })

/-- `buf_append`. -/
def bufAppend (src : Bytes) (b : ReportBuf) : Bool × ReportBuf :=
  let reserved := bufReserve alloc src.length b
  if !reserved.1 then (false, reserved.2)
  else (true, { reserved.2 with data := reserved.2.data ++ src })

/-- Appends in order, up to the first that is refused. -/
def appendAll : List Bytes → ReportBuf → Bool × ReportBuf
  | [], b => (true, b)
  | src :: rest, b =>
      let r := bufAppend alloc src b
      if !r.1 then (false, r.2) else appendAll rest r.2

/-- A call of `malloc` that leaves the buffer alone. -/
def takeMemory (b : ReportBuf) : Bool × ReportBuf :=
  (!alloc b.allocs, { b with allocs := b.allocs + 1 })

end

/-! ## HTML -/

/-- `html_escape_one`. -/
def htmlEscapeOne (escapeQuotes : Bool) (c : UInt8) : Bytes :=
  if c = 0x26 then ascii "&amp;"
  else if c = 0x3C then ascii "&lt;"
  else if c = 0x3E then ascii "&gt;"
  else if c = 0x22 then if escapeQuotes then ascii "&quot;" else [c]
  else if c = 0x27 then if escapeQuotes then ascii "&#39;" else [c]
  else [c]

/-- `cytadel_escape_html_body`, as the pieces it appends. -/
def escapeHtmlBody (input : Bytes) : List Bytes := input.map (htmlEscapeOne false)

/-- `cytadel_escape_html_attr`. -/
def escapeHtmlAttr (input : Bytes) : List Bytes := input.map (htmlEscapeOne true)

/-! ## URLs -/

def isAlphaAscii (c : UInt8) : Bool := (0x41 ≤ c && c ≤ 0x5A) || (0x61 ≤ c && c ≤ 0x7A)

def isSchemeChar (c : UInt8) : Bool :=
  isAlphaAscii c || isDigitByte c || c == 0x2B || c == 0x2D || c == 0x2E

/-- Tab, line feed, carriage return. -/
def isUrlBlank (c : UInt8) : Bool := c == 0x09 || c == 0x0A || c == 0x0D

/-- `url_has_disallowed_control`. -/
def urlHasDisallowedControl (input : Bytes) : Bool :=
  input.any fun c => !isUrlBlank c && (c < 0x20 || c == 0x7F)

/-- `url_is_safe_char`. -/
def urlIsSafeChar (c : UInt8) : Bool :=
  isAlphaAscii c || isDigitByte c || (ascii "-_.~:/?#[]@!$()*+,;=%").contains c

def hexDigitUpper (nibble : ℕ) : UInt8 :=
  .ofNat (if nibble < 10 then 0x30 + nibble else 0x41 + (nibble - 10))

def hexDigitLower (nibble : ℕ) : UInt8 :=
  .ofNat (if nibble < 10 then 0x30 + nibble else 0x61 + (nibble - 10))

/-- One turn of `url_percent_encode_append`. -/
def urlEncodeOne (c : UInt8) : Bytes :=
  if urlIsSafeChar c then [c]
  else [0x25, hexDigitUpper (c.toNat / 16), hexDigitUpper (c.toNat % 16)]

/-- The cleaned value: without blanks, and without spaces at its ends. -/
def urlClean (input : Bytes) : Bytes :=
  let kept := input.filter fun c => !isUrlBlank c
  ((kept.dropWhile (· == 0x20)).reverse.dropWhile (· == 0x20)).reverse

/-- The scheme of a value that has one. -/
def urlScheme (clean : Bytes) : Option Bytes :=
  match clean with
  | c :: cs =>
      if isAlphaAscii c then
        match cs.dropWhile isSchemeChar with
        | 0x3A :: _ => some (c :: cs.takeWhile isSchemeChar)
        | _ => none
      else none
  | [] => none

/-- `scheme_equals_ci`. -/
def schemeEqualsCi (s lowercase : Bytes) : Bool := s.map toLowerAscii == lowercase

def urlAllowed (clean : Bytes) : Bool :=
  match urlScheme clean with
  | some scheme => schemeEqualsCi scheme (ascii "http") || schemeEqualsCi scheme (ascii "https")
  | none =>
      match clean with
      -- a protocol-relative URL leaves the site
      | 0x2F :: c :: _ => !(c == 0x2F || c == 0x5C)
      | _ => true

/-- The pieces that `cytadel_escape_url` appends. -/
def escapeUrl (input : Bytes) : List Bytes :=
  if input.isEmpty then []
  else if urlHasDisallowedControl input then [ascii "#"]
  else
    let clean := urlClean input
    if urlAllowed clean then clean.map urlEncodeOne else [ascii "#"]

/-- Does it get as far as its copy of the input? -/
def urlTakesMemory (input : Bytes) : Bool :=
  !input.isEmpty && !urlHasDisallowedControl input

/-! ## JSON -/

/-- One byte of `cytadel_escape_json`. -/
def jsonEscapeOne (c : UInt8) : Bytes :=
  if c = 0x22 then ascii "\\\""
  else if c = 0x5C then ascii "\\\\"
  else if c = 0x08 then ascii "\\b"
  else if c = 0x0C then ascii "\\f"
  else if c = 0x0A then ascii "\\n"
  else if c = 0x0D then ascii "\\r"
  else if c = 0x09 then ascii "\\t"
  else if c < 0x20 then
    [0x5C, 0x75, 0x30, 0x30, hexDigitLower (c.toNat / 16), hexDigitLower (c.toNat % 16)]
  else [c]

/-- `cytadel_escape_json`. -/
def escapeJson (input : Bytes) : List Bytes := input.map jsonEscapeOne

end Cytadel.Report
