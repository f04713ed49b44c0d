import Mathlib.Data.Int.Notation
import Cytadel.Bytes
import Cytadel.Lib.Monitor

/-!
# The log

`src/log/log.c`: a call becomes at most one line, made outside of the lock, and
the line is written to stderr and to the log file inside of it. What a thread
writes arrives in pieces. The two streams take what they are given.
-/

namespace Cytadel.Log

open Cytadel Lib

/-- `cytadel_log_level_t`. -/
inductive LogLevel
  | debug
  | info
  | warn
  | error
  | audit
  deriving DecidableEq, Repr

/-- Its number. -/
def LogLevel.rank : LogLevel → ℕ
  | .debug => 0
  | .info => 1
  | .warn => 2
  | .error => 3
  | .audit => 4

/-- `cytadel_log_level_from_string`; the comparison is that of `strcasecmp`. -/
def logLevelFromString (name : Bytes) : Option LogLevel :=
  let name := name.map toLowerAscii
  if name = ascii "debug" then some .debug
  else if name = ascii "info" then some .info
  else if name = ascii "warn" then some .warn
  else if name = ascii "error" then some .error
  else none

/-- `cytadel_log_level_to_string`. -/
def logLevelToString : LogLevel → Bytes
  | .debug => ascii "DEBUG"
  | .info => ascii "INFO"
  | .warn => ascii "WARN"
  | .error => ascii "ERROR"
  | .audit => ascii "AUDIT"

/-! ## The timestamp -/

/-- The wall clock in UTC, as `gmtime_r` takes it apart. -/
structure TmUtc where
  year : ℤ
  mon : ℤ
  mday : ℤ
  hour : ℤ
  min : ℤ
  sec : ℤ
  msec : ℤ
  deriving DecidableEq, Repr

/-- `%0wd`: the sign counts for the width. -/
def zeroPadded (w : ℕ) (v : ℤ) : Bytes :=
  let digits := decimal v.natAbs
  if v < 0 then 0x2D :: (List.replicate (w - 1 - digits.length) 0x30 ++ digits)
  else List.replicate (w - digits.length) 0x30 ++ digits

/-- CYTADEL_ISO8601_BUF_LEN. -/
def iso8601BufLen : ℕ := 32

/-- `cytadel_log_format_timestamp_utc`, where the clock may not be read. -/
def logFormatTimestampUtc (now : Option TmUtc) (bufLen : ℕ) : Option Bytes :=
  if bufLen < iso8601BufLen then none
  else
    match now with
    | none => none
    | some tm =>
        let text := zeroPadded 4 tm.year ++ ascii "-" ++ zeroPadded 2 tm.mon ++ ascii "-" ++
          zeroPadded 2 tm.mday ++ ascii "T" ++ zeroPadded 2 tm.hour ++ ascii ":" ++
          zeroPadded 2 tm.min ++ ascii ":" ++ zeroPadded 2 tm.sec ++ ascii "." ++
          zeroPadded 3 tm.msec ++ ascii "Z"
        if text.length ≥ bufLen then none else some text

/-! ## The text -/

/-- CYTADEL_LOG_MSG_MAX. -/
def logMsgMax : ℕ := 4096

/-- CYTADEL_LOG_SANITIZED_MAX. -/
def logSanitizedMax : ℕ := logMsgMax * 4 + 1

/-- A digit of `%02x`. -/
def hexDigit (n : ℕ) : UInt8 := if n < 10 then UInt8.ofNat (0x30 + n) else UInt8.ofNat (0x57 + n)

/-- A control byte, which would break a line or a terminal. -/
def isControl (c : UInt8) : Bool := c < 0x20 || c == 0x7F

/-- What one byte becomes. -/
def sanitizeByte (c : UInt8) : Bytes :=
  if isControl c then [0x5C, 0x78, hexDigit (c.toNat / 16), hexDigit (c.toNat % 16)] else [c]

/-- The loop of `cytadel_log_sanitize`. -/
def sanitizeLoop (outLen : ℕ) : Bytes → Bytes → Bytes
  | [], out => out
  | c :: rest, out =>
      if out.length + (sanitizeByte c).length ≥ outLen then out
      else sanitizeLoop outLen rest (out ++ sanitizeByte c)

/-- `cytadel_log_sanitize`. -/
def logSanitize (text : Bytes) (outLen : ℕ) : Bytes :=
  if outLen = 0 then [] else sanitizeLoop outLen (cstr text) []

/-! ## A call -/

/-- A call of the log: what the clock says, and the text that its format and
arguments make, if they make one. -/
structure LogCall where
  level : LogLevel
  now : Option TmUtc
  text : Option Bytes
  deriving DecidableEq, Repr

/-- The line of a call. -/
def logText (call : LogCall) : Bytes :=
  let timestamp := (logFormatTimestampUtc call.now iso8601BufLen).getD
    (ascii "0000-00-00T00:00:00.000Z")
  let message :=
    match call.text with
    | some text => cstr (text.take (logMsgMax - 1))
    | none => ascii "<log message formatting error>"
  timestamp ++ ascii " [" ++ logLevelToString call.level ++ ascii "] " ++
    logSanitize message logSanitizedMax ++ [0x0A]

/-- `cytadel_log_vwrite` before the lock: the line, if there is one. -/
def logLine (minLevel : LogLevel) (call : LogCall) : Option Bytes :=
  if call.level ≠ .audit ∧ call.level.rank < minLevel.rank then none else some (logText call)

/-- What a thread does with the log. -/
inductive LogRequest
  | write (call : LogCall)
  | close
  deriving DecidableEq, Repr

/-- What it does in the lock. -/
inductive LogJob
  | line (text : Bytes)
  | close
  deriving DecidableEq, Repr

inductive Sink
  | stderr
  | file
  deriving DecidableEq, Repr

/-- A byte of a stream. -/
abbrev Written := Sink × UInt8

/-- The log as threads share it; the state behind the lock is whether
`g_log_file` is there. -/
def logMonitor (minLevel : LogLevel) : Monitor LogRequest LogJob Bool Written where
  asks
    | .write call => (logLine minLevel call).map .line
    | .close => some .close
  body
    | .line text, isOpen =>
        (text.map (Prod.mk .stderr) ++ (if isOpen then text.map (Prod.mk .file) else []), isOpen)
    | .close, _ => ([], false)

end Cytadel.Log
