import Cytadel.Bytes
import Cytadel.Lib.Reads

/-!
# The head of an HTTP response

`cytadel_http_parse` in `src/plugin/api_http.c` and `cytadel_http_parse_response`
in `src/net/http_probe.c` read the status line with the same statements, and
walk the header lines with the same loop but for what they do with a line that
holds a `:`. Every index is that of the source, and every read is checked: a
read at or past `len` has no result.
-/

namespace Cytadel.Net

open Cytadel Lib

/-- The three digits at index `i`, or -1. -/
def statusDigits (buf : Bytes) (i : ℕ) : Option ℤ :=
  if i + 3 ≤ buf.length then do
    let d0 ← buf[i]?
    let d1 ← buf[i + 1]?
    let d2 ← buf[i + 2]?
    if isDigitByte d0 && isDigitByte d1 && isDigitByte d2 then
      some ((d0.toNat - 0x30) * 100 + (d1.toNat - 0x30) * 10 + (d2.toNat - 0x30) : ℕ)
    else some (-1)
  else some (-1)

/-- The status line: `HTTP/`, then whatever there is up to the first space. -/
def statusLine (buf : Bytes) : Option ℤ :=
  if buf.length ≥ 5 then do
    let magic ← readSlice buf 0 5
    if magic != ascii "HTTP/" then some (-1)
    else
      let i ← scanWhile buf (fun c => c != 0x20 && c != 0x0A) (buf.length - 5) 5
      if i < buf.length then
        if (← buf[i]?) == 0x20 then statusDigits buf (i + 1) else some (-1)
      else some (-1)
  else some (-1)

/-- The index behind the status line. -/
def statusLineEnd (buf : Bytes) : Option ℕ := do
  let pos ← scanWhile buf (fun c => c != 0x0A) buf.length 0
  some (if pos < buf.length then pos + 1 else pos)

/-- `content_end`: a carriage return at the end of a line is not of it. -/
def contentEnd (buf : Bytes) (lineStart lineEnd : ℕ) : Option ℕ :=
  if lineEnd > lineStart then do
    let last ← buf[lineEnd - 1]?
    some (if last == 0x0D then lineEnd - 1 else lineEnd)
  else some lineEnd

/-- A space or a tab. -/
def isSpaceOrTab (c : UInt8) : Bool := c == 0x20 || c == 0x09

/-- `value_start`: the index of the value of a header line, behind its `:`. -/
def valueStart (buf : Bytes) (colon stop : ℕ) : Option ℕ :=
  scanWhile buf isSpaceOrTab (stop - (colon + 1)) (colon + 1)

/-- The loop over the header lines. `onHeader` gets `line_start`, `colon` and
`content_end`, which is `stop` here. The result has the index behind the empty
line, where there is one. Every turn moves by a byte at least, and `fuel`
counts the bytes. -/
def headerLoop {σ : Type} (buf : Bytes) (onHeader : σ → ℕ → ℕ → ℕ → Option σ) :
    ℕ → ℕ → σ → Option (σ × Option ℕ)
  | 0, _, st => some (st, none)
  | fuel + 1, lineStart, st =>
      if lineStart < buf.length then do
        let lineEnd ← scanWhile buf (fun c => c != 0x0A) (buf.length - lineStart) lineStart
        let next := if lineEnd < buf.length then lineEnd + 1 else lineEnd
        let stop ← contentEnd buf lineStart lineEnd
        if stop == lineStart then some (st, some next)
        else
          let colon ← scanWhile buf (fun c => c != 0x3A) (stop - lineStart) lineStart
          let st ← if colon < stop then onHeader st lineStart colon stop else some st
          headerLoop buf onHeader fuel next st
      else some (st, none)

end Cytadel.Net
