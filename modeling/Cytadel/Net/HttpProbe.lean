import Cytadel.Net.HttpHead

/-!
# The reply to the HTTP probe

`src/net/http_probe.c`. Of the header only `Server` is kept, and of the body
the text of the first `<title>`.
-/

namespace Cytadel.Net

open Cytadel Lib

/-- The size of `server` and of `title` in `cytadel_http_probe_result_t`. -/
def probeTextMax : ℕ := 256

/-- `cytadel_http_probe_result_t`; the lengths are those of the texts. -/
structure HttpProbeResult where
  status : ℤ
  server : Bytes
  title : Bytes
  deriving DecidableEq, Repr

/-- `strncasecmp(buf + i, tag, strlen(tag)) == 0`, for a tag in lower case. -/
def tagAt (buf : Bytes) (i : ℕ) (tag : Bytes) : Option Bool := do
  let text ← readSlice buf i tag.length
  some (text.map toLowerAscii == tag)

/-- `name_len == 6 && strncasecmp(buf + line_start, "Server", 6) == 0`. -/
def isServerName (buf : Bytes) (lineStart nameLen : ℕ) : Option Bool :=
  if nameLen == 6 then tagAt buf lineStart (ascii "server") else some false

/-- What the probe does with a header line that holds a `:`. -/
def onServer (buf : Bytes) (server : Bytes) (lineStart colon stop : ℕ) : Option Bytes := do
  let start ← valueStart buf colon stop
  if ← isServerName buf lineStart (colon - lineStart) then
    readSlice buf start
      (if stop - start < probeTextMax - 1 then stop - start else probeTextMax - 1)
  else some server

/-- The search for a tag, `n` being how many indices are left. -/
def tagLoop (body tag : Bytes) : ℕ → ℕ → Option (Option ℕ)
  | 0, _ => some none
  | n + 1, i => do
      if i + tag.length ≤ body.length then
        if ← tagAt body i tag then some (some i) else tagLoop body tag n (i + 1)
      else some none

/-- The two loops over the body. -/
def titleSearch (body : Bytes) : Option Bytes := do
  match ← tagLoop body (ascii "<title>") (body.length + 1) 0 with
  | none => some []
  | some i =>
      let titleStart := i + 7
      match ← tagLoop body (ascii "</title>") (body.length + 1) titleStart with
      | none => some []
      | some j =>
          readSlice body titleStart
            (if j - titleStart < probeTextMax - 1 then j - titleStart else probeTextMax - 1)

/-- `cytadel_http_parse_response`. -/
def httpParseResponse (buf : Bytes) : Option HttpProbeResult :=
  if buf.length = 0 then some ⟨-1, [], []⟩
  else do
    let status ← statusLine buf
    let pos ← statusLineEnd buf
    let (server, blank) ← headerLoop buf (onServer buf) buf.length pos []
    let headersEnd := blank.getD buf.length
    if headersEnd ≥ buf.length then some ⟨status, server, []⟩
    else do
      let title ← titleSearch (buf.drop headersEnd)
      some ⟨status, server, title⟩

end Cytadel.Net
