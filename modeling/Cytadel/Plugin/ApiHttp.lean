import Mathlib.Algebra.Group.Nat.Defs
import Cytadel.Net.HttpHead
import Cytadel.Plugin.ApiReport

/-!
# `http_get`

`src/plugin/api_http.c`. A plugin names a port, a path and a table of options.
All of it is checked, the request is built in a buffer that grows, and it is
sent; what comes back is parsed. What Lua converts, what memory, the clock and
the network answer are parameters.
-/

namespace Cytadel.Plugin

open Cytadel Net

/-! ## The response -/

/-- `cytadel_http_header_pair_t`, with the pointers as indices into the buffer. -/
structure HttpHeaderPair where
  nameStart : ℕ
  nameLen : ℕ
  valueStart : ℕ
  valueLen : ℕ
  deriving DecidableEq, Repr

/-- What `cytadel_http_parse` writes through its pointers. -/
structure HttpParsed where
  status : ℤ
  pairs : List HttpHeaderPair
  bodyStart : ℕ
  deriving DecidableEq, Repr

/-- The size of `pairs` in `cytadel_plugin_api_http_get`. -/
def httpPairsMax : ℕ := 128

/-- What the parser does with a header line that holds a `:`. -/
def onPair (buf : Bytes) (pairsCap : ℕ) (pairs : List HttpHeaderPair)
    (lineStart colon stop : ℕ) : Option (List HttpHeaderPair) :=
  if pairs.length < pairsCap then do
    let start ← valueStart buf colon stop
    some (pairs ++ [⟨lineStart, colon - lineStart, start, stop - start⟩])
  else some pairs

/-- `cytadel_http_parse`. -/
def httpParse (buf : Bytes) (pairsCap : ℕ) : Option HttpParsed := do
  let status ← statusLine buf
  let pos ← statusLineEnd buf
  let (pairs, blank) ← headerLoop buf (onPair buf pairsCap) buf.length pos []
  some ⟨status, pairs, blank.getD buf.length⟩

/-- The table that the plugin gets: the status, the headers by name, the body. -/
structure HttpReply where
  status : ℤ
  headers : Bytes → Option Bytes
  body : Bytes

/-- One turn of `cytadel_http_push_headers_table`: the name in lower case is a
C string, and the values of one name are joined. -/
def pushHeader (headers : Bytes → Option Bytes) (name value : Bytes) : Bytes → Option Bytes :=
  let key := cstr (clipLowerIntoN 256 name)
  fun k => if k = key then
    some (match headers key with
      | some old => old ++ ascii ", " ++ value
      | none => value)
    else headers k

/-- `cytadel_http_push_headers_table`. -/
def pushHeadersTable (buf : Bytes) :
    List HttpHeaderPair → (Bytes → Option Bytes) → Option (Bytes → Option Bytes)
  | [], headers => some headers
  | pair :: pairs, headers => do
      let name ← Lib.readSlice buf pair.nameStart pair.nameLen
      let value ← Lib.readSlice buf pair.valueStart pair.valueLen
      pushHeadersTable buf pairs (pushHeader headers name value)

/-- CYTADEL_HTTP_BODY_CAP. -/
def httpBodyCap : ℕ := 1024 * 1024

/-- What `cytadel_plugin_api_http_get` makes of the bytes that it has read. -/
def httpReply (buf : Bytes) : Option HttpReply := do
  let parsed ← httpParse buf httpPairsMax
  let body := (buf.drop parsed.bodyStart).take httpBodyCap
  let headers ← pushHeadersTable buf parsed.pairs fun _ => none
  some ⟨parsed.status, headers, body⟩

/-! ## The arguments -/

/-- An error that a call ends with: Lua's own about an argument, the message of
a `luaL_error`, or a write past the end of the request buffer. -/
inductive HttpGetError
  | badArgument (arg : ℤ)
  | raised (message : Bytes)
  | writesPast
  deriving DecidableEq, Repr

/-- The third argument: the raw fields of the table, and the entries of the
table in `headers` in the order of `lua_next`. -/
inductive HttpGetOpts
  | absent
  | notTable
  | table (fields : LuaTable) (headers : List (LuaValue × LuaValue))

/-- A call of `http_get`. -/
structure HttpGetCall where
  port : LuaValue
  path : LuaValue
  opts : HttpGetOpts

/-- What a call finds around it. -/
structure HttpGetEnv where
  toInteger : ToInteger
  /-- The text that Lua makes of a number. -/
  numberText : ℕ → Bytes
  /-- `cytadel_plugin_clamp_timeout_ms`, which asks the clock. -/
  clampTimeoutMs : ℤ → ℤ
  /-- Does this allocation fail? -/
  alloc : ℕ → Bool
  /-- The error of the connection, plain or TLS, if there is one. -/
  connect : Bool → ℤ → ℤ → Option Bytes
  /-- What the k-th `send` or `SSL_write` returns. -/
  send : ℕ → ℤ
  /-- What `cytadel_http_read_all` reads, unless memory gives out. -/
  reply : Option Bytes

/-- What has passed all checks. -/
structure HttpGetArgs where
  port : ℤ
  path : Bytes
  method : Bytes
  timeoutMs : ℤ
  useTls : Bool
  headers : List (LuaValue × LuaValue)

/-- `luaL_checkinteger`. -/
def checkInt (env : HttpGetEnv) (arg : ℤ) (v : LuaValue) : Except HttpGetError ℤ :=
  match env.toInteger v with
  | some i => .ok i
  | none => .error (.badArgument arg)

/-- `luaL_checklstring`. -/
def checkLstring (env : HttpGetEnv) (arg : ℤ) : LuaValue → Except HttpGetError Bytes
  | .string s => .ok s
  | .number r => .ok (env.numberText r)
  | _ => .error (.badArgument arg)

/-- The loop of `cytadel_http_validate_path`, from offset `i`. -/
def validatePathBytes : ℕ → Bytes → Except HttpGetError Unit
  | _, [] => .ok ()
  | i, c :: cs =>
      if c ≤ 0x20 || c == 0x7F then
        .error (.raised (ascii "http_get: path contains an invalid control/space byte (decimal " ++
          decimal c.toNat ++ ascii ") at offset " ++ decimal i ++
          ascii " -- CR/LF/space are never permitted (request smuggling)"))
      else validatePathBytes (i + 1) cs

/-- `cytadel_http_validate_path`. -/
def validatePath (path : Bytes) : Except HttpGetError Unit :=
  if path.head? ≠ some 0x2F then
    .error (.raised
      (ascii "http_get: path must start with '/' (an origin-form request target)"))
  else validatePathBytes 0 path

/-- `cytadel_http_is_header_token_char`. -/
def isHeaderTokenChar (c : UInt8) : Bool :=
  (0x30 ≤ c && c ≤ 0x39) || (0x41 ≤ c && c ≤ 0x5A) || (0x61 ≤ c && c ≤ 0x7A) ||
    (ascii "!#$%&'*+-.^_" ++ [0x60] ++ ascii "|~").contains c

/-- `cytadel_http_header_is_framing`. -/
def headerIsFraming (name : Bytes) : Bool :=
  let lower := name.map toLowerAscii
  lower == ascii "content-length" || lower == ascii "transfer-encoding" || lower == ascii "host"

def hasCrLf (s : Bytes) : Bool := s.contains 0x0D || s.contains 0x0A

/-- `opts.headers entry '%s'`, then what is wrong with it. -/
def headerEntryError (name : Bytes) (text : String) : HttpGetError :=
  .raised (ascii "http_get: opts.headers entry '" ++ cstr name ++ ascii "' " ++ ascii text)

def headersTypeError : HttpGetError :=
  .raised (ascii "http_get: opts.headers must be a table of string -> string")

/-- `cytadel_http_validate_headers_table` on one entry. -/
def validateHeader : LuaValue × LuaValue → Except HttpGetError Unit
  | (.string name, .string value) =>
      if name.length = 0 then
        .error (.raised (ascii "http_get: opts.headers has an entry with an empty header name"))
      else if !name.all isHeaderTokenChar then
        .error (headerEntryError name
          "has an invalid header-name byte -- header names must be an RFC 7230 token")
      else if hasCrLf value then .error (headerEntryError name "contains a CR/LF")
      else if headerIsFraming name then
        .error (.raised (ascii "http_get: opts.headers must not set the framing header '" ++
          cstr name ++ ascii "' -- Host is sent automatically and Content-Length/" ++
          ascii "Transfer-Encoding are never valid for the GET/HEAD requests this client sends"))
      else .ok ()
  | _ => .error headersTypeError

/-- `cytadel_http_validate_headers_table`. -/
def validateHeadersTable : List (LuaValue × LuaValue) → Except HttpGetError Unit
  | [] => .ok ()
  | entry :: entries => do
      validateHeader entry
      validateHeadersTable entries

/-- `opts.method`. -/
def checkMethod (env : HttpGetEnv) (v : LuaValue) : Except HttpGetError Bytes :=
  match v with
  | .nil => .ok (ascii "GET")
  | v => do
      let m := cstr (← checkLstring env (-1) v)
      if m = ascii "GET" then .ok (ascii "GET")
      else if m = ascii "HEAD" then .ok (ascii "HEAD")
      else .error (.raised (ascii "http_get: opts.method must be \"GET\" or \"HEAD\" (got \"" ++
        m ++ ascii "\") -- detection-only, no state-changing verbs"))

/-- `opts.timeout_ms`. -/
def checkTimeout (env : HttpGetEnv) (v : LuaValue) : Except HttpGetError ℤ :=
  match v with
  | .nil => .ok 5000
  | v => checkInt env (-1) v

/-- `lua_toboolean`. -/
def LuaValue.toBoolean : LuaValue → Bool
  | .nil => false
  | .boolean b => b
  | _ => true

/-- `opts.headers`; without it there is no table to go through. -/
def checkHeaders (v : LuaValue) (entries : List (LuaValue × LuaValue)) :
    Except HttpGetError (List (LuaValue × LuaValue)) :=
  match v with
  | .nil => .ok []
  | .table _ => .ok entries
  | _ => .error (.badArgument (-1))

/-- The options: method, timeout, TLS and headers. -/
def checkOpts (env : HttpGetEnv) :
    HttpGetOpts → Except HttpGetError (Bytes × ℤ × Bool × List (LuaValue × LuaValue))
  | .absent => .ok (ascii "GET", 5000, false, [])
  | .notTable => .error (.badArgument 3)
  | .table fields entries => do
      let method ← checkMethod env (fields (ascii "method"))
      let timeoutMs ← checkTimeout env (fields (ascii "timeout_ms"))
      let useTls := (fields (ascii "tls")).toBoolean
      let headers ← checkHeaders (fields (ascii "headers")) entries
      .ok (method, timeoutMs, useTls, headers)

/-- The checks of `cytadel_plugin_api_http_get`, in their order. -/
def checkArgs (env : HttpGetEnv) (call : HttpGetCall) : Except HttpGetError HttpGetArgs := do
  let port ← checkInt env 1 call.port
  let path ← checkLstring env 2 call.path
  validatePath path
  let (method, timeoutMs, useTls, headers) ← checkOpts env call.opts
  if port < 1 ∨ port > 65535 then
    .error (.raised (ascii "http_get: port " ++ decimalInt port ++ ascii " out of range 1-65535"))
  else
    let timeoutMs := env.clampTimeoutMs timeoutMs
    validateHeadersTable headers
    .ok ⟨port, path, method, timeoutMs, useTls, headers⟩

/-! ## The request -/

/-- INT_MAX, above which `snprintf` has no length to return. -/
def intMax : ℕ := 2 ^ 31 - 1

/-- The request buffer: its first `len` bytes, how many it holds, and how many
allocations have been made. -/
structure ReqBuf where
  bytes : Bytes
  cap : ℕ
  calls : ℕ

/-- `memcpy` behind what is there. -/
def ReqBuf.put (b : ReqBuf) (data : Bytes) : Except HttpGetError ReqBuf :=
  if b.bytes.length + data.length ≤ b.cap then .ok { b with bytes := b.bytes ++ data }
  else .error .writesPast

/-- `realloc`, when the buffer is too small. -/
def ReqBuf.grow (env : HttpGetEnv) (b : ReqBuf) (small : Bool) (cap : ℕ) (message : String) :
    Except HttpGetError ReqBuf :=
  if small then
    if env.alloc b.calls then .error (.raised (ascii message))
    else .ok { b with cap := cap, calls := b.calls + 1 }
  else .ok b

/-- The text that both calls of `snprintf` write. -/
def requestHead (method path ip : Bytes) : Bytes :=
  method ++ ascii " " ++ cstr path ++ ascii " HTTP/1.0\r\nHost: " ++ cstr ip ++
    ascii "\r\nConnection: close\r\n"

/-- The buffer with the head of the request; it is written again when the first
buffer was too small. -/
def startRequest (env : HttpGetEnv) (method path ip : Bytes) : Except HttpGetError ReqBuf :=
  if env.alloc 0 then .error (.raised (ascii "http_get: out of memory building the request"))
  else
    let head := requestHead method path ip
    if head.length > intMax then
      .error (.raised (ascii "http_get: failed to build the request line"))
    else do
      let b ← ReqBuf.grow env ⟨[], 512, 1⟩ (head.length ≥ 512) (head.length + 1)
        "http_get: out of memory building the request"
      b.put head

/-- `cytadel_http_append_extra_headers` on one entry. -/
def appendExtraHeader (env : HttpGetEnv) (b : ReqBuf) :
    LuaValue × LuaValue → Except HttpGetError ReqBuf
  | (.string name, .string value) =>
      if hasCrLf name || hasCrLf value then .error (headerEntryError name "contains a CR/LF")
      else do
        let needed := name.length + 2 + value.length + 2
        let b ← b.grow env (b.bytes.length + needed + 1 > b.cap) ((b.cap + needed + 1) * 2)
          "http_get: out of memory building request headers"
        let b ← b.put name
        let b ← b.put (ascii ": ")
        let b ← b.put value
        b.put (ascii "\r\n")
  | _ => .error headersTypeError

/-- `cytadel_http_append_extra_headers`. -/
def appendExtraHeaders (env : HttpGetEnv) :
    List (LuaValue × LuaValue) → ReqBuf → Except HttpGetError ReqBuf
  | [], b => .ok b
  | entry :: entries, b => do
      let b ← appendExtraHeader env b entry
      appendExtraHeaders env entries b

/-- The whole request, to its final empty line. -/
def buildRequest (env : HttpGetEnv) (ip : Bytes) (args : HttpGetArgs) :
    Except HttpGetError ReqBuf := do
  let b ← startRequest env args.method args.path ip
  let b ← appendExtraHeaders env args.headers b
  let b ← b.grow env (b.bytes.length + 3 > b.cap) (b.bytes.length + 3)
    "http_get: out of memory finishing the request"
  b.put (ascii "\r\n")

/-! ## The call -/

/-- `cytadel_http_conn_write_all`: whether all is sent, and how much. A call
takes no more than it is given; `fuel` counts the bytes. -/
def connWriteAll (send : ℕ → ℤ) (len : ℕ) : ℕ → ℕ → ℕ → Bool × ℕ
  | 0, _, sent => (true, sent)
  | fuel + 1, k, sent =>
      if sent < len then
        if send k ≤ 0 then (false, sent)
        else connWriteAll send len fuel (k + 1) (sent + min (send k).toNat (len - sent))
      else (true, sent)

/-- What the plugin gets: an error, `nil` with a reason, or a table. -/
inductive HttpGetOutcome
  | raised (e : HttpGetError)
  | failed (reason : Bytes)
  | replied (reply : Option HttpReply)

/-- What a call puts on the wire, and what it returns. -/
structure HttpGetRun where
  sent : Bytes
  outcome : HttpGetOutcome

/-- `cytadel_plugin_api_http_get`, for the address of the context. -/
def httpGet (env : HttpGetEnv) (ip : Bytes) (call : HttpGetCall) : HttpGetRun :=
  match checkArgs env call with
  | .error e => ⟨[], .raised e⟩
  | .ok args =>
      match buildRequest env ip args with
      | .error e => ⟨[], .raised e⟩
      | .ok req =>
          match env.connect args.useTls args.port args.timeoutMs with
          | some reason => ⟨[], .failed reason⟩
          | none =>
              let len := req.bytes.length
              match connWriteAll env.send len (len + 1) 0 0 with
              | (false, sent) => ⟨req.bytes.take sent,
                  .failed (ascii (if args.useTls then "tls_error" else "closed"))⟩
              | (true, sent) =>
                  match env.reply with
                  | none => ⟨req.bytes.take sent,
                      .raised (.raised (ascii "http_get: out of memory reading the response"))⟩
                  | some buf => ⟨req.bytes.take sent, .replied (httpReply buf)⟩

end Cytadel.Plugin
