import Cytadel.Lib.AllBytes
import Cytadel.Net.Target
import Cytadel.Plugin.ApiHttp

/-!
# What `http_get` puts on the wire

A request is lines, each closed by CR LF, and an empty line at the end. None of
the three parts that a plugin names can add a line, end the request or say how
long it is: the path has no byte up to the space, a header name is a token and
none of the framing names, and a header value has neither CR nor LF.
-/

namespace Cytadel.Plugin

open Cytadel Net

/-! ## One request -/

def crlf : Bytes := [0x0D, 0x0A]

/-- The first line. -/
def requestLine (method path : Bytes) : Bytes :=
  method ++ 0x20 :: path ++ 0x20 :: ascii "HTTP/1.0"

/-- What stands before the first `:` of a line, in lower case. -/
def fieldName (line : Bytes) : Bytes :=
  (line.takeWhile fun c => c != 0x3A).map toLowerAscii

/-- These bytes are one request without a body, and nothing behind it. -/
structure OneRequest (method path : Bytes) (fields : List Bytes) (bytes : Bytes) : Prop where
  framed : bytes = ((requestLine method path :: fields).flatMap fun line => line ++ crlf) ++ crlf
  unbroken : ∀ line ∈ requestLine method path :: fields, line ≠ [] ∧ 0x0D ∉ line ∧ 0x0A ∉ line
  readOnly : method = ascii "GET" ∨ method = ascii "HEAD"
  twoSpaces : (requestLine method path).count 0x20 = 2
  named : ∀ field ∈ fields, ∃ name value, field = name ++ ascii ": " ++ value ∧ name ≠ [] ∧
    ∀ c ∈ name, isHeaderTokenChar c = true
  oneHost : (fields.filter fun field => fieldName field == ascii "host").length = 1
  bodyless : ∀ field ∈ fields, fieldName field ≠ ascii "content-length" ∧
    fieldName field ≠ ascii "transfer-encoding"

/-- The line of a header. -/
def headerLine (h : Bytes × Bytes) : Bytes := h.1 ++ ascii ": " ++ h.2

/-- The lines behind the first one. -/
def requestFields (ip : Bytes) (headers : List (Bytes × Bytes)) : List Bytes :=
  (ascii "Host: " ++ ip) :: ascii "Connection: close" :: headers.map headerLine

/-! ## What the checks let through -/

/-- A path that is a request target of one word. -/
structure PathOk (path : Bytes) : Prop where
  rooted : path.head? = some 0x2F
  plain : ∀ c ∈ path, 0x20 < c

/-- A header that a plugin may set. -/
structure HeaderOk (h : Bytes × Bytes) : Prop where
  nonempty : h.1 ≠ []
  token : ∀ c ∈ h.1, isHeaderTokenChar c = true
  unbroken : hasCrLf h.2 = false
  free : headerIsFraming h.1 = false

theorem validatePathBytes_ok {i : ℕ} {path : Bytes} (h : validatePathBytes i path = .ok ()) :
    ∀ c ∈ path, 0x20 < c := by
  induction path generalizing i with
  | nil => exact fun c hc => (nomatch hc)
  | cons c cs ih =>
      rw [validatePathBytes] at h
      split at h
      · cases h
      · next hc =>
          rw [Bool.or_eq_true, decide_eq_true_iff, not_or] at hc
          intro d hd
          rcases List.mem_cons.mp hd with rfl | hd
          · exact UInt8.not_le.mp hc.1
          · exact ih h d hd

theorem validatePath_ok {path : Bytes} (h : validatePath path = .ok ()) : PathOk path := by
  rw [validatePath] at h
  split at h
  · cases h
  · next hroot => exact ⟨not_not.mp hroot, validatePathBytes_ok h⟩

theorem validateHeader_ok {entry : LuaValue × LuaValue} (h : validateHeader entry = .ok ()) :
    ∃ header, entry = (.string header.1, .string header.2) ∧ HeaderOk header := by
  obtain ⟨key, v⟩ := entry
  cases key with
  | string name =>
      cases v with
      | string value =>
          refine ⟨(name, value), rfl, ?_⟩
          simp only [validateHeader] at h
          split at h
          · cases h
          next hempty =>
          split at h
          · cases h
          next htoken =>
          split at h
          · cases h
          next hbreak =>
          split at h
          · cases h
          next hframing =>
          rw [Bool.not_eq_true, Bool.not_eq_false', List.all_eq_true] at htoken
          exact ⟨fun hnil => hempty (List.length_eq_zero_iff.mpr hnil), htoken,
            Bool.eq_false_iff.mpr hbreak, Bool.eq_false_iff.mpr hframing⟩
      | _ => cases h
  | _ => cases h

theorem validateHeadersTable_ok {entries : List (LuaValue × LuaValue)}
    (h : validateHeadersTable entries = .ok ()) :
    ∃ headers : List (Bytes × Bytes),
      entries = headers.map (fun h => (.string h.1, .string h.2)) ∧ ∀ h ∈ headers, HeaderOk h := by
  induction entries with
  | nil => exact ⟨[], rfl, fun h hh => (nomatch hh)⟩
  | cons entry entries ih =>
      rw [validateHeadersTable] at h
      cases hentry : validateHeader entry with
      | error e =>
          rw [hentry] at h
          cases h
      | ok u =>
          rw [hentry] at h
          obtain ⟨header, rfl, hok⟩ := validateHeader_ok hentry
          obtain ⟨headers, rfl, hall⟩ := ih h
          exact ⟨header :: headers, rfl, List.forall_mem_cons.mpr ⟨hok, hall⟩⟩

theorem checkMethod_ok {env : HttpGetEnv} {v : LuaValue} {method : Bytes}
    (h : checkMethod env v = .ok method) : method = ascii "GET" ∨ method = ascii "HEAD" := by
  unfold checkMethod at h
  split at h
  · injection h with h
    exact .inl h.symm
  · obtain ⟨m, -, h⟩ := bind_eq_ok_iff.mp h
    simp only at h
    split at h
    · injection h with h
      exact .inl h.symm
    · split at h
      · injection h with h
        exact .inr h.symm
      · cases h

/-- What the checks promise of the arguments. -/
structure ArgsOk (args : HttpGetArgs) (headers : List (Bytes × Bytes)) : Prop where
  path : PathOk args.path
  method : args.method = ascii "GET" ∨ args.method = ascii "HEAD"
  entries : args.headers = headers.map fun h => (.string h.1, .string h.2)
  header : ∀ h ∈ headers, HeaderOk h

theorem checkArgs_ok {env : HttpGetEnv} {call : HttpGetCall} {args : HttpGetArgs}
    (h : checkArgs env call = .ok args) :
    checkLstring env 2 call.path = .ok args.path ∧ ∃ headers, ArgsOk args headers := by
  obtain ⟨port, -, h⟩ := bind_eq_ok_iff.mp h
  obtain ⟨path, hpath, h⟩ := bind_eq_ok_iff.mp h
  obtain ⟨_, hvalid, h⟩ := bind_eq_ok_iff.mp h
  obtain ⟨⟨method, timeoutMs, useTls, entries⟩, hopts, h⟩ := bind_eq_ok_iff.mp h
  simp only at h
  split at h
  · cases h
  obtain ⟨_, hentries, h⟩ := bind_eq_ok_iff.mp h
  injection h with h
  subst h
  obtain ⟨headers, heq, hall⟩ := validateHeadersTable_ok hentries
  refine ⟨hpath, headers, validatePath_ok hvalid, ?_, heq, hall⟩
  cases hcase : call.opts with
  | absent =>
      rw [hcase, checkOpts] at hopts
      injection hopts with hopts
      injection hopts with hmethod
      exact .inl hmethod.symm
  | notTable =>
      rw [hcase] at hopts
      cases hopts
  | table fields given =>
      rw [hcase] at hopts
      obtain ⟨m, hm, hopts⟩ := bind_eq_ok_iff.mp hopts
      obtain ⟨t, -, hopts⟩ := bind_eq_ok_iff.mp hopts
      obtain ⟨hs, -, hopts⟩ := bind_eq_ok_iff.mp hopts
      injection hopts with hopts
      injection hopts with hmethod
      rw [← hmethod]
      exact checkMethod_ok hm

/-! ## The buffer -/

/-- A step of the building: the buffer has this text and room for more, or
memory gave out. Never does a write go past its end. -/
inductive Built (env : HttpGetEnv) (bytes : Bytes) (room : ℕ) :
    Except HttpGetError ReqBuf → Prop
  | ok {b : ReqBuf} : b.bytes = bytes → b.bytes.length + room ≤ b.cap → Built env bytes room (.ok b)
  | failed {k : ℕ} {message : Bytes} : env.alloc k = true →
      Built env bytes room (.error (.raised message))

section

variable {env : HttpGetEnv} {b : ReqBuf} {bytes text data : Bytes} {room more : ℕ}

theorem Built.bind {r : Except HttpGetError ReqBuf} {f : ReqBuf → Except HttpGetError ReqBuf}
    (hr : Built env bytes room r)
    (hf : ∀ b : ReqBuf, b.bytes = bytes → b.bytes.length + room ≤ b.cap →
      Built env text more (f b)) :
    Built env text more (r >>= f) := by
  cases hr with
  | ok hbytes hroom => exact hf _ hbytes hroom
  | failed halloc => exact .failed halloc

theorem grow_built {small : Bool} {cap : ℕ} {message : String}
    (hlarge : small = false → b.bytes.length + room ≤ b.cap) (hcap : b.bytes.length + room ≤ cap) :
    Built env b.bytes room (b.grow env small cap message) := by
  rw [ReqBuf.grow]
  split
  · split
    · next halloc => exact .failed halloc
    · exact .ok rfl hcap
  · next hsmall => exact .ok rfl (hlarge (Bool.eq_false_iff.mpr hsmall))

theorem put_built (hbytes : b.bytes = bytes) (hroom : bytes.length + (data.length + room) ≤ b.cap) :
    Built env (bytes ++ data) room (b.put data) := by
  subst hbytes
  rw [ReqBuf.put, if_pos (by omega)]
  refine .ok rfl ?_
  show (b.bytes ++ data).length + room ≤ b.cap
  rw [List.length_append]
  omega

theorem startRequest_built {method path ip : Bytes}
    (hsize : (requestHead method path ip).length ≤ intMax) :
    Built env (requestHead method path ip) 0 (startRequest env method path ip) := by
  rw [startRequest]
  split
  · next halloc => exact .failed halloc
  · simp only [if_neg (Nat.not_lt.mpr hsize)]
    generalize requestHead method path ip = head
    refine Built.bind (?_ : Built env [] head.length _) fun b hbytes hroom => ?_
    · show Built env (ReqBuf.bytes ⟨[], 512, 1⟩) head.length _
      refine grow_built (fun hlarge => ?_) ?_
      · have hlt := Nat.not_le.mp (of_decide_eq_false hlarge)
        rw [List.length_nil, Nat.zero_add]
        exact Nat.le_of_lt hlt
      · rw [List.length_nil, Nat.zero_add]
        exact Nat.le_succ _
    · rw [hbytes] at hroom
      exact put_built hbytes hroom

theorem token_not_break {c : UInt8} (hc : isHeaderTokenChar c = true) :
    c ≠ 0x0D ∧ c ≠ 0x0A ∧ c ≠ 0x3A := by
  have hall := Lib.forall_byte
    (p := fun c => isHeaderTokenChar c = true → c ≠ 0x0D ∧ c ≠ 0x0A ∧ c ≠ 0x3A) (by decide) c
  exact hall hc

theorem hasCrLf_eq_false {s : Bytes} : hasCrLf s = false ↔ 0x0D ∉ s ∧ 0x0A ∉ s := by
  rw [hasCrLf, Bool.or_eq_false_iff, ← Bool.not_eq_true, ← Bool.not_eq_true, List.contains_iff_mem,
    List.contains_iff_mem]

theorem appendExtraHeader_built {h : Bytes × Bytes} (hok : HeaderOk h)
    (hbytes : b.bytes = bytes) (hroom : b.bytes.length ≤ b.cap) :
    Built env (bytes ++ (headerLine h ++ crlf)) 0
      (appendExtraHeader env b (.string h.1, .string h.2)) := by
  have hname : hasCrLf h.1 = false :=
    hasCrLf_eq_false.mpr ⟨fun hm => (token_not_break (hok.token _ hm)).1 rfl,
      fun hm => (token_not_break (hok.token _ hm)).2.1 rfl⟩
  have htwo : (ascii ": ").length = 2 := rfl
  simp only [appendExtraHeader, hname, hok.unbroken, Bool.or_false, Bool.false_eq_true, if_false]
  subst hbytes
  refine Built.bind (?_ : Built env b.bytes (h.1.length + (2 + (h.2.length + 2))) _)
    fun b1 hb1 hroom1 => ?_
  · refine grow_built (fun hlarge => ?_) ?_
    · have hlt := of_decide_eq_false hlarge
      omega
    · omega
  rw [hb1] at hroom1
  refine (put_built hb1 hroom1).bind fun b2 hb2 hroom2 => ?_
  rw [hb2] at hroom2
  refine (put_built hb2 hroom2).bind fun b3 hb3 hroom3 => ?_
  rw [hb3] at hroom3
  refine (put_built hb3 hroom3).bind fun b4 hb4 hroom4 => ?_
  rw [hb4] at hroom4
  have hline : b.bytes ++ (headerLine h ++ crlf) =
      b.bytes ++ h.1 ++ ascii ": " ++ h.2 ++ ascii "\r\n" := by
    rw [headerLine]
    simp only [List.append_assoc]
    rfl
  rw [hline]
  exact put_built hb4 hroom4

theorem appendExtraHeaders_built {headers : List (Bytes × Bytes)} (hok : ∀ h ∈ headers, HeaderOk h)
    (hbytes : b.bytes = bytes) (hroom : b.bytes.length ≤ b.cap) :
    Built env (bytes ++ headers.flatMap fun h => headerLine h ++ crlf) 0
      (appendExtraHeaders env (headers.map fun h => (.string h.1, .string h.2)) b) := by
  induction headers generalizing b bytes with
  | nil =>
      rw [List.flatMap_nil, List.append_nil]
      exact .ok hbytes hroom
  | cons h headers ih =>
      rw [List.flatMap_cons, ← List.append_assoc]
      exact (appendExtraHeader_built (hok h List.mem_cons_self) hbytes hroom).bind
        fun b' hbytes' hroom' => ih (fun h hh => hok h (List.mem_cons_of_mem _ hh)) hbytes' hroom'

/-- The whole request, unless memory gives out. -/
theorem buildRequest_built {ip : Bytes} {args : HttpGetArgs} {headers : List (Bytes × Bytes)}
    (hargs : ArgsOk args headers)
    (hsize : (requestHead args.method args.path ip).length ≤ intMax) :
    Built env (requestHead args.method args.path ip ++
      (headers.flatMap fun h => headerLine h ++ crlf) ++ crlf) 0 (buildRequest env ip args) := by
  refine (startRequest_built hsize).bind fun b1 hb1 hroom1 => ?_
  rw [hargs.entries]
  refine (appendExtraHeaders_built hargs.header hb1 hroom1).bind fun b2 hb2 hroom2 => ?_
  refine Built.bind (?_ : Built env b2.bytes 2 _) fun b3 hb3 hroom3 => ?_
  · refine grow_built (fun hlarge => ?_) (Nat.le_succ _)
    have hlt := of_decide_eq_false hlarge
    omega
  · rw [hb3] at hroom3
    rw [← hb2]
    exact put_built hb3 hroom3

theorem buildRequest_large {ip : Bytes} {args : HttpGetArgs}
    (hsize : intMax < (requestHead args.method args.path ip).length) :
    ∃ message, buildRequest env ip args = .error (.raised message) := by
  have hstart : ∃ message, startRequest env args.method args.path ip =
      .error (.raised message) := by
    rw [startRequest]
    split
    · exact ⟨_, rfl⟩
    · exact ⟨_, if_pos hsize⟩
  obtain ⟨message, hstart⟩ := hstart
  refine ⟨message, ?_⟩
  rw [buildRequest, hstart]
  rfl

end

/-! ## The lines of the request -/

/-- An address is one word. -/
theorem inetNtop_plain (a : BitVec 32) : ∀ c ∈ inetNtop a, 0x20 < c := by
  have hdecimal : ∀ n, ∀ c ∈ decimal (n % 256), 0x20 < c := by
    intro n
    have hbyte : (UInt8.ofNat n).toNat = n % 256 := UInt8.toNat_ofNat'
    rw [← hbyte]
    exact Lib.forall_mem_of_all (Lib.forall_byte
      (p := fun b => ((decimal b.toNat).all fun c => decide (0x20 < c)) = true) (by decide) _)
  have hdot : ∀ c ∈ ascii ".", 0x20 < c := Lib.forall_mem_of_all (by decide)
  have hjoin : inetNtop a = decimal ((a.toNat >>> 24) % 256) ++ ascii "." ++
      decimal ((a.toNat >>> 16) % 256) ++ ascii "." ++ decimal ((a.toNat >>> 8) % 256) ++
      ascii "." ++ decimal ((a.toNat >>> 0) % 256) := by
    have hone : ascii "." = [0x2E] := rfl
    simp [inetNtop, List.intercalate, hone]
  rw [hjoin]
  simp only [List.forall_mem_append]
  exact ⟨⟨⟨⟨⟨⟨hdecimal _, hdot⟩, hdecimal _⟩, hdot⟩, hdecimal _⟩, hdot⟩, hdecimal _⟩

theorem cstr_plain {s : Bytes} (h : ∀ c ∈ s, 0x20 < c) : cstr s = s :=
  cstr_eq_self_iff.mpr fun hzero => absurd (h 0 hzero) (by decide)

/-- A line of printable bytes is not broken. -/
theorem printable_unbroken {s : Bytes} (h : ∀ c ∈ s, 0x20 ≤ c) : 0x0D ∉ s ∧ 0x0A ∉ s :=
  ⟨fun hc => absurd (h _ hc) (by decide), fun hc => absurd (h _ hc) (by decide)⟩

theorem fieldName_headerLine {name value : Bytes}
    (h : ∀ c ∈ name, isHeaderTokenChar c = true) :
    fieldName (name ++ ascii ": " ++ value) = name.map toLowerAscii := by
  have hcolon : ascii ": " = [0x3A, 0x20] := rfl
  rw [fieldName, hcolon, List.append_assoc, List.takeWhile_append_of_pos fun c hc =>
    bne_iff_ne.mpr (token_not_break (h c hc)).2.2]
  exact congrArg _ (List.append_nil name)

theorem requestHead_lines {method path ip : Bytes} (hpath : ∀ c ∈ path, 0x20 < c)
    (hip : ∀ c ∈ ip, 0x20 < c) :
    requestHead method path ip =
      (requestLine method path ++ crlf) ++ ((ascii "Host: " ++ ip) ++ crlf) ++
        (ascii "Connection: close" ++ crlf) := by
  have hhost : ascii " HTTP/1.0\r\nHost: " =
      0x20 :: ascii "HTTP/1.0" ++ crlf ++ ascii "Host: " := rfl
  have hclose : ascii "\r\nConnection: close\r\n" = crlf ++ ascii "Connection: close" ++ crlf := rfl
  have hspace : ascii " " = [0x20] := rfl
  rw [requestHead, cstr_plain hpath, cstr_plain hip, hhost, hclose, hspace, requestLine]
  simp only [List.append_assoc, List.cons_append, List.nil_append]

section

variable {args : HttpGetArgs} {headers : List (Bytes × Bytes)} {a : BitVec 32}

theorem requestLine_printable (hargs : ArgsOk args headers) :
    ∀ c ∈ requestLine args.method args.path, 0x20 ≤ c := by
  have hmethod : ∀ c ∈ args.method, 0x20 ≤ c := by
    rcases hargs.method with h | h
    · rw [h]
      exact Lib.forall_mem_of_all (by decide)
    · rw [h]
      exact Lib.forall_mem_of_all (by decide)
  have hversion : ∀ c ∈ 0x20 :: ascii "HTTP/1.0", 0x20 ≤ c := Lib.forall_mem_of_all (by decide)
  intro c hc
  rw [requestLine, List.mem_append, List.mem_append, List.mem_cons] at hc
  rcases hc with (hc | rfl | hc) | hc
  · exact hmethod c hc
  · exact UInt8.le_refl _
  · exact UInt8.le_of_lt (hargs.path.plain c hc)
  · exact hversion c hc

theorem requestLine_spaces (hargs : ArgsOk args headers) :
    (requestLine args.method args.path).count 0x20 = 2 := by
  have hmethod : args.method.count 0x20 = 0 := by
    rcases hargs.method with h | h
    · rw [h]
      decide
    · rw [h]
      decide
  have hpath : args.path.count 0x20 = 0 :=
    List.count_eq_zero.mpr fun hc => UInt8.lt_irrefl _ (hargs.path.plain _ hc)
  have hversion : (0x20 :: ascii "HTTP/1.0").count 0x20 = 1 := by decide
  rw [requestLine, List.count_append, List.count_append, List.count_cons_self, hmethod, hpath,
    hversion]

/-- Every field is a name, which is a token, and a value. -/
theorem requestFields_named (hargs : ArgsOk args headers) :
    ∀ field ∈ requestFields (inetNtop a) headers, ∃ name value,
      field = name ++ ascii ": " ++ value ∧ name ≠ [] ∧ ∀ c ∈ name, isHeaderTokenChar c = true := by
  intro field hfield
  rcases List.mem_cons.mp hfield with rfl | hfield
  · exact ⟨ascii "Host", inetNtop a, rfl, by decide, Lib.forall_mem_of_all (by decide)⟩
  rcases List.mem_cons.mp hfield with rfl | hfield
  · exact ⟨ascii "Connection", ascii "close", rfl, by decide, Lib.forall_mem_of_all (by decide)⟩
  · obtain ⟨h, hh, rfl⟩ := List.mem_map.mp hfield
    exact ⟨h.1, h.2, rfl, (hargs.header h hh).nonempty, (hargs.header h hh).token⟩

theorem fieldName_extra (hargs : ArgsOk args headers) {h : Bytes × Bytes} (hh : h ∈ headers) :
    fieldName (headerLine h) ≠ ascii "host" ∧ fieldName (headerLine h) ≠ ascii "content-length" ∧
      fieldName (headerLine h) ≠ ascii "transfer-encoding" := by
  have hfree := (hargs.header h hh).free
  rw [headerLine, fieldName_headerLine (hargs.header h hh).token]
  simp only [headerIsFraming, Bool.or_eq_false_iff, beq_eq_false_iff_ne] at hfree
  exact ⟨hfree.2, hfree.1.1, hfree.1.2⟩

theorem fieldName_host (ip : Bytes) : fieldName (ascii "Host: " ++ ip) = ascii "host" := by
  have hhost : ascii "Host: " = ascii "Host" ++ ascii ": " := rfl
  rw [hhost, fieldName_headerLine (Lib.forall_mem_of_all (by decide))]
  rfl

/-- What is written for checked arguments is one request. -/
theorem request_oneRequest (hargs : ArgsOk args headers) :
    OneRequest args.method args.path (requestFields (inetNtop a) headers)
      (requestHead args.method args.path (inetNtop a) ++
        (headers.flatMap fun h => headerLine h ++ crlf) ++ crlf) where
  framed := by
    rw [requestHead_lines hargs.path.plain (inetNtop_plain a)]
    simp only [requestFields, List.flatMap_cons, List.flatMap_map, List.append_assoc]
  unbroken := by
    intro line hline
    rcases List.mem_cons.mp hline with rfl | hline
    · refine ⟨?_, printable_unbroken (requestLine_printable hargs)⟩
      rw [requestLine]
      exact List.append_ne_nil_of_right_ne_nil _ (List.cons_ne_nil _ _)
    rcases List.mem_cons.mp hline with rfl | hline
    · refine ⟨by simp [ascii], printable_unbroken ?_⟩
      intro c hc
      rcases List.mem_append.mp hc with hc | hc
      · have hall : ∀ c ∈ ascii "Host: ", 0x20 ≤ c := Lib.forall_mem_of_all (by decide)
        exact hall c hc
      · exact UInt8.le_of_lt (inetNtop_plain a c hc)
    rcases List.mem_cons.mp hline with rfl | hline
    · exact ⟨by decide, by decide, by decide⟩
    · obtain ⟨h, hh, rfl⟩ := List.mem_map.mp hline
      obtain ⟨hcr, hlf⟩ := hasCrLf_eq_false.mp (hargs.header h hh).unbroken
      have hname := fun c hc => token_not_break ((hargs.header h hh).token c hc)
      have hcolon : (0x0D : UInt8) ∉ ascii ": " ∧ (0x0A : UInt8) ∉ ascii ": " := by decide
      rw [headerLine]
      simp only [List.mem_append, not_or]
      exact ⟨by simp [ascii], ⟨⟨fun hc => (hname _ hc).1 rfl, hcolon.1⟩, hcr⟩,
        ⟨fun hc => (hname _ hc).2.1 rfl, hcolon.2⟩, hlf⟩
  readOnly := hargs.method
  twoSpaces := requestLine_spaces hargs
  named := requestFields_named hargs
  oneHost := by
    have hextra : (headers.map headerLine).filter
        (fun field => fieldName field == ascii "host") = [] := by
      rw [List.filter_eq_nil_iff]
      intro field hfield
      obtain ⟨h, hh, rfl⟩ := List.mem_map.mp hfield
      rw [beq_iff_eq]
      exact (fieldName_extra hargs hh).1
    have hclose : (fieldName (ascii "Connection: close") == ascii "host") = false := by decide
    rw [requestFields, List.filter_cons, if_pos (beq_iff_eq.mpr (fieldName_host _)),
      List.filter_cons, if_neg (by rw [hclose]; exact Bool.false_ne_true), hextra]
    rfl
  bodyless := by
    intro field hfield
    rcases List.mem_cons.mp hfield with rfl | hfield
    · rw [fieldName_host]
      decide
    rcases List.mem_cons.mp hfield with rfl | hfield
    · decide
    · obtain ⟨h, hh, rfl⟩ := List.mem_map.mp hfield
      exact (fieldName_extra hargs hh).2

end

/-! ## What is sent -/

section

variable {send : ℕ → ℤ} {len fuel k sent : ℕ}

/-- Success means that all is sent. -/
theorem connWriteAll_true (hfuel : len < fuel + sent) (hsent : sent ≤ len)
    (h : (connWriteAll send len fuel k sent).1 = true) :
    (connWriteAll send len fuel k sent).2 = len := by
  induction fuel generalizing k sent with
  | zero => omega
  | succ fuel ih =>
      rw [connWriteAll] at h ⊢
      split
      · next hmore =>
          rw [if_pos hmore] at h
          split
          · next hstop =>
              rw [if_pos hstop] at h
              cases h
          · next hgo =>
              rw [if_neg hgo] at h
              exact ih (by omega) (by omega) h
      · omega

theorem connWriteAll_of_pos (hsend : ∀ k, 0 < send k) (hfuel : len < fuel + sent)
    (hsent : sent ≤ len) : (connWriteAll send len fuel k sent).1 = true := by
  induction fuel generalizing k sent with
  | zero => omega
  | succ fuel ih =>
      rw [connWriteAll]
      split
      · have hpos := hsend k
        rw [if_neg (by omega)]
        exact ih (by omega) (by omega)
      · rfl

end

/-- A run as the plugin's arguments let it be: what is sent is a part of one
request, and all of it when the plugin gets an answer. -/
structure SendsOne (env : HttpGetEnv) (ip : Bytes) (args : HttpGetArgs) (run : HttpGetRun)
    (fields : List Bytes) (bytes : Bytes) : Prop where
  request : OneRequest args.method args.path fields bytes
  part : run.sent <+: bytes
  whole : ∀ reply, run.outcome = .replied reply → run.sent = bytes
  inBounds : run.outcome ≠ .raised .writesPast
  sent : (∀ k, env.alloc k = false) → (requestHead args.method args.path ip).length ≤ intMax →
    env.connect args.useTls args.port args.timeoutMs = none → (∀ k, 0 < env.send k) →
    run.sent = bytes

theorem sendsOne_of_error {env : HttpGetEnv} {ip : Bytes} {call : HttpGetCall}
    {args : HttpGetArgs} {bytes message : Bytes} {fieldLines : List Bytes}
    (h : checkArgs env call = .ok args)
    (hrequest : OneRequest args.method args.path fieldLines bytes)
    (hbuild : buildRequest env ip args = .error (.raised message))
    (hwhy : (∃ k, env.alloc k = true) ∨ intMax < (requestHead args.method args.path ip).length) :
    SendsOne env ip args (httpGet env ip call) fieldLines bytes := by
  have hrun : httpGet env ip call = ⟨[], .raised (.raised message)⟩ := by
    rw [httpGet, h]
    simp only [hbuild]
  rw [hrun]
  refine ⟨hrequest, List.nil_prefix, fun reply hreply => (nomatch hreply), ?_,
    fun halloc hsize _ _ => ?_⟩
  · intro hpast
    injection hpast with hpast
    cases hpast
  · rcases hwhy with ⟨k, hk⟩ | hlarge
    · rw [halloc k] at hk
      cases hk
    · exact absurd hsize (Nat.not_le.mpr hlarge)

theorem sendsOne_of_ok {env : HttpGetEnv} {ip : Bytes} {call : HttpGetCall}
    {args : HttpGetArgs} {fieldLines : List Bytes} {b : ReqBuf}
    (h : checkArgs env call = .ok args)
    (hrequest : OneRequest args.method args.path fieldLines b.bytes)
    (hbuild : buildRequest env ip args = .ok b) :
    SendsOne env ip args (httpGet env ip call) fieldLines b.bytes := by
  rw [httpGet, h]
  simp only [hbuild]
  cases hconnect : env.connect args.useTls args.port args.timeoutMs with
  | some reason =>
      refine ⟨hrequest, List.nil_prefix, fun reply hreply => (nomatch hreply),
        fun hpast => (nomatch hpast), fun _ _ hnone _ => ?_⟩
      rw [hconnect] at hnone
      cases hnone
  | none =>
      have hfuel : b.bytes.length < b.bytes.length + 1 + 0 := Nat.lt_succ_self _
      have hall := @connWriteAll_true env.send b.bytes.length _ 0 0 hfuel (Nat.zero_le _)
      have hgo := fun hsend =>
        @connWriteAll_of_pos env.send b.bytes.length _ 0 0 hsend hfuel (Nat.zero_le _)
      simp only
      cases hsend : connWriteAll env.send b.bytes.length (b.bytes.length + 1) 0 0 with
      | mk done sent =>
          rw [hsend] at hall hgo
          cases done with
          | false =>
              refine ⟨hrequest, List.take_prefix _ _, fun reply hreply => (nomatch hreply),
                fun hpast => (nomatch hpast), fun _ _ _ hpos => ?_⟩
              cases hgo hpos
          | true =>
              have hsent : sent = b.bytes.length := hall rfl
              subst hsent
              simp only [List.take_length]
              cases env.reply with
              | none =>
                  refine ⟨hrequest, List.prefix_rfl, fun reply hreply => (nomatch hreply), ?_,
                    fun _ _ _ _ => rfl⟩
                  intro hpast
                  injection hpast with hpast
                  cases hpast
              | some buf =>
                  exact ⟨hrequest, List.prefix_rfl, fun _ _ => rfl, fun hpast => (nomatch hpast),
                    fun _ _ _ _ => rfl⟩

/-- Whatever path, method and headers a plugin passes: if they are accepted,
what goes onto the wire is one request and nothing else. -/
theorem httpGet_sendsOne {env : HttpGetEnv} {a : BitVec 32} {call : HttpGetCall}
    {args : HttpGetArgs} (h : checkArgs env call = .ok args) :
    ∃ fields bytes, checkLstring env 2 call.path = .ok args.path ∧
      SendsOne env (inetNtop a) args (httpGet env (inetNtop a) call) fields bytes := by
  obtain ⟨hpath, headers, hargs⟩ := checkArgs_ok h
  have hrequest := @request_oneRequest args headers a hargs
  refine ⟨requestFields (inetNtop a) headers, requestHead args.method args.path (inetNtop a) ++
    (headers.flatMap fun h => headerLine h ++ crlf) ++ crlf, hpath, ?_⟩
  by_cases hsize : (requestHead args.method args.path (inetNtop a)).length ≤ intMax
  · have hbuilt := @buildRequest_built env (inetNtop a) args headers hargs hsize
    cases hbuild : buildRequest env (inetNtop a) args with
    | error e =>
        rw [hbuild] at hbuilt
        cases hbuilt with
        | failed halloc => exact sendsOne_of_error h hrequest hbuild (.inl ⟨_, halloc⟩)
    | ok b =>
        rw [hbuild] at hbuilt
        cases hbuilt with
        | ok hbytes hroom =>
            rw [← hbytes] at hrequest ⊢
            exact sendsOne_of_ok h hrequest hbuild
  · obtain ⟨message, hbuild⟩ := @buildRequest_large env (inetNtop a) args (Nat.not_le.mp hsize)
    exact sendsOne_of_error h hrequest hbuild (.inr (Nat.not_le.mp hsize))

/-- Surroundings in which nothing fails, and a server that says nothing. -/
def quietEnv : HttpGetEnv :=
  { toInteger := fun _ => some 80
    numberText := decimal
    clampTimeoutMs := fun ms => ms
    alloc := fun _ => false
    connect := fun _ _ _ => none
    send := fun _ => 16
    reply := some [] }

/-- `http_get(80, "/a", {method = "HEAD", headers = {["X-Id"] = "7: 8"}})`. -/
def headCall : HttpGetCall :=
  { port := .number 0
    path := .string (ascii "/a")
    opts := .table (fun field =>
        if field = ascii "method" then .string (ascii "HEAD")
        else if field = ascii "headers" then .table []
        else .nil)
      [(.string (ascii "X-Id"), .string (ascii "7: 8"))] }

def headArgs : HttpGetArgs :=
  ⟨80, ascii "/a", ascii "HEAD", 5000, false,
    [(.string (ascii "X-Id"), .string (ascii "7: 8"))]⟩

theorem httpGet_sendsOne_head :
    ∃ fields bytes, checkLstring quietEnv 2 headCall.path = .ok headArgs.path ∧
      SendsOne quietEnv (inetNtop 0x0A000001) headArgs
        (httpGet quietEnv (inetNtop 0x0A000001) headCall) fields bytes :=
  httpGet_sendsOne rfl

end Cytadel.Plugin
