import Mathlib.Data.BitVec
import Cytadel.Bytes

/-!
# One target

`src/net/target.c` and `src/net/cidr.c`: a single host, as a literal or a name,
and a block of addresses. An error carries its text, cut to the buffer that it
is printed into. The numbers-and-dots form is the one that `inet_pton` takes:
four decimal fields without leading zeros.
-/

namespace Cytadel.Net

open Cytadel

/-- `isspace` in the C locale. -/
def isSpace (c : UInt8) : Bool := c == 0x20 || (0x09 ≤ c && c ≤ 0x0D)

/-- What `vsnprintf` leaves in an error buffer. -/
def errText (bufLen : ℕ) (msg : Bytes) : Bytes := msg.take (bufLen - 1)

/-- A text in single quotes. -/
def quoted (s : Bytes) : Bytes := [0x27] ++ s ++ [0x27]

/-! ## IPv4 literals -/

/-- The value of a run of digits. -/
def digitsValue (s : Bytes) : ℕ := s.foldl (fun v c => 10 * v + (c.toNat - 0x30)) 0

/-- One field of a dotted quad. -/
def octet (s : Bytes) : Option ℕ :=
  if s.isEmpty || !s.all isDigitByte then none
  else if s.length > 1 && s.head? == some 0x30 then none
  else if digitsValue s > 255 then none
  else some (digitsValue s)

/-- `inet_pton(AF_INET, ..)`, in host byte order. -/
def inetPton (s : Bytes) : Option (BitVec 32) :=
  match (s.splitOn 0x2E).map octet with
  | [some a, some b, some c, some d] => some (BitVec.ofNat 32 (((a * 256 + b) * 256 + c) * 256 + d))
  | _ => none

/-- `inet_ntop(AF_INET, ..)`. -/
def inetNtop (a : BitVec 32) : Bytes :=
  [0x2E].intercalate ([24, 16, 8, 0].map fun k => decimal ((a.toNat >>> k) % 256))

/-! ## One host -/

/-- An address that name resolution gives, in the order of the list. -/
inductive Address
  | inet (a : BitVec 32)
  | inet6
  deriving DecidableEq, Repr

/-- `cytadel_target_t`. -/
structure Target where
  host : Bytes
  ip : Bytes
  deriving DecidableEq, Repr

/-- `cytadel_target_status_t`, without its OK. -/
inductive TargetError
  | errMulti
  | errInvalid
  | errResolve
  deriving DecidableEq, Repr

/-- CYTADEL_NET_HOST_STR_MAX. -/
def hostStrMax : ℕ := 256

/-- CYTADEL_NET_IP_STR_MAX. -/
def ipStrMax : ℕ := 46

/-- `cytadel_target_looks_like_multi`. -/
def looksLikeMulti (spec : Bytes) : Bool :=
  spec.any fun c => c == 0x2F || c == 0x2C || isSpace c

/-- `cytadel_target_parse`, with the answer of `getaddrinfo` or the text of its
error. -/
def targetParse (getaddrinfo : Bytes → Except Bytes (List Address)) (errLen : ℕ) (spec : Bytes) :
    Except (TargetError × Bytes) Target :=
  let fail (e : TargetError) (msg : Bytes) : Except (TargetError × Bytes) Target :=
    .error (e, errText errLen msg)
  if spec.isEmpty then fail .errInvalid (ascii "empty target specification")
  else if spec.length ≥ hostStrMax then
    fail .errInvalid (ascii "target specification too long (max 255 bytes)")
  else if looksLikeMulti spec then
    fail .errMulti (ascii "multiple targets: " ++ quoted spec ++
      ascii " looks like a CIDR range or a host list, which is not supported yet -- Milestone 3")
  else
    match inetPton spec with
    | some a => .ok ⟨spec, inetNtop a⟩
    | none =>
        match getaddrinfo spec with
        | .error reason =>
            fail .errResolve
              (ascii "could not resolve host " ++ quoted spec ++ ascii ": " ++ reason)
        | .ok addrs =>
            let ipv4 := addrs.findSome? fun
              | .inet a => some a
              | .inet6 => none
            match ipv4 with
            | some a => .ok ⟨spec, inetNtop a⟩
            | none =>
                -- with no IPv4 address, any address is an IPv6 one
                if addrs.isEmpty then
                  fail .errResolve (ascii "host " ++ quoted spec ++
                    ascii " resolved to no usable address")
                else
                  fail .errResolve (ascii "host " ++ quoted spec ++
                    ascii " only resolved to IPv6 address(es); IPv6 targets are not supported yet")

/-! ## A block of addresses -/

/-- `cytadel_cidr_t`. -/
structure Cidr where
  network : BitVec 32
  len : ℕ
  deriving DecidableEq, Repr

/-- `cytadel_cidr_status_t`, without its OK. -/
inductive CidrError
  | errMalformed
  | errBadAddress
  | errBadPrefix
  deriving DecidableEq, Repr

/-- The bits that a block of this prefix length fixes. A shift by the whole
width is kept out by the case of length zero. -/
def cidrMask (len : ℕ) : BitVec 32 := if len = 0 then 0 else 0xFFFFFFFF#32 <<< (32 - len)

/-- `cytadel_cidr_parse`. -/
def cidrParse (errLen : ℕ) (spec : Bytes) : Except (CidrError × Bytes) Cidr :=
  let fail (e : CidrError) (msg : Bytes) : Except (CidrError × Bytes) Cidr :=
    .error (e, errText errLen msg)
  match spec.splitOn 0x2F with
  | [addr, len] =>
      if addr.isEmpty || addr.length ≥ ipStrMax then
        fail .errBadAddress (quoted spec ++ ascii " has an invalid address part before '/'")
      else
        match inetPton addr with
        | none => fail .errBadAddress (quoted addr ++ ascii " is not a valid IPv4 CIDR address")
        | some a =>
            if len.isEmpty || len.length > 2 then
              fail .errBadPrefix (quoted spec ++
                ascii " has an invalid prefix length (expected 0-32)")
            else if !len.all isDigitByte then
              fail .errBadPrefix (quoted spec ++ ascii " has a non-numeric prefix length")
            else if digitsValue len > 32 then
              fail .errBadPrefix (quoted spec ++
                ascii " has an out-of-range prefix length (expected 0-32)")
            else .ok ⟨a &&& cidrMask (digitsValue len), digitsValue len⟩
  | _ :: _ :: _ => fail .errMalformed (quoted spec ++ ascii " has more than one '/'")
  | _ => fail .errMalformed (quoted spec ++ ascii " is not a CIDR block (missing '/')")

/-- `cytadel_cidr_host_count`. -/
def Cidr.hostCount (c : Cidr) : ℕ := if c.len > 32 then 0 else 2 ^ (32 - c.len)

/-- `cytadel_cidr_nth_address`. -/
def Cidr.nthAddress (c : Cidr) (n : ℕ) : Option Bytes :=
  if n ≥ c.hostCount then none else some (inetNtop (c.network ||| BitVec.ofNat 32 n))

end Cytadel.Net
