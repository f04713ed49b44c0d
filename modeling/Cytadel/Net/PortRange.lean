import Cytadel.Lib.Bitmap
import Cytadel.Net.Target

/-!
# The port specification

`src/net/port_range.c`: the argument of `--ports`, a list of ports and ranges
separated by commas. The ports are collected in a bitmap on the stack and read
off it in ascending order.
-/

namespace Cytadel.Net

open Cytadel

/-- CYTADEL_PORT_MIN. -/
def portMin : ℕ := 1

/-- CYTADEL_PORT_MAX. -/
def portMax : ℕ := 65535

/-- CYTADEL_PORT_SPEC_MAX_LEN. -/
def portSpecMaxLen : ℕ := 8192

/-- CYTADEL_PORT_SPEC_MAX_TOKENS. -/
def portSpecMaxTokens : ℕ := 4096

/-- CYTADEL_PORT_TOKEN_MAX_LEN. -/
def portTokenMaxLen : ℕ := 16

/-- CYTADEL_PORT_BITMAP_BYTES. -/
def portBitmapBytes : ℕ := (portMax + 1 + 7) / 8

/-- `cytadel_port_range_status_t`, without its OK. -/
inductive PortRangeError
  | errMalformed
  | errOutOfBounds
  | errEmpty
  | errTooMany
  | errAlloc
  deriving DecidableEq, Repr

/-- `cytadel_port_list_t`; the count is the length. -/
structure PortList where
  ports : List UInt16
  deriving DecidableEq, Repr

/-- The ports that one item of the list selects. -/
structure PortSpan where
  first : ℕ
  last : ℕ
  min_le : portMin ≤ first
  first_le : first ≤ last
  le_max : last ≤ portMax

/-- The loop of `cytadel_port_parse_uint`. -/
def parseUintLoop : Bytes → ℕ → Option ℕ
  | [], val => some val
  | c :: cs, val =>
      if c < 0x30 || 0x39 < c then none
      else
        let val := val * 10 + (c.toNat - 0x30)
        parseUintLoop cs (if val > 1000000 then 1000000 else val)

/-- `cytadel_port_parse_uint`. -/
def portParseUint (tok : Bytes) : Option ℕ :=
  if tok.length == 0 || tok.length > 6 then none else parseUintLoop tok 0

/-- `cytadel_port_bitmap_set`. -/
def portBitmapSet (bitmap : Lib.Bitmap portBitmapBytes) (port : ℕ) : Lib.Bitmap portBitmapBytes :=
  bitmap.set port

abbrev PortRangeResult (α : Type) := Except (PortRangeError × Bytes) α

section

variable (errLen : ℕ) (spec : Bytes)

def portRangeError {α : Type} (e : PortRangeError) (msg : Bytes) : PortRangeResult α :=
  .error (e, errText errLen msg)

/-- The numbers of one item. A second dash is an error before anything is read
of the item; the numbers are then compared with nothing yet. -/
def portTokenValues (tok : Bytes) : PortRangeResult (ℕ × ℕ) :=
  let dashPos := tok.idxOf 0x2D
  let dashCount := tok.count 0x2D
  if dashCount > 1 then
    portRangeError errLen .errMalformed (ascii "malformed port range token " ++ quoted tok)
  else if dashCount == 1 then
    let left := tok.take dashPos
    let right := tok.drop (dashPos + 1)
    if left.length == 0 || right.length == 0 then
      portRangeError errLen .errMalformed (ascii "malformed port range token " ++ quoted tok)
    else
      match portParseUint left, portParseUint right with
      | some startV, some endV => .ok (startV, endV)
      | _, _ =>
          portRangeError errLen .errMalformed (ascii "malformed port range token " ++ quoted tok)
  else
    match portParseUint tok with
    | some v => .ok (v, v)
    | none => portRangeError errLen .errMalformed (ascii "malformed port token " ++ quoted tok)

/-- What the loop does with one item, the `count`-th of the list. -/
def portToken (count : ℕ) (tok : Bytes) : PortRangeResult PortSpan :=
  if count > portSpecMaxTokens then
    portRangeError errLen .errTooMany
      (ascii "too many comma-separated tokens in port spec (max 4096)")
  else if tok.length == 0 || tok.length > portTokenMaxLen then
    portRangeError errLen .errMalformed
      (ascii "malformed port token (empty or too long) in " ++ quoted spec)
  else
    match portTokenValues errLen tok with
    | .error e => .error e
    | .ok (startV, endV) =>
        if hbound : startV < portMin ∨ startV > portMax ∨ endV < portMin ∨ endV > portMax then
          portRangeError errLen .errOutOfBounds
            (ascii "port value out of range 1-65535 in token " ++ quoted tok)
        else if horder : startV > endV then
          portRangeError errLen .errMalformed
            (ascii "invalid range (start > end) in token " ++ quoted tok)
        else .ok ⟨startV, endV, by omega, by omega, by omega⟩

/-- The loop over the items, with the number of items that came before. -/
def portTokenLoop (rest : Bytes) (count : ℕ) (bitmap : Lib.Bitmap portBitmapBytes) :
    PortRangeResult (Lib.Bitmap portBitmapBytes) :=
  match portToken errLen spec (count + 1) (rest.takeWhile (· != 0x2C)) with
  | .error e => .error e
  | .ok span =>
      let bitmap := (List.range' span.first (span.last + 1 - span.first)).foldl portBitmapSet bitmap
      match _htail : rest.dropWhile (· != 0x2C) with
      | [] => .ok bitmap
      | _ :: tail => portTokenLoop tail (count + 1) bitmap
termination_by rest.length
decreasing_by
  have hle := List.length_dropWhile_le (· != 0x2C) rest
  rw [_htail, List.length_cons] at hle
  omega

end

/-- The ports of the bitmap, as the last loop copies them. -/
def portsOf (bitmap : Lib.Bitmap portBitmapBytes) : List UInt16 :=
  ((List.range' portMin (portMax + 1 - portMin)).filter bitmap.test).map UInt16.ofNat

/-- The reading of the spec; `malloc` says whether memory for so many bytes is
denied. -/
def portRangeRead (malloc : ℕ → Bool) (errLen : ℕ) (spec : Option Bytes) :
    PortRangeResult PortList :=
  match spec.filter fun s => !s.isEmpty with
  | none => portRangeError errLen .errMalformed (ascii "empty port specification")
  | some spec =>
      if spec.length ≥ portSpecMaxLen then
        portRangeError errLen .errMalformed
          (ascii "port specification too long (max 8191 bytes)")
      else
        match portTokenLoop errLen spec spec 0 (Lib.Bitmap.empty portBitmapBytes) with
        | .error e => .error e
        | .ok bitmap =>
            let ports := portsOf bitmap
            if ports.length == 0 then
              portRangeError errLen .errEmpty (ascii "port specification selected zero ports")
            else if malloc (ports.length * 2) then
              portRangeError errLen .errAlloc (ascii "out of memory allocating port list")
            else .ok ⟨ports⟩

/-- What a call leaves behind: its status, with the text in the error buffer
if it is not OK, and the caller's list. -/
structure PortRangeCall where
  status : PortRangeResult Unit
  outList : Option PortList

/-- `cytadel_port_range_parse`; a pointer that is NULL is `none`. -/
def portRangeParse (malloc : ℕ → Bool) (errLen : ℕ) (spec : Option Bytes)
    (outList : Option PortList) : PortRangeCall :=
  match outList with
  | none =>
      ⟨portRangeError errLen .errMalformed (ascii "internal error: out_list is NULL"), none⟩
  | some old =>
      match portRangeRead malloc errLen spec with
      | .error e => ⟨.error e, some old⟩
      | .ok list => ⟨.ok (), some list⟩

end Cytadel.Net
