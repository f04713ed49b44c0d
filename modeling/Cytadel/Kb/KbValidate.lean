import Cytadel.Bytes

/-!
# What the knowledge base admits

`src/kb/kb_validate.c`. A key is a C string of segments with single slashes
between them; a value is a buffer with its length, and is searched for a NUL
and for anything that is not strict UTF-8.
-/

namespace Cytadel.Kb

open Cytadel

/-- CYTADEL_KB_KEY_MAX_LEN. -/
def kbKeyMaxLen : ℕ := 255

/-- CYTADEL_KB_VALUE_MAX_LEN. -/
def kbValueMaxLen : ℕ := 4096

/-- The byte `/`. -/
def slash : UInt8 := 0x2F

/-- `ok_char`. -/
def okChar (c : UInt8) : Bool :=
  (0x41 ≤ c && c ≤ 0x5A) || (0x61 ≤ c && c ≤ 0x7A) || (0x30 ≤ c && c ≤ 0x39) ||
    c == 0x5F || c == 0x2E || c == 0x2D

/-- The loop over the key, with the length of the segment so far. It ends with
that of the last one, or early on a byte that is refused. -/
def scanSegments : Bytes → ℕ → Option ℕ
  | [], segLen => some segLen
  | c :: key, segLen =>
      if c = slash then
        if segLen = 0 then none else scanSegments key 0
      else if okChar c then scanSegments key (segLen + 1)
      else none

/-- `cytadel_kb_validate_key`. -/
def validateKey (key : Option Bytes) : Bool :=
  match key with
  | none => false
  | some buf =>
      let key := cstr buf
      if key.length = 0 ∨ key.length > kbKeyMaxLen then false
      else if key.head? = some slash ∨ key.getLast? = some slash then false
      else (scanSegments key 0).any fun segLen => segLen > 0

/-- `cytadel_kb_validate_no_embedded_nul`. -/
def validateNoEmbeddedNul (buf : Bytes) : Bool := buf.all fun c => c != 0

/-- `extra`, `lo` and `hi`: how many bytes follow the lead byte, and between
which bounds the first of them is. -/
structure Lead where
  extra : ℕ
  lo : UInt8
  hi : UInt8

def lead (b0 : UInt8) : Option Lead :=
  if 0xC2 ≤ b0 ∧ b0 ≤ 0xDF then some ⟨1, 0x80, 0xBF⟩
  else if b0 = 0xE0 then some ⟨2, 0xA0, 0xBF⟩
  else if 0xE1 ≤ b0 ∧ b0 ≤ 0xEC then some ⟨2, 0x80, 0xBF⟩
  else if b0 = 0xED then some ⟨2, 0x80, 0x9F⟩
  else if 0xEE ≤ b0 ∧ b0 ≤ 0xEF then some ⟨2, 0x80, 0xBF⟩
  else if b0 = 0xF0 then some ⟨3, 0x90, 0xBF⟩
  else if 0xF1 ≤ b0 ∧ b0 ≤ 0xF3 then some ⟨3, 0x80, 0xBF⟩
  else if b0 = 0xF4 then some ⟨3, 0x80, 0x8F⟩
  else none

/-- The bytes behind the lead byte: the first in its own range, the others in
that of every continuation byte. -/
def Lead.follows (l : Lead) : Bytes → Bool
  | [] => false
  | c1 :: cs => (l.lo ≤ c1 && c1 ≤ l.hi) && cs.all fun ck => 0x80 ≤ ck && ck ≤ 0xBF

/-- The loop of `cytadel_kb_validate_utf8`. The index moves by at least one,
so as many rounds as there are bytes are enough. -/
def utf8Loop : ℕ → Bytes → Bool
  | _, [] => true
  | 0, _ :: _ => false
  | fuel + 1, b0 :: rest =>
      if b0 < 0x80 then utf8Loop fuel rest
      else
        match lead b0 with
        | none => false
        | some l =>
            -- `i + extra >= len`
            if rest.length < l.extra then false
            else if l.follows (rest.take l.extra) then utf8Loop fuel (rest.drop l.extra)
            else false

/-- `cytadel_kb_validate_utf8`. -/
def validateUtf8 (buf : Bytes) : Bool := utf8Loop buf.length buf

/-! The same function by its indices. `buf[i]?` is the read of `buf[i]`, and is
nothing where that would be outside of the `len` bytes. -/

/-- The loop over the continuation bytes behind the first one. -/
def continuationReads (buf : Bytes) : ℕ → ℕ → Option Bool
  | 0, _ => some true
  | n + 1, k =>
      match buf[k]? with
      | none => none
      | some ck =>
          if ck < 0x80 ∨ ck > 0xBF then some false else continuationReads buf n (k + 1)

/-- The loop of `cytadel_kb_validate_utf8` from an index on. -/
def utf8Reads (buf : Bytes) : ℕ → ℕ → Option Bool
  | 0, i => some (decide (i ≥ buf.length))
  | fuel + 1, i =>
      if i < buf.length then
        match buf[i]? with
        | none => none
        | some b0 =>
            if b0 < 0x80 then utf8Reads buf fuel (i + 1)
            else
              match lead b0 with
              | none => some false
              | some l =>
                  if i + l.extra ≥ buf.length then some false
                  else
                    match buf[i + 1]? with
                    | none => none
                    | some c1 =>
                        if c1 < l.lo ∨ c1 > l.hi then some false
                        else
                          match continuationReads buf (l.extra - 1) (i + 2) with
                          | none => none
                          | some false => some false
                          | some true => utf8Reads buf fuel (i + (l.extra + 1))
      else some true

/-- `cytadel_kb_validate_utf8`, with its reads. -/
def validateUtf8Reads (buf : Bytes) : Option Bool := utf8Reads buf buf.length 0

end Cytadel.Kb
