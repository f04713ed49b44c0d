import Cytadel.Report.Escape

/-!
# The report buffer in memory

`buf_reserve` and `buf_append` of `src/report/escape.c` on the block of memory
that they manage. Sizes are of type `size_t`: a sum that does not fit in one is
nothing here, and so is a write outside of the block; neither has a meaning in
the source. A block that grew is the old one and behind it whatever the heap
has there.
-/

namespace Cytadel.Report

open Cytadel

/-- The heap: which requests for memory it refuses, by their number, and what a
new block holds. -/
structure Heap where
  refuses : ℕ → Bool
  fresh : ℕ → ℕ → UInt8

/-- `cytadel_report_buf_t` with its block, which is empty for NULL, and the
number of requests for memory so far. -/
structure RawBuf where
  data : Bytes
  len : ℕ
  cap : ℕ
  allocs : ℕ
  deriving DecidableEq, Repr

/-- `cytadel_report_buf_init`. -/
def RawBuf.init (allocs : ℕ) : RawBuf := ⟨[], 0, 0, allocs⟩

/-- A sum of two sizes. -/
def sizeAdd (a b : ℕ) : Option ℕ := if a + b ≤ sizeMax then some (a + b) else none

/-- The bytes at a place of a block are replaced. -/
def writeAt (data : Bytes) (i : ℕ) (src : Bytes) : Option Bytes :=
  if i + src.length ≤ data.length then
    some (data.take i ++ src ++ data.drop (i + src.length))
  else none

/-- The loop that doubles the capacity. -/
def rawGrow (need : ℕ) : ℕ → ℕ → Option ℕ
  | 0, _ => none
  | turns + 1, newCap =>
      if newCap ≥ need then some newCap
      else if newCap > sizeMax / 2 then some need
      else
        match sizeAdd newCap newCap with
        | none => none
        | some doubled => rawGrow need turns doubled

section

variable (h : Heap)

/-- `buf_reserve`. -/
def rawReserve (extra : ℕ) (b : RawBuf) : Option (Bool × RawBuf) :=
  if b.len > sizeMax - 1 then some (false, b)
  else do
    let base ← sizeAdd b.len 1
    if extra > sizeMax - base then some (false, b)
    else do
      let need ← sizeAdd base extra
      if need ≤ b.cap then some (true, b)
      else do
        let newCap ← rawGrow need 64 (if b.cap = 0 then 64 else b.cap)
        if h.refuses b.allocs then some (false, { b with allocs := b.allocs + 1 })
        else
          some (true, { b with
            data := b.data.take newCap ++
              (List.range (newCap - b.data.length)).map (h.fresh b.allocs)
            cap := newCap
            allocs := b.allocs + 1 })

/-- `buf_append`. -/
def rawAppend (src : Bytes) (b : RawBuf) : Option (Bool × RawBuf) :=
  match rawReserve h src.length b with
  | none => none
  | some (false, b) => some (false, b)
  | some (true, b) => do
      let data ← writeAt b.data b.len src
      let len ← sizeAdd b.len src.length
      let data ← writeAt data len [0]
      some (true, { b with data := data, len := len })

/-- Appends in order, up to the first that fails. -/
def rawAppendAll : List Bytes → RawBuf → Option (Bool × RawBuf)
  | [], b => some (true, b)
  | src :: rest, b =>
      match rawAppend h src b with
      | none => none
      | some (false, b) => some (false, b)
      | some (true, b) => rawAppendAll rest b

end

/-- The escapers of `escape.h`. -/
inductive Escaper
  | htmlBody
  | htmlAttr
  | url
  | json
  deriving DecidableEq, Repr

namespace Escaper

/-- What is appended, in pieces that are reserved whole. -/
def pieces : Escaper → Bytes → List Bytes
  | .htmlBody => escapeHtmlBody
  | .htmlAttr => escapeHtmlAttr
  | .url => escapeUrl
  | .json => escapeJson

/-- The copy that the URL escaper makes of its input is a request for memory
before anything is appended. -/
def takesMemory : Escaper → Bytes → Bool
  | .url, input => urlTakesMemory input
  | _, _ => false

/-- A call of an escaper. -/
def run (h : Heap) (e : Escaper) (input : Bytes) (b : RawBuf) : Option (Bool × RawBuf) :=
  if e.takesMemory input then
    if h.refuses b.allocs then some (false, { b with allocs := b.allocs + 1 })
    else rawAppendAll h (e.pieces input) { b with allocs := b.allocs + 1 }
  else rawAppendAll h (e.pieces input) b

end Escaper

end Cytadel.Report
