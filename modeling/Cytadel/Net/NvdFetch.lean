import Cytadel.Report.RawBuffer

/-!
# The body of a response

`fetch_write_cb` of `src/net/nvd_fetch.c`, which curl calls with every piece of
a response that it receives. The sizes come from the peer and are of type
`size_t`: as for the report buffer, a size that does not fit in one is nothing
here, and so is a write outside of the block.
-/

namespace Cytadel.Net

open Cytadel Report

/-- What curl delivers: `nmemb` pieces of `size` bytes each, at `ptr`. -/
structure Delivery where
  ptr : ℕ → UInt8
  size : ℕ
  nmemb : ℕ
  size_le : size ≤ sizeMax
  nmemb_le : nmemb ≤ sizeMax

/-- `fetch_write_ctx_t`, with the number of requests for memory so far; a
buffer that is NULL is `none`. -/
structure FetchWriteCtx where
  buf : Option Bytes
  len : ℕ
  allocCap : ℕ
  hardCap : ℕ
  aborted : Bool
  allocs : ℕ

/-- The context that a transfer starts with: all zero, but for its cap. -/
def FetchWriteCtx.init (hardCap allocs : ℕ) : FetchWriteCtx := ⟨none, 0, 0, hardCap, false, allocs⟩

/-- A product of two sizes. -/
def sizeMul (a b : ℕ) : Option ℕ := if a * b ≤ sizeMax then some (a * b) else none

/-- A difference of two sizes. -/
def sizeSub (a b : ℕ) : Option ℕ := if b ≤ a then some (a - b) else none

section

variable (h : Heap)

/-- The part of `fetch_write_cb` that grows the block to `need` bytes. The
doubling is that of the report buffer, from another size on. -/
def fetchReserve (need : ℕ) (ctx : FetchWriteCtx) : Option (Bool × FetchWriteCtx) :=
  if need > ctx.allocCap then do
    let newCap ← rawGrow need 64 (if ctx.allocCap = 0 then 8192 else ctx.allocCap)
    let top ← sizeAdd ctx.hardCap 1
    let newCap := if newCap > top then top else newCap
    if h.refuses ctx.allocs then some (false, { ctx with allocs := ctx.allocs + 1 })
    else
      let old := ctx.buf.getD []
      some (true, { ctx with
        buf := some (old.take newCap ++
          (List.range (newCap - old.length)).map (h.fresh ctx.allocs))
        allocCap := newCap
        allocs := ctx.allocs + 1 })
  else some (true, ctx)

/-- `fetch_write_cb`, with its return value. -/
def fetchWriteCb (d : Delivery) (ctx : FetchWriteCtx) : Option (ℕ × FetchWriteCtx) :=
  if d.size ≠ 0 ∧ d.nmemb > sizeMax / d.size then some (0, { ctx with aborted := true })
  else do
    let add ← sizeMul d.size d.nmemb
    if add = 0 then some (0, ctx)
    else do
      let left ← sizeSub ctx.hardCap ctx.len
      if add > left then some (0, { ctx with aborted := true })
      else do
        let need ← (sizeAdd ctx.len add).bind fun len => sizeAdd len 1
        match fetchReserve h need ctx with
        | none => none
        | some (false, ctx) => some (0, { ctx with aborted := true })
        | some (true, ctx) => do
            let data ← writeAt (ctx.buf.getD []) ctx.len ((List.range add).map d.ptr)
            let len ← sizeAdd ctx.len add
            let data ← writeAt data len [0]
            some (add, { ctx with buf := some data, len := len })

/-- One delivery after the other, each with the value returned for it. -/
def fetchWriteAll : List Delivery → FetchWriteCtx → Option (List (Delivery × ℕ) × FetchWriteCtx)
  | [], ctx => some ([], ctx)
  | d :: ds, ctx =>
      match fetchWriteCb h d ctx with
      | none => none
      | some (ret, ctx) => (fetchWriteAll ds ctx).map fun done => ((d, ret) :: done.1, done.2)

end

end Cytadel.Net
