import Cytadel.Net.Target

/-!
# A block of addresses, on machine words

The arithmetic of `src/net/cidr.c` on the words that the source computes with:
`uint32_t` for an address, `uint64_t` for a number of addresses. A shift by the
width of the word or more is undefined and has no result.
-/

namespace Cytadel.Net

open Cytadel

/-- `x << k`. -/
def shiftWord {w : ℕ} (x : BitVec w) (k : ℕ) : Option (BitVec w) :=
  if k < w then some (x <<< k) else none

/-- The mask of `cytadel_cidr_parse`. -/
def cidrMaskWord (len : ℕ) : Option (BitVec 32) :=
  if len = 0 then some 0 else shiftWord 0xFFFFFFFF#32 (32 - len)

/-- `cytadel_cidr_host_count`. -/
def Cidr.hostCountWord (c : Cidr) : Option (BitVec 64) :=
  if c.len > 32 then some 0 else shiftWord 1#64 (32 - c.len)

/-- The address that `cytadel_cidr_nth_address` prints, or no address for an
index outside of the block. -/
def Cidr.nthWord (c : Cidr) (n : BitVec 64) : Option (Option (BitVec 32)) :=
  match c.hostCountWord with
  | none => none
  | some count =>
      if count = 0 ∨ n ≥ count then some none else some (some (c.network ||| n.setWidth 32))

end Cytadel.Net
