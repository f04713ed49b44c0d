import Cytadel.Lib.AllBytes
import Cytadel.Net.CidrWords

/-!
# Literals and blocks of addresses

An address and its dotted form determine each other. A block holds the
addresses that agree with its own on the first bits, each once and in
ascending order; on machine words no shift is undefined and nothing is lost,
whatever the prefix.
-/

namespace Cytadel.Net

open Cytadel

/-! ## The dotted form -/

theorem octet_decimal (b : UInt8) : octet (decimal b.toNat) = some b.toNat :=
  Lib.forall_byte (p := fun b => octet (decimal b.toNat) = some b.toNat) (by decide) b

theorem dot_not_mem_decimal (b : UInt8) : (0x2E : UInt8) ∉ decimal b.toNat :=
  Lib.forall_byte (p := fun b => (0x2E : UInt8) ∉ decimal b.toNat) (by decide) b

/-- `inet_pton` reads what `inet_ntop` prints. -/
theorem inetPton_inetNtop (a : BitVec 32) : inetPton (inetNtop a) = some a := by
  have hbyte : ∀ n, (UInt8.ofNat n).toNat = n % 256 := fun n => UInt8.toNat_ofNat'
  have hsplit : (inetNtop a).splitOn 0x2E =
      [24, 16, 8, 0].map fun k => decimal ((a.toNat >>> k) % 256) := by
    refine List.splitOn_intercalate _ (fun text htext => ?_) (by simp)
    obtain ⟨k, -, rfl⟩ := List.mem_map.mp htext
    rw [← hbyte]
    exact dot_not_mem_decimal _
  have hoctet : ∀ k, octet (decimal ((a.toNat >>> k) % 256)) = some ((a.toNat >>> k) % 256) := by
    intro k
    rw [← hbyte]
    exact octet_decimal _
  have hlt := a.isLt
  rw [inetPton, hsplit]
  simp only [List.map_cons, List.map_nil, hoctet]
  simp only [Nat.shiftRight_eq_div_pow]
  have hvalue : ((a.toNat / 2 ^ 24 % 256 * 256 + a.toNat / 2 ^ 16 % 256) * 256 +
      a.toNat / 2 ^ 8 % 256) * 256 + a.toNat / 2 ^ 0 % 256 = a.toNat := by
    omega
  rw [hvalue, BitVec.ofNat_toNat, BitVec.setWidth_eq]

theorem inetNtop_injective : Function.Injective inetNtop := by
  intro a b h
  have hread := inetPton_inetNtop a
  rw [h, inetPton_inetNtop b, Option.some.injEq] at hread
  exact hread.symm

/-! ## The addresses of a block -/

/-- The first `p` bits are those of `a`. -/
def SameNetwork (p : ℕ) (a x : BitVec 32) : Prop := ∀ i < p, x.getMsbD i = a.getMsbD i

/-- Every address of the network, once, in ascending order. -/
structure Block (a : BitVec 32) (p : ℕ) (xs : List (BitVec 32)) : Prop where
  length : xs.length = 2 ^ (32 - p)
  ascending : xs.Pairwise (· < ·)
  mem_iff : ∀ x, x ∈ xs ↔ SameNetwork p a x

theorem sameNetwork_iff {p : ℕ} (hp : p ≤ 32) (a x : BitVec 32) :
    SameNetwork p a x ↔ x.toNat / 2 ^ (32 - p) = a.toNat / 2 ^ (32 - p) := by
  have hbit : ∀ (y : BitVec 32) j,
      (y.toNat / 2 ^ (32 - p)).testBit j = y.getLsbD (j + (32 - p)) := by
    intro y j
    rw [← Nat.shiftRight_eq_div_pow, Nat.testBit_shiftRight, Nat.add_comm]
    rfl
  constructor
  · intro h
    refine Nat.eq_of_testBit_eq fun j => ?_
    rw [hbit, hbit]
    by_cases hj : j < p
    · have hsame := h (p - 1 - j) (by omega)
      rw [BitVec.getMsbD_eq_getLsbD, BitVec.getMsbD_eq_getLsbD] at hsame
      have hidx : 32 - 1 - (p - 1 - j) = j + (32 - p) := by omega
      rw [hidx] at hsame
      simpa [show p - 1 - j < 32 by omega] using hsame
    · rw [BitVec.getLsbD_of_ge _ _ (by omega), BitVec.getLsbD_of_ge _ _ (by omega)]
  · intro h i hi
    have hsame := congrArg (fun n => n.testBit (p - 1 - i)) h
    simp only [hbit] at hsame
    have hidx : p - 1 - i + (32 - p) = 32 - 1 - i := by omega
    rw [hidx] at hsame
    rw [BitVec.getMsbD_eq_getLsbD, BitVec.getMsbD_eq_getLsbD, hsame]

theorem and_cidrMask (p : ℕ) (a : BitVec 32) :
    (a &&& cidrMask p).toNat = a.toNat / 2 ^ (32 - p) * 2 ^ (32 - p) := by
  have hshift : a &&& cidrMask p = (a >>> (32 - p)) <<< (32 - p) := by
    rw [cidrMask]
    split
    · next hzero =>
        rw [hzero]
        simp
    · next hne =>
        have hones : 0xFFFFFFFF#32 = BitVec.allOnes 32 := rfl
        rw [hones]
        ext i hi
        simp only [BitVec.getElem_and, BitVec.getElem_shiftLeft, BitVec.getElem_ushiftRight,
          BitVec.getElem_allOnes]
        by_cases hlow : i < 32 - p
        · simp [hlow]
        · have hback : 32 - p + (i - (32 - p)) = i := by omega
          simp [hlow, hback, BitVec.getLsbD_eq_getElem hi]
  have hle := Nat.div_mul_le_self a.toNat (2 ^ (32 - p))
  have hlt := a.isLt
  rw [hshift, BitVec.toNat_shiftLeft, BitVec.toNat_ushiftRight, Nat.shiftRight_eq_div_pow,
    Nat.shiftLeft_eq, Nat.mod_eq_of_lt (by omega)]

/-- The addresses that a block is expanded to, by number. -/
def Cidr.addresses (c : Cidr) : List (BitVec 32) :=
  (List.range c.hostCount).map fun n => c.network ||| BitVec.ofNat 32 n

/-- What the parser makes of an address and a prefix length. -/
def cidrOf (a : BitVec 32) (p : ℕ) : Cidr := ⟨a &&& cidrMask p, p⟩

theorem cidrOf_hostCount {p : ℕ} (hp : p ≤ 32) (a : BitVec 32) :
    (cidrOf a p).hostCount = 2 ^ (32 - p) := if_neg (by show ¬ p > 32; omega)

/-- The number of an address fills the bits that the mask left free. -/
theorem network_or_toNat {p n : ℕ} (hp : p ≤ 32) (a : BitVec 32) (hn : n < 2 ^ (32 - p)) :
    ((a &&& cidrMask p) ||| BitVec.ofNat 32 n).toNat =
      a.toNat / 2 ^ (32 - p) * 2 ^ (32 - p) + n := by
  have hwidth : 2 ^ (32 - p) ≤ 2 ^ 32 := Nat.pow_le_pow_right (by decide) (by omega)
  rw [BitVec.toNat_or, and_cidrMask, BitVec.toNat_ofNat, Nat.mod_eq_of_lt (by omega),
    Nat.mul_comm, Nat.two_pow_add_eq_or_of_lt hn]

theorem cidrOf_block {p : ℕ} (hp : p ≤ 32) (a : BitVec 32) : Block a p (cidrOf a p).addresses := by
  have hpos : 0 < 2 ^ (32 - p) := Nat.two_pow_pos _
  refine ⟨?_, ?_, fun x => ?_⟩
  · rw [Cidr.addresses, List.length_map, List.length_range, cidrOf_hostCount hp]
  · rw [Cidr.addresses, cidrOf_hostCount hp, List.pairwise_map]
    refine List.pairwise_lt_range.imp_of_mem fun {m n} hm hn hlt => ?_
    rw [BitVec.lt_def, cidrOf, network_or_toNat hp a (List.mem_range.mp hm),
      network_or_toNat hp a (List.mem_range.mp hn)]
    omega
  · rw [sameNetwork_iff hp, Cidr.addresses, cidrOf_hostCount hp, List.mem_map]
    constructor
    · intro ⟨n, hn, hx⟩
      rw [← hx, cidrOf, network_or_toNat hp a (List.mem_range.mp hn), Nat.mul_comm,
        Nat.mul_add_div hpos, Nat.div_eq_of_lt (List.mem_range.mp hn), Nat.add_zero]
    · intro hx
      have hn : x.toNat % 2 ^ (32 - p) < 2 ^ (32 - p) := Nat.mod_lt _ hpos
      refine ⟨x.toNat % 2 ^ (32 - p), List.mem_range.mpr hn, BitVec.eq_of_toNat_eq ?_⟩
      rw [cidrOf, network_or_toNat hp a hn, ← hx, Nat.mul_comm]
      exact Nat.div_add_mod ..

/-! ## On machine words -/

/-- No shift is undefined, the count fits its word, and the address of a number
is the sum of network and number, without a carry out of the word. -/
structure WordSafe (a : BitVec 32) (p : ℕ) : Prop where
  mask : cidrMaskWord p = some (cidrMask p)
  count : (cidrOf a p).hostCountWord = some (BitVec.ofNat 64 (cidrOf a p).hostCount)
  count_toNat : (BitVec.ofNat 64 (cidrOf a p).hostCount).toNat = (cidrOf a p).hostCount
  nth : ∀ n < (cidrOf a p).hostCount, ∃ x,
    (cidrOf a p).nthWord (BitVec.ofNat 64 n) = some (some x) ∧
      x = (cidrOf a p).network ||| BitVec.ofNat 32 n ∧
        x.toNat = (cidrOf a p).network.toNat + n

theorem cidrOf_wordSafe {p : ℕ} (hp : p ≤ 32) (a : BitVec 32) : WordSafe a p := by
  have hcount := cidrOf_hostCount hp a
  have hwidth : 2 ^ (32 - p) ≤ 2 ^ 32 := Nat.pow_le_pow_right (by decide) (by omega)
  have hpos : 0 < 2 ^ (32 - p) := Nat.two_pow_pos _
  have hword : (cidrOf a p).hostCountWord = some (BitVec.ofNat 64 (cidrOf a p).hostCount) := by
    rw [Cidr.hostCountWord, if_neg (by show ¬ p > 32; omega), shiftWord,
      if_pos (by show 32 - p < 64; omega), hcount, Option.some.injEq]
    refine BitVec.eq_of_toNat_eq ?_
    show (1#64 <<< (32 - p)).toNat = _
    rw [BitVec.toNat_shiftLeft, BitVec.toNat_ofNat, Nat.shiftLeft_eq]
    simp
  have htoNat : (BitVec.ofNat 64 (cidrOf a p).hostCount).toNat = (cidrOf a p).hostCount := by
    rw [BitVec.toNat_ofNat, hcount, Nat.mod_eq_of_lt (by omega)]
  refine ⟨?_, hword, htoNat, fun n hn => ?_⟩
  · rw [cidrMaskWord, cidrMask]
    split
    · rfl
    · rw [shiftWord, if_pos (by omega)]
  · rw [hcount] at hn
    have hsmall : (BitVec.ofNat 64 n).toNat = n := by
      rw [BitVec.toNat_ofNat, Nat.mod_eq_of_lt (by omega)]
    refine ⟨(cidrOf a p).network ||| BitVec.ofNat 32 n, ?_, rfl, ?_⟩
    · rw [Cidr.nthWord, hword]
      simp only
      rw [if_neg]
      · rw [BitVec.setWidth_ofNat_of_le (by decide)]
      · rw [← BitVec.toNat_inj, ge_iff_le, BitVec.le_def, htoNat, hsmall, hcount]
        show ¬ (2 ^ (32 - p) = 0 ∨ 2 ^ (32 - p) ≤ n)
        omega
    · rw [cidrOf, network_or_toNat hp a hn, and_cidrMask]

end Cytadel.Net
