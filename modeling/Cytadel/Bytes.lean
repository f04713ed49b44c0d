import Mathlib.Data.List.TakeWhile

/-!
# Bytes and C strings

Every text the scanner handles is a run of `unsigned char`: a version string,
a CPE field, a column of a row. A buffer with an explicit length is its list
of bytes. A C string is the part of such a buffer before its first NUL, which
is all that `strlen`, `strcmp` and `sqlite3_bind_text(.., -1, ..)` ever see.
-/

namespace Cytadel

abbrev Bytes := List UInt8

/-- The bytes of a literal of the source; every one of them is ASCII. -/
def ascii (s : String) : Bytes := s.toList.map fun c => UInt8.ofNat c.toNat

/-- What a C string function sees of a buffer: everything before the first
NUL. -/
def cstr (b : Bytes) : Bytes := b.takeWhile fun c => c != 0

theorem cstr_eq_self_iff {s : Bytes} : cstr s = s ↔ 0 ∉ s := by
  rw [cstr, List.takeWhile_eq_self_iff]
  constructor
  · intro h hmem
    have hzero := h 0 hmem
    cases hzero
  · intro h c hc
    refine bne_iff_ne.mpr ?_
    rintro rfl
    exact h hc

theorem zero_not_mem_cstr (s : Bytes) : 0 ∉ cstr s := by
  intro h
  have hne := List.mem_takeWhile_imp h
  exact absurd hne (by decide)

theorem cstr_cstr (s : Bytes) : cstr (cstr s) = cstr s :=
  cstr_eq_self_iff.mpr (zero_not_mem_cstr s)

/-- What stands behind the visible part begins with the NUL. -/
theorem eq_cstr_append {s : Bytes} (h : cstr s ≠ s) : ∃ rest, s = cstr s ++ 0 :: rest := by
  induction s with
  | nil => exact absurd rfl h
  | cons c s ih =>
      by_cases hc : c = 0
      · exact ⟨s, by simp [cstr, hc]⟩
      · have hcons : cstr (c :: s) = c :: cstr s := List.takeWhile_cons_of_pos (by simpa using hc)
        obtain ⟨rest, hrest⟩ := ih fun heq => h (by rw [hcons, heq])
        exact ⟨rest, by rw [hcons, List.cons_append, ← hrest]⟩

theorem cstr_append_nul {s rest : Bytes} (h : 0 ∉ s) : cstr (s ++ 0 :: rest) = s := by
  have hall : ∀ c ∈ s, (c != 0) = true := fun c hc => bne_iff_ne.mpr fun heq => h (heq ▸ hc)
  rw [cstr, List.takeWhile_append_of_pos hall]
  simp

/-- `clip_into`: the C string, cut to the `cap - 1` bytes its target holds. -/
def clipInto (cap : Nat) (src : Bytes) : Bytes := (cstr src).take (cap - 1)

/-- `clip_into_n`, for a span that is not NUL-terminated at its length. -/
def clipIntoN (cap : Nat) (src : Bytes) : Bytes := src.take (cap - 1)

def isDigitByte (c : UInt8) : Bool := 0x30 ≤ c && c ≤ 0x39

def toLowerAscii (c : UInt8) : UInt8 :=
  if 0x41 ≤ c && c ≤ 0x5A then c + 0x20 else c

/-- `clip_lower_into_n`: `clip_into_n` with every byte lower-cased. -/
def clipLowerIntoN (cap : Nat) (src : Bytes) : Bytes :=
  (src.take (cap - 1)).map toLowerAscii

/-- `%u` and `%zu`. -/
def decimal (n : Nat) : Bytes := (Nat.toDigits 10 n).map fun c => UInt8.ofNat c.toNat

/-- `%d` and `%lld`. -/
def decimalInt : Int → Bytes
  | .ofNat n => decimal n
  | .negSucc n => 0x2D :: decimal (n + 1)

/-- `memcmp` on two buffers of one length. -/
def memcmp : Bytes → Bytes → Ordering
  | x :: xs, y :: ys =>
      if x < y then .lt else if y < x then .gt else memcmp xs ys
  | _, _ => .eq

end Cytadel
