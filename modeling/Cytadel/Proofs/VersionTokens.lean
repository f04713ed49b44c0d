import Cytadel.Match.VersionCompare

/-!
# The comparator on token lists

The two loops of the comparator stream their tokens off a buffer and run on
fuel. Both are functions of the list of tokens alone, each token paired with
the suffix after it (the ambiguous-letter guard looks one byte past its
token). Here that list is built once, the fuel is shown to be enough, and the
loops become structural recursions on it.
-/

namespace Cytadel.Match

open Cytadel

theorem length_dropWhile_le {α : Type} (p : α → Bool) (l : List α) :
    (l.dropWhile p).length ≤ l.length :=
  (List.dropWhile_sublist p).length_le

/-- A run that starts with a byte of its own class is not empty. -/
theorem length_dropWhile_cons_lt {p : UInt8 → Bool} {c : UInt8} {l : Bytes}
    (hc : p c = true) : ((c :: l).dropWhile p).length < (c :: l).length := by
  rw [List.dropWhile_cons_of_pos hc]
  exact Nat.lt_succ_of_le (length_dropWhile_le p l)

theorem dropWhile_head {p : UInt8 → Bool} {l : Bytes} {c : UInt8} {cs : Bytes}
    (h : l.dropWhile p = c :: cs) : p c = false := by
  induction l with
  | nil => cases h
  | cons x xs ih =>
      rw [List.dropWhile_cons] at h
      split at h
      · exact ih h
      · next hx =>
          injection h with hxc _
          rw [← hxc]
          simpa using hx

/-- What a token is: the buffer behind its delimiters starts with a byte of
the token's class, and the token is the longest run of that class. -/
theorem nextToken_some {buf rest : Bytes} {t : Token}
    (h : nextToken buf = some (t, rest)) :
    ∃ c cs, buf.dropWhile isDelimByte = c :: cs ∧
      ((t.typ = .num ∧ isDigitByte c = true ∧
          t.text = (c :: cs).takeWhile isDigitByte ∧
          rest = (c :: cs).dropWhile isDigitByte) ∨
        (t.typ = .alpha ∧ isAlphaByte c = true ∧
          t.text = (c :: cs).takeWhile isAlphaByte ∧
          rest = (c :: cs).dropWhile isAlphaByte)) := by
  unfold nextToken at h
  simp only [] at h
  split at h
  · cases h
  · next c cs hp =>
      refine ⟨c, cs, hp, ?_⟩
      split at h
      · next hd =>
          injection h with h
          injection h with ht hr
          subst ht hr
          exact Or.inl ⟨rfl, hd, by rw [hp], by rw [hp]⟩
      · next hd =>
          injection h with h
          injection h with ht hr
          subst ht hr
          have halpha : isAlphaByte c = true := by
            simp [isAlphaByte, hd, dropWhile_head hp]
          exact Or.inr ⟨rfl, halpha, by rw [hp], by rw [hp]⟩

theorem nextToken_shrink {buf rest : Bytes} {t : Token}
    (h : nextToken buf = some (t, rest)) : rest.length < buf.length := by
  obtain ⟨c, cs, hp, hcase⟩ := nextToken_some h
  have hle : (c :: cs).length ≤ buf.length :=
    hp ▸ length_dropWhile_le isDelimByte buf
  rcases hcase with ⟨_, hc, _, rfl⟩ | ⟨_, hc, _, rfl⟩
  · exact Nat.lt_of_lt_of_le (length_dropWhile_cons_lt hc) hle
  · exact Nat.lt_of_lt_of_le (length_dropWhile_cons_lt hc) hle

/-! ## The token list -/

def streamGo : Nat → Bytes → List (Token × Bytes)
  | 0, _ => []
  | fuel + 1, buf =>
      match nextToken buf with
      | none => []
      | some (t, rest) => (t, rest) :: streamGo fuel rest

/-- Every token of a buffer, each with the suffix after it. -/
def tokenStream (buf : Bytes) : List (Token × Bytes) :=
  streamGo (buf.length + 1) buf

theorem streamGo_congr : ∀ (fuel₁ fuel₂ : Nat) (buf : Bytes),
    buf.length < fuel₁ → buf.length < fuel₂ →
    streamGo fuel₁ buf = streamGo fuel₂ buf := by
  intro fuel₁
  induction fuel₁ with
  | zero =>
      intro fuel₂ buf h₁ _
      exact absurd h₁ (Nat.not_lt_zero _)
  | succ a ih =>
      intro fuel₂ buf h₁ h₂
      obtain ⟨b, rfl⟩ : ∃ b, fuel₂ = b + 1 := ⟨fuel₂ - 1, by omega⟩
      simp only [streamGo]
      split
      · rfl
      · next t rest ht =>
          have hr := nextToken_shrink ht
          rw [ih b rest (by omega) (by omega)]

theorem tokenStream_none {buf : Bytes} (h : nextToken buf = none) :
    tokenStream buf = [] := by
  rw [tokenStream, streamGo, h]

theorem tokenStream_some {buf rest : Bytes} {t : Token}
    (h : nextToken buf = some (t, rest)) :
    tokenStream buf = (t, rest) :: tokenStream rest := by
  have hr := nextToken_shrink h
  rw [tokenStream, streamGo, h]
  exact congrArg ((t, rest) :: ·)
    (streamGo_congr buf.length (rest.length + 1) rest hr (Nat.lt_succ_self _))

/-! ## The loops on token lists -/

/-- `residualVerdict` on the tokens that are left. -/
def residualOf : List (Token × Bytes) → Vercmp
  | [] => .equal
  | (t, rest) :: ts =>
      match t.typ with
      | .num => if !isAllZeroDigits t.text then .greater else residualOf ts
      | .alpha =>
          if isPrereleaseKeyword t.text then .less
          else if isReleaseEquivalentKeyword t.text then residualOf ts
          else if !t.delimSkipped then
            if isAmbiguousAttachedLetter t.text rest then .undecidable
            else .greater
          else .undecidable

theorem residualGo_eq : ∀ (fuel : Nat) (buf : Bytes), buf.length < fuel →
    residualGo fuel buf = residualOf (tokenStream buf) := by
  intro fuel
  induction fuel with
  | zero =>
      intro buf h
      exact absurd h (Nat.not_lt_zero _)
  | succ n ih =>
      intro buf h
      rw [residualGo]
      cases hnext : nextToken buf with
      | none => rw [tokenStream_none hnext]; rfl
      | some tr =>
          obtain ⟨t, rest⟩ := tr
          have hr := nextToken_shrink hnext
          have hrest := ih rest (by omega)
          rw [tokenStream_some hnext, residualOf]
          cases htyp : t.typ <;> simp only [htyp, hrest]

theorem residualVerdict_eq (buf : Bytes) :
    residualVerdict buf = residualOf (tokenStream buf) :=
  residualGo_eq _ buf (Nat.lt_succ_self _)

/-- Two components at one position. -/
def cmpTokens (a b : Token) : Vercmp :=
  match a.typ, b.typ with
  | .num, .num => cmpDigitRuns a.text b.text
  | .alpha, .alpha => cmpAlphaTokens a.text b.text
  | _, _ => .undecidable

/-- The lockstep loop on the tokens of both sides. -/
def lockstepOf : List (Token × Bytes) → List (Token × Bytes) → Vercmp
  | [], [] => .equal
  | [], b :: bs => (residualOf (b :: bs)).mirror
  | a :: as, [] => residualOf (a :: as)
  | a :: as, b :: bs =>
      if cmpTokens a.1 b.1 != .equal then cmpTokens a.1 b.1 else lockstepOf as bs

theorem lockstepGo_eq : ∀ (fuel : Nat) (a b : Bytes), a.length < fuel →
    lockstepGo fuel a b = lockstepOf (tokenStream a) (tokenStream b) := by
  intro fuel
  induction fuel with
  | zero =>
      intro a b h
      exact absurd h (Nat.not_lt_zero _)
  | succ n ih =>
      intro a b h
      rw [lockstepGo]
      cases ha : nextToken a with
      | none =>
          cases hb : nextToken b with
          | none => rw [tokenStream_none ha, tokenStream_none hb]; rfl
          | some tb =>
              simp only [residualVerdict_eq, tokenStream_none ha, tokenStream_some hb]
              rfl
      | some ta =>
          have hr := nextToken_shrink ha
          cases hb : nextToken b with
          | none =>
              simp only [residualVerdict_eq, tokenStream_none hb, tokenStream_some ha]
              rfl
          | some tb =>
              simp only [tokenStream_some ha, tokenStream_some hb, lockstepOf]
              rw [ih ta.2 tb.2 (by omega)]
              rfl

/-- The tokens the comparator sees of a version string: what is left of it
without the `v`, the epoch and the build metadata. -/
def versionTokens (s : Bytes) : List (Token × Bytes) :=
  tokenStream (cutBuildMetadata (splitEpoch (stripVPrefix s)).2)

/-- The epoch of a version string, as digits. -/
def versionEpoch (s : Bytes) : Bytes := (splitEpoch (stripVPrefix s)).1

theorem tokenStream_isEmpty (buf : Bytes) :
    (tokenStream buf).isEmpty = (nextToken buf).isNone := by
  cases h : nextToken buf with
  | none => simp [tokenStream_none h]
  | some tr =>
      obtain ⟨t, rest⟩ := tr
      simp [tokenStream_some h]

/-- The comparator in terms of epochs and token lists. -/
theorem versionCompare_eq (a b : Bytes) :
    versionCompare a b =
      if hasDisallowedByte a || hasDisallowedByte b then .undecidable
      else if (versionTokens a).isEmpty || (versionTokens b).isEmpty then
        .undecidable
      else if cmpDigitRuns (versionEpoch a) (versionEpoch b) != .equal then
        cmpDigitRuns (versionEpoch a) (versionEpoch b)
      else lockstepOf (versionTokens a) (versionTokens b) := by
  unfold versionCompare
  simp only [versionTokens, versionEpoch, tokenStream_isEmpty]
  rw [lockstepGo_eq _ _ _ (Nat.lt_succ_self _)]
  rfl

example : versionCompare (ascii "v1.0-rc1") (ascii "0:1.0+deb") = .less := by decide +kernel

end Cytadel.Match
