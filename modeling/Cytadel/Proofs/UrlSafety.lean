import Cytadel.Lib.AllBytes
import Cytadel.Report.Escape

/-!
# What can stand in a link

The URL escaper decides on a cleaned copy of its input and writes the encoded
copy. Encoding does not touch what the decision rests on: a scheme and the
colon behind it are safe bytes, and a byte that is not becomes `%`, which no
scheme has. So the text that is written would be allowed itself, and writing it
again changes nothing.
-/

namespace Cytadel.Report

open Cytadel Lib

/-- A printable byte of ASCII that is no quote, no apostrophe, no angle
bracket, no ampersand and no backtick. -/
def UrlByte (c : UInt8) : Prop :=
  0x20 < c ∧ c < 0x7F ∧ c ∉ ([0x22, 0x27, 0x3C, 0x3E, 0x26, 0x60] : Bytes)

instance (c : UInt8) : Decidable (UrlByte c) := inferInstanceAs (Decidable (_ ∧ _ ∧ _))

def isUpperHex (c : UInt8) : Bool := isDigitByte c || (0x41 ≤ c && c ≤ 0x46)

/-- A safe byte, or `%` and two hexadecimal digits. -/
def UrlUnit (u : Bytes) : Prop :=
  (∃ c, urlIsSafeChar c = true ∧ u = [c]) ∨
    ∃ hi lo, isUpperHex hi = true ∧ isUpperHex lo = true ∧ u = [0x25, hi, lo]

/-- The grammar of schemes of RFC 3986. -/
def RfcScheme (s : Bytes) : Prop :=
  ∃ c cs, s = c :: cs ∧ isAlphaAscii c = true ∧ ∀ x ∈ cs, isSchemeChar x = true

/-- A text with every unsafe byte encoded. -/
def urlEncode (s : Bytes) : Bytes := s.flatMap urlEncodeOne

/-! ## The bytes -/

theorem safe_urlByte {c : UInt8} (h : urlIsSafeChar c = true) : UrlByte c := by
  have hall : ∀ c : UInt8, urlIsSafeChar c = true → UrlByte c := forall_byte (by decide)
  exact hall c h

theorem safe_of_scheme {c : UInt8} (h : isSchemeChar c = true) : urlIsSafeChar c = true := by
  have hall : ∀ c : UInt8, isSchemeChar c = true → urlIsSafeChar c = true := forall_byte (by decide)
  exact hall c h

theorem scheme_of_alpha {c : UInt8} (h : isAlphaAscii c = true) : isSchemeChar c = true := by
  rw [isSchemeChar, h]
  rfl

theorem hexDigitUpper_hex {n : ℕ} (h : n < 16) : isUpperHex (hexDigitUpper n) = true := by
  revert n
  decide

theorem safe_of_hex {c : UInt8} (h : isUpperHex c = true) : urlIsSafeChar c = true := by
  have hall : ∀ c : UInt8, isUpperHex c = true → urlIsSafeChar c = true := forall_byte (by decide)
  exact hall c h

theorem urlEncodeOne_safe {c : UInt8} (h : urlIsSafeChar c = true) : urlEncodeOne c = [c] := by
  rw [urlEncodeOne, if_pos h]

theorem urlEncodeOne_unsafe {c : UInt8} (h : urlIsSafeChar c = false) :
    urlEncodeOne c = [0x25, hexDigitUpper (c.toNat / 16), hexDigitUpper (c.toNat % 16)] := by
  rw [urlEncodeOne, if_neg (by simp [h])]

theorem urlEncodeOne_unit (c : UInt8) : UrlUnit (urlEncodeOne c) := by
  cases h : urlIsSafeChar c with
  | true => exact .inl ⟨c, h, urlEncodeOne_safe h⟩
  | false =>
      have hc := c.toNat_lt
      exact .inr ⟨_, _, hexDigitUpper_hex (by omega), hexDigitUpper_hex (by omega),
        urlEncodeOne_unsafe h⟩

theorem UrlUnit.safe {u : Bytes} (h : UrlUnit u) : ∀ c ∈ u, urlIsSafeChar c = true := by
  rcases h with ⟨c, hc, rfl⟩ | ⟨hi, lo, hhi, hlo, rfl⟩
  · simpa using hc
  · simp only [List.forall_mem_cons, List.not_mem_nil, false_implies, implies_true, and_true]
    exact ⟨by decide, safe_of_hex hhi, safe_of_hex hlo⟩

theorem urlEncode_safe (s : Bytes) : ∀ c ∈ urlEncode s, urlIsSafeChar c = true := by
  intro c hc
  obtain ⟨b, -, hb⟩ := List.mem_flatMap.mp hc
  exact (urlEncodeOne_unit b).safe c hb

theorem urlEncode_cons_safe {c : UInt8} (h : urlIsSafeChar c = true) (s : Bytes) :
    urlEncode (c :: s) = c :: urlEncode s := by
  rw [urlEncode, List.flatMap_cons, urlEncodeOne_safe h]
  rfl

theorem urlEncode_cons_unsafe {c : UInt8} (h : urlIsSafeChar c = false) (s : Bytes) :
    ∃ rest, urlEncode (c :: s) = 0x25 :: rest := by
  rw [urlEncode, List.flatMap_cons, urlEncodeOne_unsafe h]
  exact ⟨_, rfl⟩

/-- Safe bytes are not encoded. -/
theorem urlEncode_id {s : Bytes} (h : ∀ c ∈ s, urlIsSafeChar c = true) : urlEncode s = s := by
  induction s with
  | nil => rfl
  | cons c s ih =>
      rw [List.forall_mem_cons] at h
      rw [urlEncode_cons_safe h.1, ih h.2]

/-! ## The decision -/

/-- The first byte tells, also when it was encoded. -/
theorem urlEncode_head {p : UInt8 → Bool} (hp : ∀ c, p c = true → urlIsSafeChar c = true)
    (hpercent : p 0x25 = false) (c : UInt8) (s : Bytes) :
    ∃ d rest, urlEncode (c :: s) = d :: rest ∧ p d = p c ∧
      (p c = true → d = c ∧ rest = urlEncode s) := by
  cases h : urlIsSafeChar c with
  | true => exact ⟨c, urlEncode s, urlEncode_cons_safe h s, rfl, fun _ => ⟨rfl, rfl⟩⟩
  | false =>
      obtain ⟨rest, hrest⟩ := urlEncode_cons_unsafe h s
      have hc : p c = false := by
        cases hpc : p c with
        | false => rfl
        | true => rw [hp c hpc] at h; cases h
      exact ⟨0x25, rest, hrest, by rw [hpercent, hc], fun h => by rw [hc] at h; cases h⟩

/-- A run of bytes that are not encoded is the same run behind the encoding. -/
theorem urlEncode_run {p : UInt8 → Bool} (hp : ∀ c, p c = true → urlIsSafeChar c = true)
    (hpercent : p 0x25 = false) (s : Bytes) :
    (urlEncode s).takeWhile p = s.takeWhile p ∧
      (urlEncode s).dropWhile p = urlEncode (s.dropWhile p) := by
  induction s with
  | nil => exact ⟨rfl, rfl⟩
  | cons c s ih =>
      obtain ⟨d, rest, henc, hd, hsame⟩ := urlEncode_head hp hpercent c s
      cases hc : p c with
      | true =>
          obtain ⟨rfl, rfl⟩ := hsame hc
          rw [henc, List.takeWhile_cons_of_pos hc, List.takeWhile_cons_of_pos hc,
            List.dropWhile_cons_of_pos hc, List.dropWhile_cons_of_pos hc, ih.1, ih.2]
          exact ⟨rfl, rfl⟩
      | false =>
          have hdneg : ¬ p d = true := by rw [hd, hc]; decide
          have hcneg : ¬ p c = true := by rw [hc]; decide
          rw [List.takeWhile_cons_of_neg hcneg, List.dropWhile_cons_of_neg hcneg, henc,
            List.takeWhile_cons_of_neg hdneg, List.dropWhile_cons_of_neg hdneg]
          exact ⟨rfl, rfl⟩

/-- The byte in front, when it is one that is not encoded. -/
theorem urlEncode_head? {b : UInt8} (hb : urlIsSafeChar b = true) (hb' : b ≠ 0x25) (s : Bytes) :
    (urlEncode s).head? = some b ↔ s.head? = some b := by
  cases s with
  | nil => rfl
  | cons c s =>
      have hp : ∀ c, (c == b) = true → urlIsSafeChar c = true := by
        intro c hc
        rwa [beq_iff_eq.mp hc]
      obtain ⟨d, rest, henc, hd, -⟩ :=
        @urlEncode_head (· == b) hp (beq_false_of_ne (Ne.symm hb')) c s
      rw [henc, List.head?_cons, List.head?_cons, Option.some.injEq, Option.some.injEq]
      rw [Bool.eq_iff_iff, beq_iff_eq, beq_iff_eq] at hd
      exact hd

/-- `urlScheme`, by what is behind the first byte. -/
theorem urlScheme_eq (s : Bytes) : urlScheme s =
    match s with
    | c :: cs => if isAlphaAscii c = true ∧ (cs.dropWhile isSchemeChar).head? = some 0x3A then
        some (c :: cs.takeWhile isSchemeChar) else none
    | [] => none := by
  cases s with
  | nil => rfl
  | cons c cs =>
      simp only [urlScheme]
      by_cases halpha : isAlphaAscii c = true
      · rw [if_pos halpha]
        split
        · next h => rw [if_pos ⟨halpha, by rw [h]; rfl⟩]
        · next h =>
            rw [if_neg]
            rintro ⟨-, hhead⟩
            obtain ⟨rest, hrest⟩ := List.head?_eq_some_iff.mp hhead
            exact h rest hrest
      · rw [if_neg halpha, if_neg (fun h => halpha h.1)]

theorem urlScheme_encode (s : Bytes) : urlScheme (urlEncode s) = urlScheme s := by
  cases s with
  | nil => rfl
  | cons c cs =>
      have hp : ∀ c, isAlphaAscii c = true → urlIsSafeChar c = true :=
        fun c hc => safe_of_scheme (scheme_of_alpha hc)
      obtain ⟨d, rest, henc, hd, hsame⟩ := urlEncode_head hp (by decide) c cs
      rw [henc, urlScheme_eq, urlScheme_eq]
      dsimp only
      cases halpha : isAlphaAscii c with
      | false => rw [hd, halpha, if_neg (by simp), if_neg (by simp)]
      | true =>
          obtain ⟨rfl, rfl⟩ := hsame halpha
          obtain ⟨htake, hdrop⟩ := urlEncode_run (fun _ => safe_of_scheme) (by decide) cs
          have hcolon := @urlEncode_head? 0x3A (by decide) (by decide) (cs.dropWhile isSchemeChar)
          rw [htake, hdrop]
          simp only [hcolon, halpha]

/-- The encoded copy is allowed when the copy is. -/
theorem urlAllowed_encode {s : Bytes} (h : urlAllowed s = true) :
    urlAllowed (urlEncode s) = true := by
  rw [urlAllowed.eq_def, urlScheme_encode]
  rw [urlAllowed.eq_def] at h
  cases hscheme : urlScheme s with
  | some scheme =>
      rw [hscheme] at h
      exact h
  | none =>
      rw [hscheme] at h
      dsimp only at h ⊢
      split
      · next c rest henc =>
          -- a slash and what is behind it were not encoded from anything else
          have hslash := (@urlEncode_head? 0x2F (by decide) (by decide) s).mp (by rw [henc]; rfl)
          obtain ⟨s', rfl⟩ := List.head?_eq_some_iff.mp hslash
          rw [urlEncode_cons_safe (by decide)] at henc
          obtain ⟨-, henc⟩ := List.cons.inj henc
          have hsafe : urlIsSafeChar c = true :=
            urlEncode_safe s' c (by rw [henc]; exact List.mem_cons_self)
          have hback : c ≠ 0x5C := by
            rintro rfl
            cases hsafe
          have hnext : c ≠ 0x2F := by
            rintro rfl
            have hhead := (@urlEncode_head? 0x2F (by decide) (by decide) s').mp (by rw [henc]; rfl)
            obtain ⟨s'', rfl⟩ := List.head?_eq_some_iff.mp hhead
            cases h
          simp [hback, hnext]
      · rfl

theorem urlAllowed_hash : urlAllowed (ascii "#") = true := by decide

/-! ## What is written -/

theorem escapeUrl_cases (s : Bytes) :
    ((escapeUrl s).flatten = [] ∧ s = []) ∨ (escapeUrl s).flatten = ascii "#" ∨
      urlAllowed (urlClean s) = true ∧ (escapeUrl s).flatten = urlEncode (urlClean s) := by
  rw [escapeUrl]
  split
  · next hempty => exact .inl ⟨rfl, List.isEmpty_iff.mp hempty⟩
  · split
    · exact .inr (.inl rfl)
    · dsimp only
      split
      · next hallowed => exact .inr (.inr ⟨hallowed, List.flatMap_def.symm⟩)
      · exact .inr (.inl rfl)

theorem escapeUrl_bytes (s : Bytes) : ∀ c ∈ (escapeUrl s).flatten, urlIsSafeChar c = true := by
  rcases escapeUrl_cases s with ⟨h, -⟩ | h | ⟨-, h⟩
  · rw [h]
    simp
  · rw [h]
    intro c hc
    obtain rfl : c = 0x23 := List.mem_singleton.mp hc
    decide
  · rw [h]
    exact urlEncode_safe _

theorem escapeUrl_allowed (s : Bytes) : urlAllowed (escapeUrl s).flatten = true := by
  rcases escapeUrl_cases s with ⟨h, -⟩ | h | ⟨hallowed, h⟩
  · rw [h]
    rfl
  · rw [h]
    exact urlAllowed_hash
  · rw [h]
    exact urlAllowed_encode hallowed

theorem urlClean_safe {s : Bytes} (h : ∀ c ∈ s, urlIsSafeChar c = true) : urlClean s = s := by
  have hspace : ∀ c ∈ s, ¬ (c == 0x20) = true := by
    intro c hc heq
    have hlow := (safe_urlByte (h c hc)).1
    rw [beq_iff_eq.mp heq] at hlow
    exact absurd hlow (by decide)
  have hblank : s.filter (fun c => !isUrlBlank c) = s := by
    rw [List.filter_eq_self]
    intro c hc
    have hlow := (safe_urlByte (h c hc)).1
    cases hb : isUrlBlank c with
    | false => rfl
    | true =>
        simp only [isUrlBlank, Bool.or_eq_true, beq_iff_eq] at hb
        rcases hb with (rfl | rfl) | rfl <;> exact absurd hlow (by decide)
  have hdrop : ∀ t : Bytes, (∀ c ∈ t, ¬ (c == 0x20) = true) → t.dropWhile (· == 0x20) = t := by
    intro t ht
    cases t with
    | nil => rfl
    | cons c t => exact List.dropWhile_cons_of_neg (ht c List.mem_cons_self)
  rw [urlClean, hblank, hdrop s hspace, hdrop s.reverse, List.reverse_reverse]
  intro c hc
  exact hspace c (List.mem_reverse.mp hc)

/-- A text of safe bytes that is allowed is written as it is. -/
theorem escapeUrl_id {s : Bytes} (hsafe : ∀ c ∈ s, urlIsSafeChar c = true)
    (hallowed : urlAllowed s = true) : (escapeUrl s).flatten = s := by
  have hcontrol : urlHasDisallowedControl s = false := by
    rw [urlHasDisallowedControl, List.any_eq_false]
    intro c hc
    obtain ⟨hlow, hhigh, -⟩ := safe_urlByte (hsafe c hc)
    rw [Bool.and_eq_true, Bool.or_eq_true, decide_eq_true_eq, beq_iff_eq]
    rintro ⟨-, hc | rfl⟩
    · rw [UInt8.lt_iff_toNat_lt] at hlow hc
      simp only [UInt8.reduceToNat] at hlow hc
      omega
    · exact absurd hhigh (by decide)
  rw [escapeUrl]
  split
  · next hempty => exact (List.isEmpty_iff.mp hempty).symm
  · dsimp only
    rw [if_neg (by simp [hcontrol]), urlClean_safe hsafe, if_pos hallowed]
    exact List.flatMap_def.symm.trans (urlEncode_id hsafe)

/-- A scheme in front of a colon is the one that the decision sees. -/
theorem urlScheme_of_rfc {scheme rest : Bytes} (h : RfcScheme scheme) :
    urlScheme (scheme ++ 0x3A :: rest) = some scheme := by
  obtain ⟨c, cs, rfl, halpha, hcs⟩ := h
  have hcolon : ¬ isSchemeChar 0x3A = true := by decide
  rw [List.cons_append, urlScheme_eq]
  dsimp only
  rw [List.takeWhile_append_of_pos hcs, List.dropWhile_append_of_pos hcs,
    List.takeWhile_cons_of_neg hcolon, List.dropWhile_cons_of_neg hcolon, List.append_nil,
    if_pos ⟨halpha, rfl⟩]

/-- What the URL escaper writes for any bytes is nothing, `#`, or safe bytes
and `%XX` triples, none of which means anything to HTML; a scheme in it is
`http` or `https`; it never starts with two slashes; and it is what is written
for itself. -/
theorem escapeUrl_safe (s : Bytes) :
    ((escapeUrl s).flatten = [] ∨ (escapeUrl s).flatten = ascii "#" ∨
      ∃ us : List Bytes, (∀ u ∈ us, UrlUnit u) ∧ (escapeUrl s).flatten = us.flatten) ∧
    (∀ c ∈ (escapeUrl s).flatten, UrlByte c) ∧
    (∀ scheme rest, RfcScheme scheme → (escapeUrl s).flatten = scheme ++ 0x3A :: rest →
      scheme.map toLowerAscii = ascii "http" ∨ scheme.map toLowerAscii = ascii "https") ∧
    ¬ ascii "//" <+: (escapeUrl s).flatten ∧
    (escapeUrl (escapeUrl s).flatten).flatten = (escapeUrl s).flatten := by
  have hallowed := escapeUrl_allowed s
  refine ⟨?_, fun c hc => safe_urlByte (escapeUrl_bytes s c hc), ?_, ?_, ?_⟩
  · rcases escapeUrl_cases s with ⟨h, -⟩ | h | ⟨-, h⟩
    · exact .inl h
    · exact .inr (.inl h)
    · refine .inr (.inr ⟨(urlClean s).map urlEncodeOne, ?_, ?_⟩)
      · rw [List.forall_mem_map]
        exact fun c _ => urlEncodeOne_unit c
      · rw [h, urlEncode, List.flatMap_def]
  · intro scheme rest hscheme h
    rw [h, urlAllowed.eq_def, urlScheme_of_rfc hscheme] at hallowed
    simpa [schemeEqualsCi] using hallowed
  · rintro ⟨rest, hrest⟩
    have htwo : ascii "//" ++ rest = 0x2F :: 0x2F :: rest := rfl
    rw [← hrest, htwo] at hallowed
    cases hallowed
  · exact escapeUrl_id (escapeUrl_bytes s) hallowed

end Cytadel.Report
