import Cytadel.Proofs.VersionReference
import Mathlib.Logic.Relation

/-!
# Spellings of one version

What the comparator reads of a version are its epoch and its parts, so a version
may be spelled in many ways. The prefix `v` and the epoch can be read off the
parts of the string up to its first `+`, so a rewriting that leaves these parts
as they are leaves the verdict as it is, at whatever position it is made.
-/

namespace Cytadel.Match

open Cytadel Lib Lib.Runs

/-! ## The rewritings -/

def AllDelims (s : Bytes) : Prop := ∀ c ∈ s, isDelimByte c = true

/-- Nothing, or a `+` and what follows it. -/
def BuildSuffix (s : Bytes) : Prop := s = [] ∨ ∃ w, s = 0x2B :: w

def HasVPrefix (s : Bytes) : Prop :=
  ∃ v d rest, s = v :: d :: rest ∧ (v = 0x76 ∨ v = 0x56) ∧ isDigitByte d = true

def HasEpoch (s : Bytes) : Prop :=
  ∃ e rest, s = e ++ 0x3A :: rest ∧ e ≠ [] ∧ AllDigits e

/-- One rewriting of a version string. -/
inductive Respelled : Bytes → Bytes → Prop
  | letterCase {s s' : Bytes} (h : s.map toLowerAscii = s'.map toLowerAscii) : Respelled s s'
  | leadingZeros {p q : Bytes} {d : UInt8} (hp : ∀ c, p.getLast? = some c → isDigitByte c = false)
      (hd : isDigitByte d = true) (m n : ℕ) :
      Respelled (p ++ (List.replicate m 0x30 ++ d :: q)) (p ++ (List.replicate n 0x30 ++ d :: q))
  | delimiters {x y : Bytes} (p q : Bytes) (hx : AllDelims x) (hy : AllDelims y) (hxne : x ≠ [])
      (hyne : y ≠ []) : Respelled (p ++ (x ++ q)) (p ++ (y ++ q))
  | trailingDelimiters {x y : Bytes} (p : Bytes) (hx : AllDelims x) (hy : AllDelims y) :
      Respelled (p ++ x) (p ++ y)
  | buildMetadata {x y : Bytes} (p : Bytes) (hx : BuildSuffix x) (hy : BuildSuffix y)
      (hallowed : hasDisallowedByte y = false) : Respelled (p ++ x) (p ++ y)
  | vPrefix {v d : UInt8} {rest : Bytes} (hv : v = 0x76 ∨ v = 0x56) (hd : isDigitByte d = true) :
      Respelled (d :: rest) (v :: d :: rest)
  | zeroEpoch {s : Bytes} (hv : ¬ HasVPrefix s) (he : ¬ HasEpoch s) :
      Respelled s (0x30 :: 0x3A :: s)

/-! ## The prefix and the epoch, read off the parts -/

def stripParts : List Part → List Part
  | .word false [0x76] :: .number false n :: ps => .number false n :: ps
  | ps => ps

def epochParts : List Part → ℕ × List Part
  | .number false n :: .word false [0x3A] :: ps => (n, ps)
  | .number false n :: .word false (0x3A :: l :: w) :: ps => (n, .word false (l :: w) :: ps)
  | ps => (0, ps)

def parts (s : Bytes) : List Part := (runs byteKind s).map partOf

theorem toLowerAscii_eq_v {c : UInt8} : (toLowerAscii c).toNat = 0x76 ↔ c = 0x76 ∨ c = 0x56 := by
  have hall : ∀ c : UInt8, (toLowerAscii c).toNat = 0x76 ↔ c = 0x76 ∨ c = 0x56 :=
    forall_byte (by decide)
  exact hall c

theorem toLowerAscii_eq_colon {c : UInt8} : (toLowerAscii c).toNat = 0x3A ↔ c = 0x3A := by
  have hall : ∀ c : UInt8, (toLowerAscii c).toNat = 0x3A ↔ c = 0x3A := forall_byte (by decide)
  exact hall c

/-- A first word that touches the start, and a digit behind it. -/
theorem parts_word_digit {c d : UInt8} (hc : byteKind c = some .alpha) (hd : isDigitByte d = true)
    (rest : Bytes) :
    parts (c :: d :: rest) = .word false [(toLowerAscii c).toNat] :: parts (d :: rest) := by
  rw [parts, runs_cons, push_start hc]
  · rfl
  · intro r hr hk
    by_contra hap
    obtain ⟨x, _, hx, hkind⟩ := head_of_runs hr (by simpa using hap)
    obtain ⟨rfl, _⟩ := List.cons.inj hx
    rw [byteKind_num.mpr hd, hk] at hkind
    cases hkind

/-- A first part that touches the start. -/
theorem parts_inv {s : Bytes} {r : Run UInt8 TokType} {rs : List (Run UInt8 TokType)}
    (h : runs byteKind s = r :: rs) (hap : r.apart = false) :
    ∃ rest, s = r.text ++ rest ∧ r.text ≠ [] ∧ (∀ c ∈ r.text, byteKind c = some r.kind) ∧
      runs byteKind rest = rs ∧ ∀ x, rs.head? = some x → x.kind = r.kind → x.apart = true := by
  have hsplit := split_runs byteKind s
  rw [h] at hsplit
  cases hsplit with
  | @cons sep text rest k rs hsep hne htext hmax hrest =>
      have hnone : sep = [] := by simpa using hap
      subst hnone
      exact ⟨rest, rfl, hne, htext, hrest.eq_runs.symm, hmax⟩

theorem withoutV_of_hasVPrefix {v d : UInt8} (rest : Bytes) (hv : v = 0x76 ∨ v = 0x56)
    (hd : isDigitByte d = true) : withoutV (v :: d :: rest) = d :: rest := by
  rw [withoutV, if_pos]
  · rfl
  · simpa [hd] using hv

theorem withoutV_of_not_hasVPrefix {s : Bytes} (h : ¬ HasVPrefix s) : withoutV s = s := by
  rw [withoutV, if_neg]
  intro hfront
  obtain ⟨hhead, hdigit⟩ := hfront
  cases s with
  | nil => simp at hhead
  | cons v s =>
      cases s with
      | nil => simp at hdigit
      | cons d rest => exact h ⟨v, d, rest, rfl, by simpa using hhead, by simpa using hdigit⟩

theorem parts_withoutV (s : Bytes) : parts (withoutV s) = stripParts (parts s) := by
  by_cases hv : HasVPrefix s
  · obtain ⟨v, d, rest, rfl, hv, hd⟩ := hv
    have hkind : byteKind v = some .alpha := by rcases hv with rfl | rfl <;> rfl
    have hdigit := parts_word_digit hkind hd rest
    rw [hdigit, toLowerAscii_eq_v.mpr hv]
    obtain ⟨n, ps, hn⟩ : ∃ n ps, parts (d :: rest) = .number false n :: ps := by
      have htouch := (startsTouching_runs (d :: rest)).mpr ⟨d, rest, rfl, hd⟩
      rw [← parts] at htouch
      match parts (d :: rest), htouch with
      | .number false n :: ps, _ => exact ⟨n, ps, rfl⟩
    rw [withoutV_of_hasVPrefix rest hv hd, hn]
    rfl
  · rw [withoutV_of_not_hasVPrefix hv]
    -- a first word `v` touching a number would be the prefix
    unfold stripParts
    split
    · next n ps hps =>
        exfalso
        rw [parts, List.map_eq_cons_iff] at hps
        obtain ⟨r, rs, hruns, hr, hrs⟩ := hps
        obtain ⟨k, text, ap⟩ := r
        cases k <;> simp only [partOf, Part.word.injEq, reduceCtorEq] at hr
        obtain ⟨rfl, hword⟩ := hr
        obtain ⟨rest, rfl, _, _, hrest, _⟩ := parts_inv hruns rfl
        obtain ⟨v, rfl, hlow⟩ := List.map_eq_singleton_iff.mp hword
        have hdigit := (startsTouching_runs rest).mp (by rw [hrest, hrs]; rfl)
        obtain ⟨d, rest', rfl, hd⟩ := hdigit
        exact hv ⟨v, d, rest', rfl, toLowerAscii_eq_v.mp hlow, hd⟩
    · rfl

/-- The parts of what stands behind a colon. -/
theorem parts_colon (s : Bytes) :
    parts (0x3A :: s) = .word false [0x3A] :: parts s ∨
      ∃ l w ps, parts (0x3A :: s) = .word false (0x3A :: l :: w) :: ps ∧
        parts s = .word false (l :: w) :: ps := by
  have hcolon : byteKind 0x3A = some .alpha := rfl
  by_cases hmax : ∀ r, (runs byteKind s).head? = some r → r.kind = .alpha → r.apart = true
  · left
    rw [parts, runs_cons, push_start hcolon hmax]
    rfl
  · right
    cases hruns : runs byteKind s with
    | nil => simp [hruns] at hmax
    | cons r rs =>
        obtain ⟨k, text, ap⟩ := r
        obtain ⟨rfl, rfl⟩ : k = .alpha ∧ ap = false := by simpa [hruns] using hmax
        obtain ⟨_, _, hne, _⟩ := parts_inv hruns rfl
        cases text with
        | nil => exact absurd rfl hne
        | cons c text =>
            rw [parts, parts, runs_cons, hruns, push_more hcolon]
            exact ⟨_, _, _, rfl, rfl⟩

theorem epochAndRest_of_hasEpoch {e rest : Bytes} (hne : e ≠ []) (he : AllDigits e) :
    epochAndRest (e ++ 0x3A :: rest) = (digitsValue e, rest) := by
  have htake : (e ++ 0x3A :: rest).takeWhile isDigitByte = e := by
    rw [List.takeWhile_append_of_pos he, List.takeWhile_cons_of_neg (by decide), List.append_nil]
  rw [epochAndRest]
  simp only [htake]
  rw [if_pos ⟨hne, by rw [List.drop_left]; rfl⟩, List.drop_append,
    List.drop_of_length_le (by omega)]
  simp

theorem epochAndRest_of_not_hasEpoch {s : Bytes} (h : ¬ HasEpoch s) : epochAndRest s = (0, s) := by
  have happ : s.takeWhile isDigitByte ++ s.dropWhile isDigitByte = s :=
    List.takeWhile_append_dropWhile
  rw [epochAndRest, if_neg]
  rintro ⟨hne, hcolon⟩
  rw [drop_length_takeWhile] at hcolon
  cases hdrop : s.dropWhile isDigitByte with
  | nil => simp [hdrop] at hcolon
  | cons c cs =>
      obtain rfl : c = 0x3A := by simpa [hdrop] using hcolon
      rw [hdrop] at happ
      exact h ⟨_, cs, happ.symm, hne, allDigits_takeWhile s⟩

theorem parts_digits {e : Bytes} (hne : e ≠ []) (he : AllDigits e) (rest : Bytes) :
    parts (e ++ 0x3A :: rest) = .number false (digitsValue e) :: parts (0x3A :: rest) := by
  rw [parts, runs_stretch hne fun c hc => byteKind_num.mpr (he c hc)]
  · rfl
  · intro r hr hk
    by_contra hap
    obtain ⟨x, _, hx, hkind⟩ := head_of_runs hr (by simpa using hap)
    obtain ⟨rfl, _⟩ := List.cons.inj hx
    rw [hk] at hkind
    cases hkind

theorem epochAndRest_parts (s : Bytes) :
    ((epochAndRest s).1, parts (epochAndRest s).2) = epochParts (parts s) := by
  by_cases hs : HasEpoch s
  · obtain ⟨e, rest, rfl, hne, he⟩ := hs
    rw [epochAndRest_of_hasEpoch hne he, parts_digits hne he]
    obtain h | ⟨l, w, ps, h, hrest⟩ := parts_colon rest
    · rw [h]
      rfl
    · rw [h, hrest]
      rfl
  · rw [epochAndRest_of_not_hasEpoch hs]
    have hcolon : ∀ n w ps, parts s ≠ .number false n :: .word false (0x3A :: w) :: ps := by
      intro n w ps hps
      rw [parts, List.map_eq_cons_iff] at hps
      obtain ⟨⟨k, text, ap⟩, rs, hruns, hr, hrs⟩ := hps
      cases k <;> simp only [partOf, Part.number.injEq, reduceCtorEq] at hr
      obtain ⟨rfl, _⟩ := hr
      obtain ⟨rest, rfl, hne, hdigits, hrest, _⟩ := parts_inv hruns rfl
      obtain ⟨⟨k, text', ap⟩, rs', rfl, hr', _⟩ := List.map_eq_cons_iff.mp hrs
      cases k <;> simp only [partOf, Part.word.injEq, reduceCtorEq] at hr'
      obtain ⟨rfl, hword⟩ := hr'
      obtain ⟨rest', rfl, _⟩ := parts_inv hrest rfl
      obtain ⟨c, cs, rfl, hc, _⟩ := List.map_eq_cons_iff.mp hword
      obtain rfl := toLowerAscii_eq_colon.mp hc
      exact hs ⟨text, cs ++ rest', rfl, hne, fun c hc => byteKind_num.mp (hdigits c hc)⟩
    unfold epochParts
    split
    · next n ps hps => exact absurd hps (hcolon n [] ps)
    · next n l w ps hps => exact absurd hps (hcolon n (l :: w) ps)
    · rfl

/-! ## The cut commutes with both -/

theorem cut_append (p s : Bytes) :
    cutBuildMetadata (p ++ s) =
      if 0x2B ∈ p then cutBuildMetadata p else p ++ cutBuildMetadata s := by
  induction p with
  | nil => rfl
  | cons c p ih =>
      simp only [cutBuildMetadata] at ih
      by_cases hc : c = 0x2B
      · simp [cutBuildMetadata, hc]
      · have hc' : ¬ 0x2B = c := Ne.symm hc
        simp only [cutBuildMetadata, List.cons_append, List.takeWhile_cons, bne_iff_ne, ne_eq, hc,
          not_false_eq_true, if_true, ih, List.mem_cons, hc', false_or]
        split <;> rfl

theorem cut_withoutV (s : Bytes) :
    withoutV (cutBuildMetadata s) = cutBuildMetadata (withoutV s) := by
  by_cases hs : HasVPrefix s
  · obtain ⟨v, d, rest, rfl, hv, hd⟩ := hs
    have hv' : v ≠ 0x2B := by rcases hv with rfl | rfl <;> decide
    have hd' : d ≠ 0x2B := by rintro rfl; cases hd
    have hcut : cutBuildMetadata (v :: d :: rest) = v :: d :: cutBuildMetadata rest := by
      simp [cutBuildMetadata, hv', hd']
    have hcut' : cutBuildMetadata (d :: rest) = d :: cutBuildMetadata rest := by
      simp [cutBuildMetadata, hd']
    rw [withoutV_of_hasVPrefix rest hv hd, hcut, hcut', withoutV_of_hasVPrefix _ hv hd]
  · rw [withoutV_of_not_hasVPrefix hs, withoutV_of_not_hasVPrefix]
    rintro ⟨v, d, rest, hcut, hv, hd⟩
    have happ : cutBuildMetadata s ++ s.dropWhile (· != 0x2B) = s := List.takeWhile_append_dropWhile
    rw [hcut] at happ
    exact hs ⟨v, d, rest ++ s.dropWhile (· != 0x2B), happ.symm, hv, hd⟩

theorem cut_epochAndRest (s : Bytes) :
    epochAndRest (cutBuildMetadata s) =
      ((epochAndRest s).1, cutBuildMetadata (epochAndRest s).2) := by
  by_cases hs : HasEpoch s
  · obtain ⟨e, rest, rfl, hne, he⟩ := hs
    have hplus : ¬ 0x2B ∈ e := by
      intro h
      have hdigit := he _ h
      cases hdigit
    have hcolon : cutBuildMetadata (0x3A :: rest) = 0x3A :: cutBuildMetadata rest := rfl
    rw [cut_append, if_neg hplus, hcolon, epochAndRest_of_hasEpoch hne he,
      epochAndRest_of_hasEpoch hne he]
  · rw [epochAndRest_of_not_hasEpoch hs, epochAndRest_of_not_hasEpoch]
    rintro ⟨e, rest, hcut, hne, he⟩
    have happ : cutBuildMetadata s ++ s.dropWhile (· != 0x2B) = s := List.takeWhile_append_dropWhile
    rw [hcut, List.append_assoc] at happ
    exact hs ⟨e, rest ++ s.dropWhile (· != 0x2B), happ.symm, hne, he⟩

/-- What the comparator reads of a version, from the parts before its first
`+`. -/
def viewOfParts (ps : List Part) : Option (ℕ × List Part) :=
  let v := epochParts (stripParts ps)
  if v.2 = [] then none else some v

theorem versionView_parts (s : Bytes) :
    versionView s =
      if hasDisallowedByte s then none else viewOfParts (parts (cutBuildMetadata s)) := by
  rw [versionView, ← hasDisallowedByte_eq, viewOfParts, ← parts_withoutV, ← epochAndRest_parts,
    cut_withoutV, cut_epochAndRest]
  rfl

/-! ## Rewritings that keep the parts -/

theorem byteKind_toLowerAscii (c : UInt8) : byteKind (toLowerAscii c) = byteKind c := by
  have hall : ∀ c : UInt8, byteKind (toLowerAscii c) = byteKind c := forall_byte (by decide)
  exact hall c

theorem toLowerAscii_digit {c : UInt8} (h : isDigitByte c = true) : toLowerAscii c = c := by
  have hall : ∀ c : UInt8, isDigitByte c = true → toLowerAscii c = c := forall_byte (by decide)
  exact hall c h

theorem toLowerAscii_toLowerAscii (c : UInt8) : toLowerAscii (toLowerAscii c) = toLowerAscii c := by
  have hall : ∀ c : UInt8, toLowerAscii (toLowerAscii c) = toLowerAscii c := forall_byte (by decide)
  exact hall c

theorem parts_lower (s : Bytes) : parts (s.map toLowerAscii) = parts s := by
  rw [parts, parts, runs_map byteKind_toLowerAscii, List.map_map]
  refine List.map_congr_left fun r hr => ?_
  have hkind := kind_of_mem_runs hr
  obtain ⟨k, text, ap⟩ := r
  cases k with
  | num =>
      have hsame : text.map toLowerAscii = text :=
        (List.map_congr_left fun c hc => toLowerAscii_digit (byteKind_num.mp (hkind c hc))).trans
          (List.map_id text)
      simp [partOf, hsame]
  | alpha => simp [partOf, foldWord, toLowerAscii_toLowerAscii, Function.comp_def]

theorem digitsValue_zeros (m : ℕ) (s : Bytes) :
    digitsValue (List.replicate m 0x30 ++ s) = digitsValue s := by
  induction m with
  | zero => rfl
  | succ m ih =>
      rw [List.replicate_succ, List.cons_append, digitsValue, ih]
      simp

/-- A digit begins a number that touches the start. -/
theorem runs_digit {d : UInt8} (hd : isDigitByte d = true) (q : Bytes) :
    ∃ text rs, runs byteKind (d :: q) = ⟨.num, text, false⟩ :: rs := by
  have hk := byteKind_num.mpr hd
  rw [runs_cons, push, hk]
  cases runs byteKind q with
  | nil => exact ⟨_, _, rfl⟩
  | cons r rs =>
      by_cases h : r.kind = .num ∧ r.apart = false
      · obtain ⟨k, text, ap⟩ := r
        obtain ⟨rfl, rfl⟩ := h
        exact ⟨_, _, rfl⟩
      · exact ⟨_, _, if_neg h⟩

theorem runs_zeros {text q : Bytes} {rs : List (Run UInt8 TokType)}
    (h : runs byteKind q = ⟨.num, text, false⟩ :: rs) (m : ℕ) :
    runs byteKind (List.replicate m 0x30 ++ q) =
      ⟨.num, List.replicate m 0x30 ++ text, false⟩ :: rs := by
  induction m with
  | zero => exact h
  | succ m ih =>
      rw [List.replicate_succ, List.cons_append, List.cons_append, runs_cons, ih]
      exact push_more (byteKind_num.mpr rfl) _ _

/-- A number is not the continuation of what does not end in a digit. -/
theorem breaks_of_no_digit {p s text : Bytes} {rs : List (Run UInt8 TokType)}
    (hp : ∀ c, p.getLast? = some c → isDigitByte c = false)
    (h : runs byteKind s = ⟨.num, text, false⟩ :: rs) : Breaks byteKind p s := by
  intro c r hc hr hkind
  rw [h] at hr
  obtain rfl : (⟨.num, text, false⟩ : Run UInt8 TokType) = r := Option.some.inj hr
  rw [byteKind_num, hp c hc] at hkind
  cases hkind

theorem parts_leadingZeros {p q : Bytes} {d : UInt8}
    (hp : ∀ c, p.getLast? = some c → isDigitByte c = false) (hd : isDigitByte d = true) (m : ℕ) :
    parts (p ++ (List.replicate m 0x30 ++ d :: q)) = parts (p ++ d :: q) := by
  obtain ⟨text, rs, hruns⟩ := runs_digit hd q
  have hzeros := runs_zeros hruns m
  rw [parts, parts, runs_append (breaks_of_no_digit hp hzeros),
    runs_append (breaks_of_no_digit hp hruns), hzeros, hruns]
  split <;> simp [setApart, partOf, digitsValue_zeros]

theorem parts_delimiters {x y : Bytes} (p q : Bytes) (hx : AllDelims x) (hy : AllDelims y)
    (hxne : x ≠ []) (hyne : y ≠ []) : parts (p ++ (x ++ q)) = parts (p ++ (y ++ q)) := by
  have hruns : ∀ {z : Bytes}, AllDelims z → z ≠ [] →
      runs byteKind (z ++ q) = setApart (runs byteKind q) := by
    intro z hz hzne
    rw [runs_separators fun c hc => byteKind_delim (hz c hc), if_neg (by simpa using hzne)]
  rw [parts, parts, runs_append_eq p (x ++ q), runs_append_eq p (y ++ q), hruns hx hxne,
    hruns hy hyne]

theorem parts_trailing {x : Bytes} (p : Bytes) (hx : AllDelims x) : parts (p ++ x) = parts p := by
  have hruns : runs byteKind x = [] := by
    have h := runs_separators (fun c hc => byteKind_delim (hx c hc)) []
    rw [List.append_nil] at h
    rw [h]
    split <;> rfl
  rw [parts, parts, runs_append_eq, hruns]
  rfl

/-! ## Every rewriting keeps what is read -/

theorem hasDisallowedByte_append (p s : Bytes) :
    hasDisallowedByte (p ++ s) = (hasDisallowedByte p || hasDisallowedByte s) := List.any_append

theorem hasDisallowedByte_lower (s : Bytes) :
    hasDisallowedByte (s.map toLowerAscii) = hasDisallowedByte s := by
  have hall : ∀ c : UInt8, hasDisallowedByte [toLowerAscii c] = hasDisallowedByte [c] :=
    forall_byte (by decide)
  induction s with
  | nil => rfl
  | cons c s ih =>
      have hc : hasDisallowedByte [toLowerAscii c] = hasDisallowedByte [c] := hall c
      show hasDisallowedByte ([toLowerAscii c] ++ s.map toLowerAscii) = hasDisallowedByte ([c] ++ s)
      rw [hasDisallowedByte_append, hasDisallowedByte_append, hc, ih]

theorem hasDisallowedByte_delims {s : Bytes} (h : AllDelims s) : hasDisallowedByte s = false := by
  have hall : ∀ c : UInt8, isDelimByte c = true → hasDisallowedByte [c] = false :=
    forall_byte (by decide)
  induction s with
  | nil => rfl
  | cons c s ih =>
      have hc : hasDisallowedByte [c] = false := hall c (h c List.mem_cons_self)
      show hasDisallowedByte ([c] ++ s) = false
      rw [hasDisallowedByte_append, hc, ih fun d hd => h d (List.mem_cons_of_mem _ hd)]
      rfl

theorem hasDisallowedByte_zeros (m : ℕ) (s : Bytes) :
    hasDisallowedByte (List.replicate m 0x30 ++ s) = hasDisallowedByte s := by
  induction m with
  | zero => rfl
  | succ m ih => exact ih

/-- No rewriting brings in a byte that is not allowed. -/
theorem Respelled.allowed {s s' : Bytes} (h : Respelled s s') (hs : hasDisallowedByte s = false) :
    hasDisallowedByte s' = false := by
  cases h with
  | letterCase h => rw [← hasDisallowedByte_lower, ← h, hasDisallowedByte_lower, hs]
  | leadingZeros hp hd m n =>
      rw [hasDisallowedByte_append, hasDisallowedByte_zeros] at hs ⊢
      exact hs
  | delimiters p q hx hy hxne hyne =>
      simp only [hasDisallowedByte_append, hasDisallowedByte_delims hx,
        hasDisallowedByte_delims hy] at hs ⊢
      exact hs
  | trailingDelimiters p hx hy =>
      simp only [hasDisallowedByte_append, hasDisallowedByte_delims hx,
        hasDisallowedByte_delims hy] at hs ⊢
      exact hs
  | buildMetadata p hx hy hallowed =>
      rw [hasDisallowedByte_append, Bool.or_eq_false_iff] at hs
      rw [hasDisallowedByte_append, hs.1, hallowed]
      rfl
  | vPrefix hv hd => rcases hv with rfl | rfl <;> exact hs
  | zeroEpoch hv he => exact hs

theorem cut_no_plus {x : Bytes} (hx : ¬ 0x2B ∈ x) (s : Bytes) :
    cutBuildMetadata (x ++ s) = x ++ cutBuildMetadata s := by
  rw [cut_append, if_neg hx]

theorem cut_buildSuffix {x : Bytes} (p : Bytes) (hx : BuildSuffix x) :
    cutBuildMetadata (p ++ x) = cutBuildMetadata p := by
  have hp := cut_append p []
  rw [List.append_nil] at hp
  rcases hx with rfl | ⟨w, rfl⟩
  · rw [List.append_nil]
  · rw [cut_append]
    exact hp.symm

theorem cut_lower (s : Bytes) :
    cutBuildMetadata (s.map toLowerAscii) = (cutBuildMetadata s).map toLowerAscii := by
  have hall : ∀ c : UInt8, (toLowerAscii c != 0x2B) = (c != 0x2B) := forall_byte (by decide)
  have hsame : ((· != 0x2B) ∘ toLowerAscii : UInt8 → Bool) = (· != 0x2B) :=
    funext fun c => hall c
  rw [cutBuildMetadata, List.takeWhile_map, hsame, cutBuildMetadata]

/-- A rewriting within the string does to the part before its first `+` what it
does to the whole. -/
theorem parts_cut_congr {p x y : Bytes}
    (h : parts (p ++ cutBuildMetadata x) = parts (p ++ cutBuildMetadata y)) :
    parts (cutBuildMetadata (p ++ x)) = parts (cutBuildMetadata (p ++ y)) := by
  rw [cut_append, cut_append]
  split
  · rfl
  · exact h

theorem not_plus_of_delims {x : Bytes} (hx : AllDelims x) : ¬ 0x2B ∈ x := by
  intro h
  have hdelim := hx _ h
  cases hdelim

theorem versionView_congr {s s' : Bytes} (hs : hasDisallowedByte s = false)
    (hs' : hasDisallowedByte s' = false)
    (h : parts (cutBuildMetadata s') = parts (cutBuildMetadata s)) :
    versionView s' = versionView s := by
  rw [versionView_parts, versionView_parts, hs, hs', h]

theorem Respelled.view {s s' : Bytes} (h : Respelled s s') (hs : hasDisallowedByte s = false) :
    versionView s' = versionView s := by
  have hs' := h.allowed hs
  cases h with
  | letterCase h =>
      refine versionView_congr hs hs' ?_
      rw [← parts_lower, ← cut_lower, ← h, cut_lower, parts_lower]
  | @leadingZeros p q d hp hd m n =>
      refine versionView_congr hs hs' (parts_cut_congr ?_)
      have hcut : ∀ k, cutBuildMetadata (List.replicate k 0x30 ++ d :: q) =
          List.replicate k 0x30 ++ d :: cutBuildMetadata q := by
        intro k
        have hd' : ¬ 0x2B ∈ [d] := by
          intro h
          rw [← List.mem_singleton.mp h] at hd
          cases hd
        rw [cut_no_plus (by simp), ← List.singleton_append, cut_no_plus hd']
        rfl
      rw [hcut, hcut, parts_leadingZeros hp hd, parts_leadingZeros hp hd]
  | @delimiters x y p q hx hy hxne hyne =>
      refine versionView_congr hs hs' (parts_cut_congr ?_)
      rw [cut_no_plus (not_plus_of_delims hx), cut_no_plus (not_plus_of_delims hy)]
      exact parts_delimiters p _ hy hx hyne hxne
  | @trailingDelimiters x y p hx hy =>
      refine versionView_congr hs hs' (parts_cut_congr ?_)
      have hcut : ∀ {z : Bytes}, AllDelims z → cutBuildMetadata z = z := by
        intro z hz
        have h := cut_no_plus (not_plus_of_delims hz) []
        rwa [List.append_nil, show cutBuildMetadata [] = [] from rfl, List.append_nil] at h
      rw [hcut hx, hcut hy, parts_trailing p hx, parts_trailing p hy]
  | buildMetadata p hx hy hallowed =>
      refine versionView_congr hs hs' ?_
      rw [cut_buildSuffix p hx, cut_buildSuffix p hy]
  | @vPrefix v d rest hv hd =>
      have hdigit : ¬ HasVPrefix (d :: rest) := by
        rintro ⟨v', _, _, heq, hv', _⟩
        obtain ⟨rfl, _⟩ := List.cons.inj heq
        rcases hv' with rfl | rfl <;> cases hd
      rw [versionView, versionView, ← hasDisallowedByte_eq, ← hasDisallowedByte_eq, hs, hs',
        withoutV_of_hasVPrefix rest hv hd, withoutV_of_not_hasVPrefix hdigit]
  | zeroEpoch hv he =>
      have hdigit : ¬ HasVPrefix (0x30 :: 0x3A :: s) := by
        rintro ⟨v', _, _, heq, hv', _⟩
        obtain ⟨rfl, _⟩ := List.cons.inj heq
        rcases hv' with h | h <;> cases h
      have hzero : epochAndRest (0x30 :: 0x3A :: s) = (0, s) :=
        epochAndRest_of_hasEpoch (List.cons_ne_nil 0x30 [])
          (by intro c hc; simp at hc; rw [hc]; rfl)
      rw [versionView, versionView, ← hasDisallowedByte_eq, ← hasDisallowedByte_eq, hs, hs',
        withoutV_of_not_hasVPrefix hv, withoutV_of_not_hasVPrefix hdigit, hzero,
        epochAndRest_of_not_hasEpoch he]

theorem view_of_respellings {s s' : Bytes} (h : Relation.ReflTransGen Respelled s s')
    (hs : hasDisallowedByte s = false) :
    hasDisallowedByte s' = false ∧ versionView s' = versionView s := by
  induction h with
  | refl => exact ⟨hs, rfl⟩
  | tail _ hstep ih => exact ⟨hstep.allowed ih.1, (hstep.view ih.1).trans ih.2⟩

/-- Both verdicts of a version stay as they are under any number of rewritings of
it. -/
theorem versionCompare_respelled {s s' : Bytes} (h : Relation.ReflTransGen Respelled s s')
    (hs : hasDisallowedByte s = false) (t : Bytes) :
    versionCompare s' t = versionCompare s t ∧ versionCompare t s' = versionCompare t s := by
  simp only [versionCompare_eq_reference, referenceCompare, (view_of_respellings h hs).2, and_self]

/-- `00:1.0_RC+x` is a spelling of `1.0-rc`. -/
theorem versionCompare_respelled_rc :
    versionCompare (ascii "00:1.0_RC+x") (ascii "1.0") = .less ∧
      versionCompare (ascii "1.0") (ascii "00:1.0_RC+x") = .greater := by
  have hepoch : Respelled (ascii "1.0-rc") (ascii "0:1.0-rc") := by
    refine .zeroEpoch ?_ ?_
    · rintro ⟨v, d, rest, h, hv, _⟩
      obtain ⟨rfl, _⟩ := List.cons.inj h
      rcases hv with h | h <;> cases h
    · rintro ⟨e, rest, h, _⟩
      have hcolon : (0x3A : UInt8) ∈ ascii "1.0-rc" := h ▸ by simp
      revert hcolon
      decide
  have hzeros : Respelled (ascii "0:1.0-rc") (ascii "00:1.0-rc") :=
    .leadingZeros (p := []) (q := ascii ":1.0-rc") (d := 0x30) (by simp) rfl 0 1
  have hdelim : Respelled (ascii "00:1.0-rc") (ascii "00:1.0_rc") :=
    .delimiters (x := [0x2D]) (y := [0x5F]) (ascii "00:1.0") (ascii "rc")
      (List.forall_mem_singleton.mpr rfl) (List.forall_mem_singleton.mpr rfl) (by simp) (by simp)
  have hcase : Respelled (ascii "00:1.0_rc") (ascii "00:1.0_RC") := .letterCase (by decide)
  have hsuffix : Respelled (ascii "00:1.0_RC") (ascii "00:1.0_RC+x") :=
    .buildMetadata (x := []) (y := ascii "+x") (ascii "00:1.0_RC") (.inl rfl) (.inr ⟨_, rfl⟩) rfl
  have h := versionCompare_respelled
    ((((Relation.ReflTransGen.single hepoch).tail hzeros).tail hdelim).tail hcase |>.tail hsuffix)
    rfl (ascii "1.0")
  rw [h.1, h.2]
  decide

end Cytadel.Match
