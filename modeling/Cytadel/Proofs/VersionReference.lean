import Cytadel.Lib.AllBytes
import Cytadel.Lib.Runs
import Cytadel.Proofs.VersionOrder

/-!
# The comparator against a reference on lists

What the comparator answers, said without a cursor. A version is an epoch and a
list of parts: the runs of digits, as numbers, and the runs of other bytes, as
words in lower case, each with the note whether a delimiter stands before it.
Two lists are compared part by part, and where one of them ends, by the first
part of the other that says anything. The comparator is a function of these
lists, so its laws are laws of the reference.
-/

namespace Cytadel.Match

open Cytadel Lib Lib.Runs

/-! ## The reference -/

def byteKind (c : UInt8) : Option TokType :=
  if isDigitByte c then some .num else if isDelimByte c then none else some .alpha

/-- A number by its value, a word by its letters in lower case. -/
inductive Part
  | number (apart : Bool) (value : ℕ)
  | word (apart : Bool) (letters : List ℕ)
  deriving DecidableEq, Repr

def partOf (r : Run UInt8 TokType) : Part :=
  match r.kind with
  | .num => .number r.apart (digitsValue r.text)
  | .alpha => .word r.apart (foldWord r.text)

def prereleaseWords : List (List ℕ) := prereleaseKeywords.map foldWord

def releaseWords : List (List ℕ) := releaseEquivalentKeywords.map foldWord

def Vercmp.ofOrder {α : Type} [LT α] [DecidableLT α] [DecidableEq α] (a b : α) : Vercmp :=
  if a < b then .less else if a = b then .equal else .greater

/-- Two parts at one position. -/
def partVerdict : Part → Part → Vercmp
  | .number _ m, .number _ n => .ofOrder m n
  | .word _ v, .word _ w =>
      if v ∈ releaseWords then
        if w ∈ releaseWords then .equal
        else if w ∈ prereleaseWords then .greater
        else .undecidable
      else if v ∈ prereleaseWords then
        if w ∈ releaseWords then .less
        else if w ∈ prereleaseWords then .ofOrder v w
        else .undecidable
      else if w ∈ releaseWords ∨ w ∈ prereleaseWords then .undecidable
      else .ofOrder v w
  | _, _ => .undecidable

/-- A part that says no more than "this is the release". -/
def Part.neutral : Part → Bool
  | .number _ n => n = 0
  | .word _ w => w ∈ releaseWords

/-- A lone `a`, `b` or `c`. -/
def loneLetters : List (List ℕ) := [[0x61], [0x62], [0x63]]

def startsTouching : List Part → Bool
  | .number false _ :: _ => true
  | _ => false

/-- What the parts that only one side has say about it. -/
def longerVerdict (ps : List Part) : Vercmp :=
  match ps.dropWhile Part.neutral with
  | [] => .equal
  | .number _ _ :: _ => .greater
  | .word apart w :: next =>
      if w ∈ prereleaseWords then .less
      else if apart then .undecidable
      else if w ∈ loneLetters ∧ startsTouching next then .undecidable
      else .greater

def walkVerdict : List Part → List Part → Vercmp
  | as, [] => longerVerdict as
  | [], bs => (longerVerdict bs).mirror
  | a :: as, b :: bs => if partVerdict a b = .equal then walkVerdict as bs else partVerdict a b

/-- One `v` directly before a digit is dropped. -/
def withoutV (s : Bytes) : Bytes :=
  if (s.head? = some 0x76 ∨ s.head? = some 0x56) ∧ s.tail.head?.any isDigitByte then s.tail else s

/-- The number before a colon, if the string starts with one. -/
def epochAndRest (s : Bytes) : ℕ × Bytes :=
  let digits := s.takeWhile isDigitByte
  if digits ≠ [] ∧ (s.drop digits.length).head? = some 0x3A then
    (digitsValue digits, s.drop (digits.length + 1))
  else (0, s)

/-- The parts of a string up to its first `+`. -/
def partsOf (s : Bytes) : List Part := (runs byteKind (s.takeWhile (· != 0x2B))).map partOf

/-- The epoch and the parts, of a string that has parts and no byte outside of
printable ASCII. -/
def versionView (s : Bytes) : Option (ℕ × List Part) :=
  if s.any fun c => c.toNat < 0x20 ∨ 0x7F ≤ c.toNat then none
  else
    let v := epochAndRest (withoutV s)
    if partsOf v.2 = [] then none else some (v.1, partsOf v.2)

def compareViews : Option (ℕ × List Part) → Option (ℕ × List Part) → Vercmp
  | some (e, ps), some (f, qs) => if e = f then walkVerdict ps qs else .ofOrder e f
  | _, _ => .undecidable

/-- The reference. -/
def referenceCompare (a b : Bytes) : Vercmp := compareViews (versionView a) (versionView b)

/-! ## Tokens are runs -/

def Token.run (t : Token) : Run UInt8 TokType := ⟨t.typ, t.text, t.delimSkipped⟩

theorem byteKind_delim {c : UInt8} (h : isDelimByte c = true) : byteKind c = none := by
  have hall : ∀ c : UInt8, isDelimByte c = true → byteKind c = none := forall_byte (by decide)
  exact hall c h

theorem byteKind_num {c : UInt8} : byteKind c = some .num ↔ isDigitByte c = true := by
  rw [byteKind]
  split
  · simp_all
  · split <;> simp_all

theorem byteKind_alpha {c : UInt8} : byteKind c = some .alpha ↔ isAlphaByte c = true := by
  rw [byteKind, isAlphaByte]
  split
  · simp_all
  · split <;> simp_all

/-- The longest stretch of a class at the start of a buffer. -/
theorem stretch_parts {p : UInt8 → Bool} {k : TokType}
    (hk : ∀ {c}, byteKind c = some k ↔ p c = true)
    {c : UInt8} (hc : p c = true) (cs : Bytes) :
    (c :: cs).takeWhile p ≠ [] ∧ (∀ x ∈ (c :: cs).takeWhile p, byteKind x = some k) ∧
      ∀ x, ((c :: cs).dropWhile p).head? = some x → byteKind x ≠ some k := by
  refine ⟨?_, fun x hx => hk.mpr (List.mem_takeWhile_imp hx), fun x hx hkind => ?_⟩
  · rw [List.takeWhile_cons_of_pos hc]
    exact List.cons_ne_nil _ _
  · cases hd : (c :: cs).dropWhile p with
    | nil => simp [hd] at hx
    | cons y ys =>
        obtain rfl : y = x := by simpa [hd] using hx
        rw [hk, dropWhile_head hd] at hkind
        cases hkind

/-- What a token is, with the delimiters before it. -/
theorem nextToken_parts {buf rest : Bytes} {t : Token} (h : nextToken buf = some (t, rest)) :
    ∃ sep, buf = sep ++ (t.text ++ rest) ∧ (∀ c ∈ sep, byteKind c = none) ∧ t.text ≠ [] ∧
      (∀ c ∈ t.text, byteKind c = some t.typ) ∧ t.delimSkipped = !sep.isEmpty ∧
      ∀ c, rest.head? = some c → byteKind c ≠ some t.typ := by
  have hbuf : buf.takeWhile isDelimByte ++ buf.dropWhile isDelimByte = buf :=
    List.takeWhile_append_dropWhile
  have hsep : ∀ c ∈ buf.takeWhile isDelimByte, byteKind c = none :=
    fun c hc => byteKind_delim (List.mem_takeWhile_imp hc)
  have hskip : ((buf.dropWhile isDelimByte).length != buf.length) =
      !(buf.takeWhile isDelimByte).isEmpty := by
    have hlen := congrArg List.length hbuf
    rw [List.length_append] at hlen
    cases htake : buf.takeWhile isDelimByte with
    | nil =>
        rw [htake, List.length_nil, Nat.zero_add] at hlen
        simp [hlen]
    | cons x xs =>
        rw [htake, List.length_cons] at hlen
        have hne : (buf.dropWhile isDelimByte).length ≠ buf.length := by omega
        simpa using hne
  simp only [nextToken] at h
  split at h
  · cases h
  · next c cs hp =>
      rw [hskip, hp] at h
      split at h
      · next hd =>
          obtain ⟨hne, htext, hrest⟩ := stretch_parts byteKind_num hd cs
          obtain ⟨rfl, rfl⟩ := Prod.mk.inj (Option.some.inj h)
          refine ⟨_, ?_, hsep, hne, htext, rfl, hrest⟩
          rw [List.takeWhile_append_dropWhile, ← hp, hbuf]
      · next hd =>
          have halpha : isAlphaByte c = true := by simp [isAlphaByte, hd, dropWhile_head hp]
          obtain ⟨hne, htext, hrest⟩ := stretch_parts byteKind_alpha halpha cs
          obtain ⟨rfl, rfl⟩ := Prod.mk.inj (Option.some.inj h)
          refine ⟨_, ?_, hsep, hne, htext, rfl, hrest⟩
          rw [List.takeWhile_append_dropWhile, ← hp, hbuf]

theorem nextToken_none {buf : Bytes} (h : nextToken buf = none) : ∀ c ∈ buf, byteKind c = none := by
  simp only [nextToken] at h
  split at h
  · next hp =>
      rw [List.dropWhile_eq_nil_iff] at hp
      exact fun c hc => byteKind_delim (hp c hc)
  · split at h <;> cases h

theorem tokenStream_split (buf : Bytes) :
    Split byteKind buf ((tokenStream buf).map fun x => x.1.run) := by
  induction hn : buf.length using Nat.strong_induction_on generalizing buf with
  | _ n ih =>
      cases hnext : nextToken buf with
      | none =>
          rw [tokenStream_none hnext]
          exact .nil (nextToken_none hnext)
      | some x =>
          obtain ⟨t, rest⟩ := x
          obtain ⟨sep, hbuf, hsep, hne, htext, hskip, hrest⟩ := nextToken_parts hnext
          have hsplit := ih rest.length (hn ▸ nextToken_shrink hnext) rest rfl
          have hmax : ∀ r, ((tokenStream rest).map fun x => x.1.run).head? = some r →
              r.kind = t.typ → r.apart = true := by
            intro r hr hk
            rw [hsplit.eq_runs] at hr
            by_contra hap
            obtain ⟨a, _, rfl, ha⟩ := head_of_runs hr (by simpa using hap)
            exact hrest a rfl (by rw [ha, hk])
          rw [tokenStream_some hnext, List.map_cons, Token.run, hskip]
          rw [hbuf]
          exact .cons hsep hne htext hmax hsplit

/-- The tokens of a buffer are its runs. -/
theorem tokenStream_runs (buf : Bytes) :
    (tokenStream buf).map (fun x => x.1.run) = runs byteKind buf := (tokenStream_split buf).eq_runs

/-- The byte behind a token is a digit just when the next part is a number that
touches it. -/
theorem startsTouching_runs (buf : Bytes) :
    startsTouching ((runs byteKind buf).map partOf) = true ↔
      ∃ d rest, buf = d :: rest ∧ isDigitByte d = true := by
  constructor
  · intro h
    cases hruns : runs byteKind buf with
    | nil => simp [hruns, startsTouching] at h
    | cons r rs =>
        obtain ⟨k, text, ap⟩ := r
        have hr : (runs byteKind buf).head? = some ⟨k, text, ap⟩ := by rw [hruns]; rfl
        cases k <;> cases ap <;> simp [hruns, partOf, startsTouching] at h
        obtain ⟨d, rest, rfl, hd⟩ := head_of_runs hr rfl
        exact ⟨d, rest, rfl, byteKind_num.mp hd⟩
  · rintro ⟨d, rest, rfl, hd⟩
    have hk := byteKind_num.mpr hd
    rw [runs_cons]
    cases hruns : runs byteKind rest with
    | nil => simp [push, hk, partOf, startsTouching]
    | cons r rs =>
        simp only [push, hk]
        split
        · next hmore => simp [partOf, hmore.1, hmore.2, startsTouching]
        · simp [partOf, startsTouching]

theorem runs_of_nextToken {buf rest : Bytes} {t : Token} (h : nextToken buf = some (t, rest)) :
    runs byteKind buf = t.run :: runs byteKind rest := by
  rw [← tokenStream_runs, ← tokenStream_runs, tokenStream_some h, List.map_cons]

theorem runs_of_no_token {buf : Bytes} (h : nextToken buf = none) : runs byteKind buf = [] := by
  rw [← tokenStream_runs, tokenStream_none h, List.map_nil]

/-! ## Words and numbers -/

theorem alphaCmpCi_eq_iff (a b : Bytes) : alphaCmpCi a b = .eq ↔ foldWord a = foldWord b := by
  have h := alphaCmpCi_compares a b
  cases ho : alphaCmpCi a b <;> rw [ho] at h
  · simpa using ne_of_lt h
  · simpa using h
  · simpa using ne_of_gt h

theorem inTable_iff (table : List Bytes) (s : Bytes) :
    inTable table s = true ↔ foldWord s ∈ table.map foldWord := by
  rw [inTable, List.any_eq_true, List.mem_map]
  refine exists_congr fun w => and_congr_right fun _ => ?_
  rw [Bool.and_eq_true, beq_iff_eq, beq_iff_eq, alphaCmpCi_eq_iff]
  constructor
  · exact fun h => h.2.symm
  · intro h
    have hlen := congrArg List.length h
    rw [foldWord, foldWord, List.length_map, List.length_map] at hlen
    exact ⟨hlen.symm, h.symm⟩

theorem isPrereleaseKeyword_iff (s : Bytes) :
    isPrereleaseKeyword s = true ↔ foldWord s ∈ prereleaseWords := inTable_iff _ s

theorem isReleaseEquivalentKeyword_iff (s : Bytes) :
    isReleaseEquivalentKeyword s = true ↔ foldWord s ∈ releaseWords := inTable_iff _ s

/-- No word is in both tables. -/
theorem not_release_of_prerelease {w : List ℕ} (h : w ∈ prereleaseWords) : w ∉ releaseWords := by
  have hall : ∀ w ∈ prereleaseWords, w ∉ releaseWords := by decide +kernel
  exact hall w h

theorem Vercmp.ofOrder_answer {α : Type} [LinearOrder α] [DecidableLT α] [DecidableEq α]
    {o : Ordering} {a b : α} (h : o.Compares a b) : (Vercmp.ofOrder a b).answer = some o := by
  rw [Vercmp.ofOrder]
  cases o with
  | lt =>
      have hlt : a < b := h
      rw [if_pos hlt]
      rfl
  | eq =>
      obtain rfl : a = b := h
      rw [if_neg (lt_irrefl a), if_pos rfl]
      rfl
  | gt =>
      have hgt : b < a := h
      rw [if_neg (lt_asymm hgt), if_neg (ne_of_gt hgt)]
      rfl

theorem Vercmp.answer_inj {v w : Vercmp} (h : v.answer = w.answer) : v = w := by
  cases v <;> cases w <;> first | rfl | cases h

theorem cmpDigitRuns_ofOrder {a b : Bytes} (ha : AllDigits a) (hb : AllDigits b) :
    cmpDigitRuns a b = .ofOrder (digitsValue a) (digitsValue b) := by
  refine Vercmp.answer_inj ?_
  rw [cmpDigitRuns_answer ha hb]
  exact (Vercmp.ofOrder_answer ((compare_iff _ _).mp rfl)).symm

theorem lexical_ofOrder (a b : Bytes) :
    (match alphaCmpCi a b with
      | .lt => Vercmp.less
      | .gt => .greater
      | .eq => .equal) = .ofOrder (foldWord a) (foldWord b) := by
  refine Vercmp.answer_inj ?_
  have h : (Vercmp.ofOrder (foldWord a) (foldWord b)).answer = some (alphaCmpCi a b) :=
    Vercmp.ofOrder_answer (alphaCmpCi_compares a b)
  rw [h]
  cases alphaCmpCi a b <;> rfl

theorem alphaKeywordRank_eq (s : Bytes) : alphaKeywordRank s =
    if foldWord s ∈ prereleaseWords then 0 else if foldWord s ∈ releaseWords then 1 else 2 := by
  simp only [alphaKeywordRank, isPrereleaseKeyword_iff, isReleaseEquivalentKeyword_iff]

theorem cmpAlphaTokens_eq (a b : Bytes) (x y : Bool) :
    cmpAlphaTokens a b = partVerdict (.word x (foldWord a)) (.word y (foldWord b)) := by
  simp only [cmpAlphaTokens, alphaKeywordRank_eq, partVerdict]
  -- no word is in both tables, and two words of one rank are compared as texts
  by_cases pa : foldWord a ∈ prereleaseWords <;> by_cases pb : foldWord b ∈ prereleaseWords <;>
    by_cases ra : foldWord a ∈ releaseWords <;> by_cases rb : foldWord b ∈ releaseWords <;>
    first
    | exact absurd ra (not_release_of_prerelease pa)
    | exact absurd rb (not_release_of_prerelease pb)
    | simp only [pa, pb, ra, rb, if_true, if_false, or_true, or_false]; rfl
    | simp only [pa, pb, ra, rb, if_true, if_false, or_false]; exact lexical_ofOrder a b

theorem cmpTokens_eq {a b : Token} (ha : a.typ = .num → AllDigits a.text)
    (hb : b.typ = .num → AllDigits b.text) :
    cmpTokens a b = partVerdict (partOf a.run) (partOf b.run) := by
  unfold cmpTokens partOf Token.run
  cases hta : a.typ <;> cases htb : b.typ <;> simp only
  · exact cmpDigitRuns_ofOrder (ha hta) (hb htb)
  · rfl
  · rfl
  · exact cmpAlphaTokens_eq _ _ _ _

/-! ## The two loops -/

theorem nextToken_digits {buf rest : Bytes} {t : Token} (h : nextToken buf = some (t, rest)) :
    t.typ = .num → AllDigits t.text := by
  obtain ⟨_, _, _, _, htext, _⟩ := nextToken_parts h
  intro ht c hc
  exact byteKind_num.mp (by rw [htext c hc, ht])

theorem isAmbiguousAttachedLetter_iff (text rest : Bytes) :
    isAmbiguousAttachedLetter text rest = true ↔
      foldWord text ∈ loneLetters ∧ startsTouching ((runs byteKind rest).map partOf) = true := by
  rw [startsTouching_runs]
  have hletters : ∀ c : UInt8,
      (toLowerAscii c != 0x61 && toLowerAscii c != 0x62 && toLowerAscii c != 0x63) = false ↔
        [(toLowerAscii c).toNat] ∈ loneLetters := forall_byte (by decide)
  match text with
  | [] => simp [isAmbiguousAttachedLetter, foldWord, loneLetters]
  | [l] =>
      have hl := hletters l
      simp only [isAmbiguousAttachedLetter, foldWord, List.map_cons, List.map_nil, ← hl]
      cases rest with
      | nil => split <;> simp_all
      | cons d rest =>
          split
          · simp_all
          · next hnot => simp [Bool.not_eq_true _ ▸ hnot]
  | l :: m :: text => simp [isAmbiguousAttachedLetter, foldWord, loneLetters]

/-- What one token says at the end of the other side. -/
theorem longerVerdict_cons (p : Part) (ps : List Part) :
    longerVerdict (p :: ps) =
      if p.neutral then longerVerdict ps
      else match p with
        | .number _ _ => .greater
        | .word apart w =>
            if w ∈ prereleaseWords then .less
            else if apart then .undecidable
            else if w ∈ loneLetters ∧ startsTouching ps then .undecidable
            else .greater := by
  rw [longerVerdict, List.dropWhile_cons]
  by_cases hp : p.neutral = true
  · rw [if_pos hp, if_pos hp]
    rfl
  · rw [if_neg hp, if_neg hp]
    cases p <;> rfl

/-- The residual walk reads the parts from its saved position. -/
theorem residualOf_eq (buf : Bytes) :
    residualOf (tokenStream buf) = longerVerdict ((runs byteKind buf).map partOf) := by
  induction hn : buf.length using Nat.strong_induction_on generalizing buf with
  | _ n ih =>
      cases hnext : nextToken buf with
      | none =>
          rw [tokenStream_none hnext, runs_of_no_token hnext]
          rfl
      | some x =>
          obtain ⟨t, rest⟩ := x
          have hrest := ih rest.length (hn ▸ nextToken_shrink hnext) rest rfl
          have hdigits := nextToken_digits hnext
          rw [tokenStream_some hnext, runs_of_nextToken hnext, List.map_cons, longerVerdict_cons,
            residualOf, hrest, Token.run, partOf]
          cases htyp : t.typ with
          | num =>
              have hzero := isAllZeroDigits_iff (hdigits htyp)
              simp only [Part.neutral, Bool.not_eq_true', decide_eq_true_eq, ← hzero]
              cases isAllZeroDigits t.text <;> rfl
          | alpha =>
              simp only [Part.neutral, decide_eq_true_eq, isPrereleaseKeyword_iff,
                isReleaseEquivalentKeyword_iff, isAmbiguousAttachedLetter_iff]
              by_cases hp : foldWord t.text ∈ prereleaseWords
              · rw [if_pos hp, if_neg (not_release_of_prerelease hp), if_pos hp]
              · rw [if_neg hp, if_neg hp]
                cases t.delimSkipped <;> rfl

/-- The two cursors read the parts of both sides position by position. -/
theorem lockstepOf_eq (a b : Bytes) : lockstepOf (tokenStream a) (tokenStream b) =
    walkVerdict ((runs byteKind a).map partOf) ((runs byteKind b).map partOf) := by
  induction hn : a.length using Nat.strong_induction_on generalizing a b with
  | _ n ih =>
      have hresA := residualOf_eq a
      have hresB := residualOf_eq b
      cases ha : nextToken a with
      | none =>
          rw [runs_of_no_token ha, tokenStream_none ha]
          cases hb : nextToken b with
          | none =>
              rw [runs_of_no_token hb, tokenStream_none hb]
              rfl
          | some y =>
              rw [tokenStream_some hb, runs_of_nextToken hb] at hresB ⊢
              exact congrArg Vercmp.mirror hresB
      | some x =>
          cases hb : nextToken b with
          | none =>
              rw [tokenStream_some ha, runs_of_nextToken ha] at hresA ⊢
              rw [runs_of_no_token hb, tokenStream_none hb]
              exact hresA
          | some y =>
              rw [tokenStream_some ha, tokenStream_some hb, runs_of_nextToken ha,
                runs_of_nextToken hb, lockstepOf, List.map_cons, List.map_cons, walkVerdict,
                ← cmpTokens_eq (nextToken_digits ha) (nextToken_digits hb),
                ih x.2.length (hn ▸ nextToken_shrink ha) x.2 y.2 rfl]
              by_cases hcmp : cmpTokens x.1 y.1 = .equal
              · rw [if_pos hcmp, hcmp]
                rfl
              · rw [if_neg hcmp, if_pos (by simpa using hcmp)]

/-! ## The whole comparison -/

theorem hasDisallowedByte_eq (s : Bytes) :
    hasDisallowedByte s = s.any fun c => c.toNat < 0x20 ∨ 0x7F ≤ c.toNat := by
  rw [hasDisallowedByte]
  congr 1
  funext c
  have hall : ∀ c : UInt8, (c < 0x20 || c == 0x7F || (0x80 : UInt8) ≤ c) =
      decide (c.toNat < 0x20 ∨ 0x7F ≤ c.toNat) := forall_byte (by decide)
  exact hall c

theorem stripVPrefix_eq (s : Bytes) : stripVPrefix s = withoutV s := by
  match s with
  | [] => rfl
  | [c] => simp [stripVPrefix, withoutV]
  | v :: d :: rest => simp [stripVPrefix, withoutV]

theorem drop_length_takeWhile (p : UInt8 → Bool) (s : Bytes) :
    s.drop (s.takeWhile p).length = s.dropWhile p := by
  have happ := List.takeWhile_append_dropWhile (p := p) (l := s)
  calc s.drop (s.takeWhile p).length
      = (s.takeWhile p ++ s.dropWhile p).drop (s.takeWhile p).length := by rw [happ]
    _ = s.dropWhile p := List.drop_left

theorem splitEpoch_eq (s : Bytes) :
    ((digitsValue (splitEpoch s).1, (splitEpoch s).2) : ℕ × Bytes) = epochAndRest s := by
  have hzero : digitsValue (ascii "0") = 0 := by decide
  simp only [splitEpoch, epochAndRest, List.drop_add_one_eq_tail_drop, drop_length_takeWhile]
  cases s.takeWhile isDigitByte with
  | nil => simp [hzero]
  | cons d ds =>
      match s.dropWhile isDigitByte with
      | [] => simp [hzero]
      | c :: cs =>
          by_cases hc : c = 0x3A
          · subst hc; simp
          · simp [hc, hzero]

/-- The parts and the epoch of a version, from its tokens. -/
theorem versionView_eq (s : Bytes) :
    versionView s =
      if hasDisallowedByte s || (versionTokens s).isEmpty then none
      else some (digitsValue (versionEpoch s), partsOf (splitEpoch (stripVPrefix s)).2) := by
  have hepoch := splitEpoch_eq (stripVPrefix s)
  have hfst : digitsValue (versionEpoch s) = (epochAndRest (stripVPrefix s)).1 :=
    congrArg Prod.fst hepoch
  have hsnd : (splitEpoch (stripVPrefix s)).2 = (epochAndRest (stripVPrefix s)).2 :=
    congrArg Prod.snd hepoch
  rw [versionView, ← hasDisallowedByte_eq, ← stripVPrefix_eq, hfst, versionTokens, hsnd]
  have hempty : (tokenStream (cutBuildMetadata (epochAndRest (stripVPrefix s)).2)).isEmpty = true ↔
      partsOf (epochAndRest (stripVPrefix s)).2 = [] := by
    rw [partsOf, ← cutBuildMetadata, ← tokenStream_runs]
    simp
  simp only [← hempty]
  cases hasDisallowedByte s <;> rfl

theorem versionCompare_eq_reference (a b : Bytes) : versionCompare a b = referenceCompare a b := by
  rw [versionCompare_eq, referenceCompare, versionView_eq a, versionView_eq b,
    cmpDigitRuns_ofOrder (versionEpoch_allDigits a) (versionEpoch_allDigits b)]
  cases hasDisallowedByte a <;> cases hasDisallowedByte b <;>
    cases (versionTokens a).isEmpty <;> cases (versionTokens b).isEmpty <;> try rfl
  -- both have parts: the epochs decide, or else the walk
  show (if Vercmp.ofOrder (digitsValue (versionEpoch a)) (digitsValue (versionEpoch b)) != .equal
    then _ else lockstepOf (versionTokens a) (versionTokens b)) = _
  simp only [compareViews, Bool.or_false, Bool.false_eq_true, if_false]
  by_cases he : digitsValue (versionEpoch a) = digitsValue (versionEpoch b)
  · rw [if_pos he, he, Vercmp.ofOrder, if_neg (lt_irrefl _), if_pos rfl]
    exact lockstepOf_eq _ _
  · rw [if_neg he, Vercmp.ofOrder, if_neg he]
    split <;> rfl

/-- The comparator is the reference: the runs that the reference compares are
the longest ones, and both answer alike on every two strings. -/
theorem versionCompare_reference :
    (∀ (s : Bytes) (rs : List (Run UInt8 TokType)), Split byteKind s rs ↔ rs = runs byteKind s) ∧
      ∀ a b : Bytes, versionCompare a b = referenceCompare a b :=
  ⟨fun _ _ => split_iff, versionCompare_eq_reference⟩

end Cytadel.Match
