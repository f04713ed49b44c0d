import Cytadel.Lib.PartialCompare
import Cytadel.Lib.PaddedLex
import Cytadel.Proofs.VersionTokens
import Mathlib.Data.Prod.Lex
import Mathlib.Data.List.Lex
import Mathlib.Data.List.TakeWhile
import Mathlib.Tactic.Linarith
import Mathlib.Tactic.Ring

/-!
# The version order

The comparator declines to answer on many pairs, so it is no order by itself.
This file gives it one to live in. A token becomes a piece: a pre-release
word below the release, the release itself, a positive number above it, an
unrecognised word above all numbers. A zero, a release-equivalent word and
the end of the string are one and the same piece, the padding of
`Lib.padLex`, and the epoch stands in front of everything.

The placing of unrecognised words above the numbers is arbitrary: no rule of
the comparator ever relates the two, and that is why the order exists. All it
has to get right is the end of the string, which an attached word lies above,
and the words of its own rank.
-/

namespace Cytadel.Match

open Cytadel Lib

/-- The answer of a comparison that gave one. -/
def Vercmp.answer : Vercmp → Option Ordering
  | .less => some .lt
  | .equal => some .eq
  | .greater => some .gt
  | .undecidable => none

@[simp] theorem Vercmp.answer_less : Vercmp.answer .less = some .lt := rfl
@[simp] theorem Vercmp.answer_equal : Vercmp.answer .equal = some .eq := rfl
@[simp] theorem Vercmp.answer_greater : Vercmp.answer .greater = some .gt := rfl
@[simp] theorem Vercmp.answer_undecidable : Vercmp.answer .undecidable = none := rfl

theorem Vercmp.answer_mirror (v : Vercmp) :
    v.mirror.answer = v.answer.map Ordering.swap := by
  cases v <;> rfl

/-! ## Digit runs by value -/

/-- The number a run of digits spells. -/
def digitsValue : Bytes → ℕ
  | [] => 0
  | c :: cs => (c.toNat - 48) * 10 ^ cs.length + digitsValue cs

def AllDigits (s : Bytes) : Prop := ∀ c ∈ s, isDigitByte c = true

theorem isDigitByte_iff {c : UInt8} :
    isDigitByte c = true ↔ 48 ≤ c.toNat ∧ c.toNat ≤ 57 := by
  simp [isDigitByte, UInt8.le_iff_toNat_le]

theorem AllDigits.of_cons {c : UInt8} {cs : Bytes} (h : AllDigits (c :: cs)) :
    AllDigits cs := fun x hx => h x (List.mem_cons_of_mem _ hx)

theorem AllDigits.head {c : UInt8} {cs : Bytes} (h : AllDigits (c :: cs)) :
    48 ≤ c.toNat ∧ c.toNat ≤ 57 := isDigitByte_iff.mp (h c List.mem_cons_self)

theorem digitsValue_lt {s : Bytes} (h : AllDigits s) :
    digitsValue s < 10 ^ s.length := by
  induction s with
  | nil => simp [digitsValue]
  | cons c cs ih =>
      have hc := h.head
      have hcs := ih h.of_cons
      have hd : (c.toNat - 48) * 10 ^ cs.length ≤ 9 * 10 ^ cs.length :=
        Nat.mul_le_mul_right _ (by omega)
      rw [digitsValue, List.length_cons, pow_succ]
      omega

/-- A run that does not start with a zero is at least the power of ten its
length stands for. -/
theorem le_digitsValue {c : UInt8} {cs : Bytes} (h : AllDigits (c :: cs))
    (hc : c ≠ 0x30) : 10 ^ cs.length ≤ digitsValue (c :: cs) := by
  have hge := h.head
  have hne : c.toNat ≠ 48 := fun h48 => hc (UInt8.toNat.inj h48)
  have hd : 1 * 10 ^ cs.length ≤ (c.toNat - 48) * 10 ^ cs.length :=
    Nat.mul_le_mul_right _ (by omega)
  rw [digitsValue]
  omega

theorem digitsValue_dropWhile_zero (s : Bytes) :
    digitsValue (s.dropWhile (· == 0x30)) = digitsValue s := by
  induction s with
  | nil => rfl
  | cons c cs ih =>
      rw [List.dropWhile_cons]
      split
      · next hc =>
          have h48 : c = 0x30 := by simpa using hc
          rw [ih, digitsValue, h48]
          simp
      · rfl

theorem AllDigits.dropWhile {s : Bytes} (h : AllDigits s) (p : UInt8 → Bool) :
    AllDigits (s.dropWhile p) := fun c hc =>
  h c ((List.dropWhile_sublist p).subset hc)

/-- On equally long runs, the first byte that differs decides the value. -/
theorem memcmp_eq_compare : ∀ {a b : Bytes}, AllDigits a → AllDigits b →
    a.length = b.length → memcmp a b = compare (digitsValue a) (digitsValue b) := by
  intro a
  induction a with
  | nil =>
      intro b _ _ hlen
      have hb : b = [] := List.length_eq_zero_iff.mp hlen.symm
      rw [hb]
      rfl
  | cons x xs ih =>
      intro b ha hb hlen
      cases b with
      | nil => simp at hlen
      | cons y ys =>
          have hl : xs.length = ys.length := by simpa using hlen
          have hx := ha.head
          have hy := hb.head
          have hvx := digitsValue_lt ha.of_cons
          have hvy := digitsValue_lt hb.of_cons
          have hstep : ∀ m n : ℕ, m < n →
              m * 10 ^ ys.length + 10 ^ ys.length ≤ n * 10 ^ ys.length := by
            intro m n hmn
            calc m * 10 ^ ys.length + 10 ^ ys.length
                = (m + 1) * 10 ^ ys.length := by ring
              _ ≤ n * 10 ^ ys.length := Nat.mul_le_mul_right _ hmn
          rw [hl] at hvx
          simp only [memcmp, digitsValue, hl]
          split
          · next hlt =>
              have hn := UInt8.lt_iff_toNat_lt.mp hlt
              have := hstep (x.toNat - 48) (y.toNat - 48) (by omega)
              exact (compare_lt_iff_lt.mpr (by omega)).symm
          · split
            · next _ hgt =>
                have hn := UInt8.lt_iff_toNat_lt.mp hgt
                have := hstep (y.toNat - 48) (x.toNat - 48) (by omega)
                exact (compare_gt_iff_gt.mpr (by omega)).symm
            · next hlt hgt =>
                have hxy : x = y := by
                  apply UInt8.toNat.inj
                  rw [UInt8.lt_iff_toNat_lt] at hlt hgt
                  omega
                rw [ih ha.of_cons hb.of_cons hl, hxy]
                rcases lt_trichotomy (digitsValue xs) (digitsValue ys) with h | h | h
                · rw [compare_lt_iff_lt.mpr h, compare_lt_iff_lt.mpr (by omega)]
                · rw [h]; simp
                · rw [compare_gt_iff_gt.mpr h, compare_gt_iff_gt.mpr (by omega)]

/-- Without leading zeros, fewer digits is a smaller number. -/
theorem digitsValue_lt_of_length {a b : Bytes} (ha : AllDigits a)
    (hb : AllDigits b) (hzero : ∀ c cs, b = c :: cs → c ≠ 0x30)
    (hlen : a.length < b.length) : digitsValue a < digitsValue b := by
  cases b with
  | nil => simp at hlen
  | cons c cs =>
      calc digitsValue a < 10 ^ a.length := digitsValue_lt ha
        _ ≤ 10 ^ cs.length := Nat.pow_le_pow_right (by omega) (Nat.lt_succ_iff.mp hlen)
        _ ≤ digitsValue (c :: cs) := le_digitsValue hb (hzero c cs rfl)

/-- Digit runs are compared by their value, at any length. -/
theorem cmpDigitRuns_answer {a b : Bytes} (ha : AllDigits a) (hb : AllDigits b) :
    (cmpDigitRuns a b).answer = some (compare (digitsValue a) (digitsValue b)) := by
  have hza : ∀ c cs, a.dropWhile (· == 0x30) = c :: cs → c ≠ 0x30 := by
    intro c cs h
    simpa using dropWhile_head h
  have hzb : ∀ c cs, b.dropWhile (· == 0x30) = c :: cs → c ≠ 0x30 := by
    intro c cs h
    simpa using dropWhile_head h
  have hda := ha.dropWhile (· == 0x30)
  have hdb := hb.dropWhile (· == 0x30)
  rw [← digitsValue_dropWhile_zero a, ← digitsValue_dropWhile_zero b]
  unfold cmpDigitRuns
  simp only []
  split
  · next hne =>
      split
      · next hlt =>
          rw [compare_lt_iff_lt.mpr (digitsValue_lt_of_length hda hdb hzb hlt)]
          rfl
      · next hlt =>
          have hgt : (b.dropWhile (· == 0x30)).length <
              (a.dropWhile (· == 0x30)).length := by
            have hne' := bne_iff_ne.mp hne
            omega
          rw [compare_gt_iff_gt.mpr (digitsValue_lt_of_length hdb hda hza hgt)]
          rfl
  · next heq =>
      have hlen : (a.dropWhile (· == 0x30)).length =
          (b.dropWhile (· == 0x30)).length := by simpa using heq
      rw [memcmp_eq_compare hda hdb hlen]
      cases compare (digitsValue (a.dropWhile (· == 0x30)))
        (digitsValue (b.dropWhile (· == 0x30))) <;> rfl

theorem cmpDigitRuns_sound {a b : Bytes} {o : Ordering} (ha : AllDigits a)
    (hb : AllDigits b) (h : (cmpDigitRuns a b).answer = some o) :
    o.Compares (digitsValue a) (digitsValue b) := by
  rw [cmpDigitRuns_answer ha hb] at h
  exact (compare_iff _ _).mp (Option.some.inj h)

theorem isAllZeroDigits_iff {s : Bytes} (h : AllDigits s) :
    isAllZeroDigits s = true ↔ digitsValue s = 0 := by
  induction s with
  | nil => simp [isAllZeroDigits, digitsValue]
  | cons c cs ih =>
      have hc := h.head
      have hiff : c = 0x30 ↔ c.toNat - 48 = 0 := by
        constructor
        · rintro rfl; rfl
        · intro h0
          exact UInt8.toNat.inj (show c.toNat = 48 by omega)
      have ih' := ih h.of_cons
      simp only [isAllZeroDigits] at ih' ⊢
      simp [digitsValue, ih', hiff]

/-! ## Words -/

/-- A word as the comparator reads it: its bytes in lower case. -/
def foldWord (s : Bytes) : List ℕ := s.map fun c => (toLowerAscii c).toNat

theorem alphaCmpCi_compares (a b : Bytes) :
    (alphaCmpCi a b).Compares (foldWord a) (foldWord b) := by
  induction a generalizing b with
  | nil =>
      cases b with
      | nil => exact rfl
      | cons y ys => exact List.nil_lt_cons _ _
  | cons x xs ih =>
      cases b with
      | nil => exact List.nil_lt_cons _ _
      | cons y ys =>
          simp only [alphaCmpCi]
          split
          · next hne =>
              split
              · next hlt => exact List.Lex.rel (UInt8.lt_iff_toNat_lt.mp hlt)
              · next hlt =>
                  refine List.Lex.rel ?_
                  have hne' : (toLowerAscii x).toNat ≠ (toLowerAscii y).toNat :=
                    fun h => bne_iff_ne.mp hne (UInt8.toNat.inj h)
                  rw [UInt8.lt_iff_toNat_lt] at hlt
                  show (toLowerAscii y).toNat < (toLowerAscii x).toNat
                  omega
          · next heq =>
              have hxy : toLowerAscii x = toLowerAscii y := by simpa using heq
              have h := ih ys
              simp only [foldWord, List.map_cons, hxy] at h ⊢
              cases ho : alphaCmpCi xs ys <;> rw [ho] at h
              · exact List.Lex.cons h
              · exact congrArg _ h
              · exact List.Lex.cons h

/-! ## Pieces -/

/-- What a token weighs: a class, and a place within it. -/
abbrev Piece := ℕ ×ₗ List ℕ

/-- The piece that says nothing beyond "this is the release": a zero, a
release-equivalent word, the end of the string. -/
def releasePiece : Piece := toLex (1, [])

def prereleasePiece (w : List ℕ) : Piece := toLex (0, w)

def wordPiece (w : List ℕ) : Piece := toLex (3, w)

def numberPiece (n : ℕ) : Piece := if n = 0 then releasePiece else toLex (2, [n])

def pieceOf (t : Token) : Piece :=
  match t.typ with
  | .num => numberPiece (digitsValue t.text)
  | .alpha =>
      if isPrereleaseKeyword t.text then prereleasePiece (foldWord t.text)
      else if isReleaseEquivalentKeyword t.text then releasePiece
      else wordPiece (foldWord t.text)

theorem piece_lt_of_class {a b : ℕ} (v w : List ℕ) (h : a < b) :
    (toLex (a, v) : Piece) < toLex (b, w) :=
  Prod.Lex.toLex_lt_toLex.mpr (Or.inl h)

theorem prereleasePiece_lt (w : List ℕ) : prereleasePiece w < releasePiece :=
  piece_lt_of_class w [] (by omega)

theorem releasePiece_lt_wordPiece (w : List ℕ) : releasePiece < wordPiece w :=
  piece_lt_of_class [] w (by omega)

theorem releasePiece_lt_numberPiece {n : ℕ} (h : n ≠ 0) :
    releasePiece < numberPiece n := by
  rw [numberPiece, if_neg h]
  exact piece_lt_of_class [] [n] (by omega)

/-- Within one class the place decides. -/
theorem piece_compares_within {o : Ordering} (a : ℕ) {v w : List ℕ}
    (h : o.Compares v w) : o.Compares (toLex (a, v) : Piece) (toLex (a, w)) := by
  cases o with
  | lt => exact Prod.Lex.toLex_lt_toLex.mpr (Or.inr ⟨rfl, h⟩)
  | eq => exact congrArg (fun u => (toLex (a, u) : Piece)) h
  | gt => exact Prod.Lex.toLex_lt_toLex.mpr (Or.inr ⟨rfl, h⟩)

theorem numberPiece_lt {m n : ℕ} (h : m < n) : numberPiece m < numberPiece n := by
  have hn : n ≠ 0 := by omega
  by_cases hm : m = 0
  · rw [hm]
    exact releasePiece_lt_numberPiece hn
  · rw [numberPiece, if_neg hm, numberPiece, if_neg hn]
    exact Prod.Lex.toLex_lt_toLex.mpr (Or.inr ⟨rfl, List.Lex.rel h⟩)

theorem numberPiece_compares {m n : ℕ} {o : Ordering} (h : o.Compares m n) :
    o.Compares (numberPiece m) (numberPiece n) := by
  cases o with
  | lt => exact numberPiece_lt h
  | eq => exact congrArg numberPiece h
  | gt => exact numberPiece_lt h

theorem cmpAlphaTokens_sound {a b : Token} {o : Ordering} (ha : a.typ = .alpha)
    (hb : b.typ = .alpha) (h : (cmpAlphaTokens a.text b.text).answer = some o) :
    o.Compares (pieceOf a) (pieceOf b) := by
  have hword := alphaCmpCi_compares a.text b.text
  simp only [pieceOf, ha, hb]
  unfold cmpAlphaTokens alphaKeywordRank at h
  generalize alphaCmpCi a.text b.text = low at h hword
  -- The nine pairs of ranks; the ones with an unrecognised side and a
  -- recognised one have no answer.
  by_cases pa : isPrereleaseKeyword a.text <;> by_cases pb : isPrereleaseKeyword b.text
  · simp only [pa, pb, if_true] at h ⊢
    cases low <;> cases h <;> exact piece_compares_within 0 hword
  · by_cases rb : isReleaseEquivalentKeyword b.text
    · simp [pa, pb, rb] at h ⊢
      rw [← h]
      exact prereleasePiece_lt _
    · simp [pa, pb, rb] at h
  · by_cases ra : isReleaseEquivalentKeyword a.text
    · simp [pa, pb, ra] at h ⊢
      rw [← h]
      exact prereleasePiece_lt _
    · simp [pa, pb, ra] at h
  · by_cases ra : isReleaseEquivalentKeyword a.text <;>
      by_cases rb : isReleaseEquivalentKeyword b.text
    · simp [pa, pb, ra, rb] at h ⊢
      rw [← h]
      exact rfl
    · simp [pa, pb, ra, rb] at h
    · simp [pa, pb, ra, rb] at h
    · simp only [pa, pb, ra, rb, Bool.false_eq_true, if_false] at h ⊢
      cases low <;> cases h <;> exact piece_compares_within 3 hword

/-! ## Token lists -/

/-- The numbers of a token list are digit runs. -/
def NumDigits (ts : List (Token × Bytes)) : Prop :=
  ∀ x ∈ ts, x.1.typ = .num → AllDigits x.1.text

theorem NumDigits.of_cons {x : Token × Bytes} {ts : List (Token × Bytes)}
    (h : NumDigits (x :: ts)) : NumDigits ts :=
  fun y hy => h y (List.mem_cons_of_mem _ hy)

theorem allDigits_takeWhile (s : Bytes) : AllDigits (s.takeWhile isDigitByte) :=
  fun _ hc => List.mem_takeWhile_imp hc

theorem streamGo_numDigits : ∀ (fuel : Nat) (buf : Bytes),
    NumDigits (streamGo fuel buf) := by
  intro fuel
  induction fuel with
  | zero => intro buf x hx; cases hx
  | succ n ih =>
      intro buf x hx htyp
      rw [streamGo] at hx
      split at hx
      · cases hx
      · next t rest hnext =>
          rcases List.mem_cons.mp hx with rfl | hmem
          · obtain ⟨c, cs, _, ⟨_, _, htext, _⟩ | ⟨halpha, _⟩⟩ := nextToken_some hnext
            · rw [htext]; exact allDigits_takeWhile _
            · rw [halpha] at htyp; cases htyp
          · exact ih rest x hmem htyp

theorem versionTokens_numDigits (s : Bytes) : NumDigits (versionTokens s) :=
  streamGo_numDigits _ _

theorem versionEpoch_allDigits (s : Bytes) : AllDigits (versionEpoch s) := by
  unfold versionEpoch splitEpoch
  simp only []
  split
  · exact allDigits_takeWhile _
  · intro c hc
    have : c = 0x30 := by simpa [ascii] using hc
    rw [this]
    rfl

theorem cmpTokens_sound {a b : Token} {o : Ordering}
    (ha : a.typ = .num → AllDigits a.text) (hb : b.typ = .num → AllDigits b.text)
    (h : (cmpTokens a b).answer = some o) : o.Compares (pieceOf a) (pieceOf b) := by
  unfold cmpTokens at h
  cases hta : a.typ <;> cases htb : b.typ <;> simp only [hta, htb] at h
  · simp only [pieceOf, hta, htb]
    exact numberPiece_compares (cmpDigitRuns_sound (ha hta) (hb htb) h)
  · cases h
  · cases h
  · exact cmpAlphaTokens_sound hta htb h

/-- The pieces of a token list. -/
def piecesOf (ts : List (Token × Bytes)) : List Piece := ts.map fun x => pieceOf x.1

/-- A residual is judged against the release piece for ever: its first token
of another piece decides, as the padded order has it. -/
theorem residualOf_sound {ts : List (Token × Bytes)} {o : Ordering}
    (hd : NumDigits ts) (h : (residualOf ts).answer = some o) :
    o.Compares (padLex releasePiece (piecesOf ts)) (padLex releasePiece []) := by
  induction ts with
  | nil =>
      rw [← Option.some.inj h]
      exact rfl
  | cons x ts ih =>
      obtain ⟨t, rest⟩ := x
      have hskip : pieceOf t = releasePiece → (residualOf ts).answer = some o →
          o.Compares (padLex releasePiece (piecesOf ((t, rest) :: ts)))
            (padLex releasePiece []) := by
        intro hp hres
        rw [piecesOf, List.map_cons, hp]
        exact padLex_compares_nil_pad (ih hd.of_cons hres)
      have habove : releasePiece < pieceOf t → some Ordering.gt = some o →
          o.Compares (padLex releasePiece (piecesOf ((t, rest) :: ts)))
            (padLex releasePiece []) := by
        intro hp ho
        rw [← Option.some.inj ho]
        exact padLex_compares_nil_of_ne (ne_of_gt hp) hp
      rw [residualOf] at h
      cases htyp : t.typ with
      | num =>
          have hnum : AllDigits t.text := hd (t, rest) List.mem_cons_self htyp
          have hpiece : pieceOf t = numberPiece (digitsValue t.text) := by
            simp only [pieceOf, htyp]
          simp only [htyp] at h
          split at h
          · next hz =>
              have hne : digitsValue t.text ≠ 0 := fun h0 => by
                simp [(isAllZeroDigits_iff hnum).mpr h0] at hz
              exact habove (hpiece ▸ releasePiece_lt_numberPiece hne) h
          · next hz =>
              have h0 := (isAllZeroDigits_iff hnum).mp (by simpa using hz)
              exact hskip (by rw [hpiece, numberPiece, if_pos h0]) h
      | alpha =>
          simp only [htyp] at h
          split at h
          · next hpre =>
              have hlt : pieceOf t < releasePiece := by
                simp only [pieceOf, htyp, hpre, if_true]
                exact prereleasePiece_lt _
              rw [← Option.some.inj h]
              exact padLex_compares_nil_of_ne (ne_of_lt hlt) hlt
          · next hpre =>
              split at h
              · next hrel => exact hskip (by simp [pieceOf, htyp, hpre, hrel]) h
              · next hrel =>
                  have hgt : releasePiece < pieceOf t := by
                    simp only [pieceOf, htyp, hpre, hrel]
                    exact releasePiece_lt_wordPiece _
                  split at h
                  · split at h
                    · cases h
                    · exact habove hgt h
                  · cases h

theorem lockstepOf_sound : ∀ {as bs : List (Token × Bytes)} {o : Ordering},
    NumDigits as → NumDigits bs → (lockstepOf as bs).answer = some o →
    o.Compares (padLex releasePiece (piecesOf as))
      (padLex releasePiece (piecesOf bs)) := by
  intro as
  induction as with
  | nil =>
      intro bs o _ hb h
      cases bs with
      | nil =>
          rw [← Option.some.inj h]
          exact rfl
      | cons b bs =>
          rw [lockstepOf, Vercmp.answer_mirror] at h
          obtain ⟨o', ho', rfl⟩ := Option.map_eq_some_iff.mp h
          exact (residualOf_sound hb ho').swap
  | cons a as ih =>
      intro bs o ha hb h
      cases bs with
      | nil => exact residualOf_sound ha h
      | cons b bs =>
          have hsound : ∀ o', (cmpTokens a.1 b.1).answer = some o' →
              o'.Compares (pieceOf a.1) (pieceOf b.1) := fun _ =>
            cmpTokens_sound (ha a List.mem_cons_self) (hb b List.mem_cons_self)
          rw [lockstepOf] at h
          simp only [piecesOf, List.map_cons]
          split at h
          · next hne =>
              have hcmp := hsound o h
              have ho : o ≠ .eq := by
                rintro rfl
                cases hv : cmpTokens a.1 b.1 <;> simp [hv] at h hne
              exact padLex_compares_of_ne (fun heq => ho (hcmp.eq_eq.mpr heq)) hcmp
          · next heq =>
              have heq' : cmpTokens a.1 b.1 = .equal := by simpa using heq
              have hpeq : pieceOf a.1 = pieceOf b.1 :=
                hsound .eq (by rw [heq', Vercmp.answer_equal])
              rw [hpeq]
              exact padLex_compares_cons (ih ha.of_cons hb.of_cons h)

/-! ## The key of a version string -/

/-- An epoch, then pieces without end. -/
abbrev VersionKey := ℕ ×ₗ Lex (ℕ → Piece)

/-- The epoch first, then the padded pieces. -/
def versionKey (s : Bytes) : VersionKey :=
  toLex (digitsValue (versionEpoch s),
    padLex releasePiece (piecesOf (versionTokens s)))

/-- The comparator as a partial comparison. -/
def versionAnswer (a b : Bytes) : Option Ordering := (versionCompare a b).answer

/-- Every answer of the comparator is the order of the keys. -/
theorem versionAnswer_keySound : KeySound versionAnswer versionKey := by
  intro a b o h
  rw [versionAnswer, versionCompare_eq] at h
  have hepoch : ∀ o', (cmpDigitRuns (versionEpoch a) (versionEpoch b)).answer = some o' →
      o'.Compares (digitsValue (versionEpoch a)) (digitsValue (versionEpoch b)) :=
    fun _ => cmpDigitRuns_sound (versionEpoch_allDigits a) (versionEpoch_allDigits b)
  split at h
  · cases h
  · split at h
    · cases h
    · split at h
      · next hne =>
          have hc := hepoch o h
          cases o with
          | lt => exact Prod.Lex.toLex_lt_toLex.mpr (Or.inl hc)
          | eq =>
              cases hv : cmpDigitRuns (versionEpoch a) (versionEpoch b) <;>
                simp [hv] at h hne
          | gt => exact Prod.Lex.toLex_lt_toLex.mpr (Or.inl hc)
      · next heq =>
          have heq' : cmpDigitRuns (versionEpoch a) (versionEpoch b) = .equal := by
            simpa using heq
          have he : digitsValue (versionEpoch a) = digitsValue (versionEpoch b) :=
            hepoch .eq (by rw [heq', Vercmp.answer_equal])
          have hc := lockstepOf_sound (versionTokens_numDigits a)
            (versionTokens_numDigits b) h
          cases o with
          | lt => exact Prod.Lex.toLex_lt_toLex.mpr (Or.inr ⟨he, hc⟩)
          | eq => exact congrArg toLex (Prod.ext he hc)
          | gt => exact Prod.Lex.toLex_lt_toLex.mpr (Or.inr ⟨he.symm, hc⟩)

theorem versionAnswer_of_less {a b : Bytes} (h : versionCompare a b = .less) :
    versionAnswer a b = some .lt := by rw [versionAnswer, h, Vercmp.answer_less]

theorem versionAnswer_of_equal {a b : Bytes} (h : versionCompare a b = .equal) :
    versionAnswer a b = some .eq := by rw [versionAnswer, h, Vercmp.answer_equal]

theorem versionAnswer_of_greater {a b : Bytes} (h : versionCompare a b = .greater) :
    versionAnswer a b = some .gt := by rw [versionAnswer, h, Vercmp.answer_greater]

/-- The comparator answers inside one total preorder of all byte strings:
LESS is strictly below, EQUAL is equivalent, GREATER is strictly above.
Hence a cyclic chain of LESS and EQUAL answers holds no LESS, however its
other pairs are answered, and EQUAL strings may stand for one another in any
comparison that is decided both ways. -/
theorem versionCompare_total_preorder :
    (∃ P : Preorder Bytes, (∀ a b, P.le a b ∨ P.le b a) ∧
      ∀ a b, (versionCompare a b = .less → P.lt a b) ∧
        (versionCompare a b = .equal → P.le a b ∧ P.le b a) ∧
        (versionCompare a b = .greater → P.lt b a)) ∧
    (∀ (n : ℕ) (s : ℕ → Bytes), s n = s 0 →
      (∀ i < n, versionCompare (s i) (s (i + 1)) = .less ∨
        versionCompare (s i) (s (i + 1)) = .equal) →
      ∀ i < n, versionCompare (s i) (s (i + 1)) ≠ .less) ∧
    (∀ a a' b b' : Bytes, versionCompare a a' = .equal →
      versionCompare b b' = .equal → versionCompare a b ≠ .undecidable →
      versionCompare a' b' ≠ .undecidable →
      versionCompare a b = versionCompare a' b') := by
  have hsound := versionAnswer_keySound
  refine ⟨⟨Preorder.lift versionKey,
    fun a b => le_total (versionKey a) (versionKey b), fun a b => ⟨?_, ?_, ?_⟩⟩, ?_, ?_⟩
  · exact fun h => hsound.lt (versionAnswer_of_less h)
  · intro h
    have hkey : versionKey a = versionKey b := hsound.eq (versionAnswer_of_equal h)
    exact ⟨show versionKey a ≤ versionKey b from hkey.le,
      show versionKey b ≤ versionKey a from hkey.ge⟩
  · exact fun h => hsound.gt (versionAnswer_of_greater h)
  · intro n s hclose hs i hi hlt
    refine hsound.no_strict_cycle hclose (fun j hj => ?_) hi (versionAnswer_of_less hlt)
    exact (hs j hj).imp versionAnswer_of_less versionAnswer_of_equal
  · intro a a' b b' ha hb hab hab'
    have hcongr : ∀ o o', versionAnswer a b = some o → versionAnswer a' b' = some o' →
        o = o' := fun _ _ =>
      hsound.congr (versionAnswer_of_equal ha) (versionAnswer_of_equal hb)
    simp only [versionAnswer] at hcongr
    cases h : versionCompare a b <;> cases h' : versionCompare a' b' <;>
      simp_all

end Cytadel.Match
