import Cytadel.Kb.KbValidate
import Cytadel.Lib.Utf8

/-!
# The validators accept their languages

The key scanner counts the bytes of the segment it is in and nothing else, so
its answer is that of a grammar: segments of the key alphabet, none empty,
joined by single slashes. The value scanner walks a table of lead bytes and
ranges, and accepts exactly the encodings of characters.
-/

namespace Cytadel.Kb

open Cytadel Lib

/-! ## Keys -/

/-- `[A-Za-z0-9_.-]`. -/
def KeyChar (c : UInt8) : Prop :=
  ∃ ch : Char, c.toNat = ch.toNat ∧
    (('A' ≤ ch ∧ ch ≤ 'Z') ∨ ('a' ≤ ch ∧ ch ≤ 'z') ∨ ('0' ≤ ch ∧ ch ≤ '9') ∨
      ch = '_' ∨ ch = '.' ∨ ch = '-')

/-- The segments of a key. -/
def IsSegment (s : Bytes) : Prop := s ≠ [] ∧ ∀ c ∈ s, KeyChar c

/-- A key: segments with single slashes between them. -/
structure KeyGrammar (key : Bytes) : Prop where
  segments : ∃ segs : List Bytes, segs ≠ [] ∧ (∀ s ∈ segs, IsSegment s) ∧
    key = [slash].intercalate segs
  length_le : key.length ≤ kbKeyMaxLen

theorem okChar_iff (c : UInt8) : okChar c = true ↔ KeyChar c := by
  have hle : ∀ a b : Char, a ≤ b ↔ a.toNat ≤ b.toNat := fun a b => Iff.rfl
  constructor
  · intro h
    have hlt := c.toNat_lt
    obtain ⟨ch, hch⟩ := Utf8.exists_char (v := c.toNat) (Or.inl (by omega))
    refine ⟨ch, hch.symm, ?_⟩
    simp only [okChar, Bool.or_eq_true, Bool.and_eq_true, decide_eq_true_eq, beq_iff_eq,
      UInt8.le_iff_toNat_le, ← UInt8.toNat_inj] at h
    simp only [hle, ← Char.toNat_inj, show ch.toNat = c.toNat from hch]
    simpa [or_assoc] using h
  · rintro ⟨ch, hc, h⟩
    simp only [hle, ← Char.toNat_inj, ← hc] at h
    simp only [okChar, Bool.or_eq_true, Bool.and_eq_true, decide_eq_true_eq, beq_iff_eq,
      UInt8.le_iff_toNat_le, ← UInt8.toNat_inj]
    simpa [or_assoc] using h

theorem slash_not_okChar : okChar slash = false := by decide

/-- A segment is counted byte by byte. -/
theorem scanSegments_append {s : Bytes} (hs : ∀ c ∈ s, okChar c = true) (rest : Bytes) (n : ℕ) :
    scanSegments (s ++ rest) n = scanSegments rest (n + s.length) := by
  induction s generalizing n with
  | nil => rfl
  | cons c s ih =>
      have hc := hs c List.mem_cons_self
      have hne : c ≠ slash := by
        rintro rfl
        rw [slash_not_okChar] at hc
        cases hc
      rw [List.cons_append, scanSegments, if_neg hne, if_pos hc,
        ih (fun x hx => hs x (List.mem_cons_of_mem _ hx)), List.length_cons]
      congr 1
      omega

/-- What the scanner accepts behind a segment that has begun. -/
theorem scanSegments_sound {key : Bytes} (seg : Bytes) {m : ℕ} (hseg : ∀ c ∈ seg, okChar c = true)
    (h : scanSegments key seg.length = some m) (hm : 0 < m) :
    ∃ segs : List Bytes, segs ≠ [] ∧ (∀ s ∈ segs, IsSegment s) ∧
      seg ++ key = [slash].intercalate segs := by
  induction key generalizing seg with
  | nil =>
      rw [scanSegments, Option.some.injEq] at h
      have hne : seg ≠ [] := by
        rintro rfl
        simp at h
        omega
      refine ⟨[seg], by simp, ?_, by simp [List.intercalate]⟩
      intro s hs
      rw [List.mem_singleton] at hs
      subst hs
      exact ⟨hne, fun c hc => (okChar_iff c).mp (hseg c hc)⟩
  | cons c key ih =>
      rw [scanSegments] at h
      split at h
      · next hslash =>
          subst hslash
          split at h
          · cases h
          · next hlen =>
              obtain ⟨segs, hne, hall, hkey⟩ := ih [] (by simp) h
              rw [List.nil_append] at hkey
              refine ⟨seg :: segs, by simp, ?_, ?_⟩
              · intro s hs
                rcases List.mem_cons.mp hs with rfl | hs
                · refine ⟨?_, fun c hc => (okChar_iff c).mp (hseg c hc)⟩
                  intro hnil
                  exact hlen (by rw [hnil]; rfl)
                · exact hall s hs
              · obtain ⟨s, segs, rfl⟩ := List.exists_cons_of_ne_nil hne
                rw [hkey]
                simp [List.intercalate]
      · split at h
        · next hok =>
            have hlen : (seg ++ [c]).length = seg.length + 1 := by simp
            rw [← hlen] at h
            obtain ⟨segs, hne, hall, hkey⟩ := ih (seg ++ [c])
              (by simpa [or_imp, forall_and, hok] using hseg) h
            exact ⟨segs, hne, hall, by simpa using hkey⟩
        · cases h

/-- The scanner runs through a key of the grammar. -/
theorem scanSegments_complete {segs : List Bytes} (hne : segs ≠ [])
    (h : ∀ s ∈ segs, IsSegment s) :
    ∃ m, scanSegments ([slash].intercalate segs) 0 = some m ∧ 0 < m := by
  induction segs with
  | nil => exact absurd rfl hne
  | cons s segs ih =>
      obtain ⟨hs, hchars⟩ := h s List.mem_cons_self
      have hok : ∀ c ∈ s, okChar c = true := fun c hc => (okChar_iff c).mpr (hchars c hc)
      have hpos : 0 < s.length := List.length_pos_iff.mpr hs
      cases segs with
      | nil =>
          refine ⟨s.length, ?_, hpos⟩
          have := scanSegments_append hok [] 0
          simpa [List.intercalate, scanSegments] using this
      | cons s' segs =>
          obtain ⟨m, hm, hmpos⟩ := ih (by simp) fun x hx => h x (List.mem_cons_of_mem _ hx)
          refine ⟨m, ?_, hmpos⟩
          have hcat : [slash].intercalate (s :: s' :: segs) =
              s ++ slash :: [slash].intercalate (s' :: segs) := by simp [List.intercalate]
          rw [hcat, scanSegments_append hok, scanSegments, if_pos rfl, if_neg (by omega), hm]

theorem scanSegments_trailing (key : Bytes) (n m : ℕ)
    (h : scanSegments (key ++ [slash]) n = some m) : m = 0 := by
  induction key generalizing n with
  | nil =>
      rw [List.nil_append, scanSegments, if_pos rfl] at h
      split at h
      · cases h
      · exact (Option.some.inj h).symm
  | cons c key ih =>
      rw [List.cons_append, scanSegments] at h
      split at h
      · split at h
        · cases h
        · exact ih _ h
      · split at h
        · exact ih _ h
        · cases h

theorem validateKey_iff (key : Bytes) : validateKey (some key) = true ↔ KeyGrammar (cstr key) := by
  rw [validateKey]
  generalize cstr key = key
  constructor
  · intro h
    split at h
    · cases h
    · next hlen =>
        split at h
        · cases h
        · obtain ⟨m, hm, hpos⟩ : ∃ m, scanSegments key 0 = some m ∧ (m > 0 : Bool) = true := by
            cases hm : scanSegments key 0 with
            | none =>
                rw [hm] at h
                cases h
            | some m =>
                rw [hm] at h
                exact ⟨m, rfl, h⟩
          have hsound := scanSegments_sound [] (by simp) hm (by simpa using hpos)
          exact ⟨hsound, by omega⟩
  · rintro ⟨⟨segs, hne, hall, rfl⟩, hlen⟩
    obtain ⟨m, hm, hpos⟩ := scanSegments_complete hne hall
    generalize [slash].intercalate segs = key at hm hlen
    have hempty : key ≠ [] := by
      rintro rfl
      rw [scanSegments, Option.some.injEq] at hm
      omega
    have hhead : key.head? ≠ some slash := by
      intro hh
      obtain ⟨rest, rfl⟩ := List.head?_eq_some_iff.mp hh
      rw [scanSegments, if_pos rfl, if_pos rfl] at hm
      cases hm
    have hlast : key.getLast? ≠ some slash := by
      intro hl
      obtain ⟨front, rfl⟩ := List.getLast?_eq_some_iff.mp hl
      have := scanSegments_trailing front 0 m hm
      omega
    have hlen0 : key.length ≠ 0 := by simpa using hempty
    rw [if_neg (by omega), if_neg (by simp [hhead, hlast]), hm]
    simpa using hpos

/-! ## Values -/

theorem validateNoEmbeddedNul_iff (s : Bytes) : validateNoEmbeddedNul s = true ↔ 0 ∉ s := by
  rw [validateNoEmbeddedNul, List.all_eq_true]
  constructor
  · intro h hz
    simpa using h 0 hz
  · intro h c hc
    rw [bne_iff_ne]
    rintro rfl
    exact h hc

/-- The rows of the table, by how many bytes follow. -/
theorem lead_cases {b0 : UInt8} {l : Lead} (h : lead b0 = some l) :
    (l.extra = 1 ∧ (0xC2 ≤ b0.toNat ∧ b0.toNat ≤ 0xDF) ∧
      l.lo.toNat = 0x80 ∧ l.hi.toNat = 0xBF) ∨
    (l.extra = 2 ∧ (0xE0 ≤ b0.toNat ∧ b0.toNat ≤ 0xEF) ∧
      l.lo.toNat = (if b0.toNat = 0xE0 then 0xA0 else 0x80) ∧
      l.hi.toNat = (if b0.toNat = 0xED then 0x9F else 0xBF)) ∨
    (l.extra = 3 ∧ (0xF0 ≤ b0.toNat ∧ b0.toNat ≤ 0xF4) ∧
      l.lo.toNat = (if b0.toNat = 0xF0 then 0x90 else 0x80) ∧
      l.hi.toNat = (if b0.toNat = 0xF4 then 0x8F else 0xBF)) := by
  simp only [lead, UInt8.le_iff_toNat_le, ← UInt8.toNat_inj, UInt8.reduceToNat] at h
  split_ifs at h <;> cases h <;> simp only [UInt8.reduceToNat, true_and, and_true] <;>
    split_ifs <;> omega

theorem lead_of_range {b : UInt8} (h : 0xC2 ≤ b.toNat) (h' : b.toNat ≤ 0xF4) :
    ∃ l, lead b = some l := by
  simp only [lead, UInt8.le_iff_toNat_le, ← UInt8.toNat_inj, UInt8.reduceToNat]
  split_ifs
  all_goals first | exact ⟨_, rfl⟩ | omega

theorem Lead.follows_cons {l : Lead} {c1 : UInt8} {cs : Bytes} :
    l.follows (c1 :: cs) = true ↔
      l.lo.toNat ≤ c1.toNat ∧ c1.toNat ≤ l.hi.toNat ∧ ∀ ck ∈ cs, Utf8.IsCont ck := by
  simp only [follows, Bool.and_eq_true, decide_eq_true_eq, List.all_eq_true,
    UInt8.le_iff_toNat_le, UInt8.reduceToNat, and_assoc, Utf8.IsCont]

/-- A lead byte and what it lets follow is in the table of encodings. -/
theorem Lead.seq {b0 : UInt8} {l : Lead} {cs : Bytes} (hl : lead b0 = some l)
    (hlen : cs.length = l.extra) (hf : l.follows cs = true) : Utf8.Seq (b0 :: cs) := by
  rcases lead_cases hl with ⟨he, hb, hlo, hhi⟩ | ⟨he, hb, hlo, hhi⟩ | ⟨he, hb, hlo, hhi⟩
  · rw [he] at hlen
    obtain ⟨c, rfl⟩ := List.length_eq_one_iff.mp hlen
    obtain ⟨h1, h2, -⟩ := follows_cons.mp hf
    exact .two hb.1 hb.2 ⟨by omega, by omega⟩
  · rw [he] at hlen
    obtain ⟨c, d, rfl⟩ := List.length_eq_two.mp hlen
    obtain ⟨h1, h2, hrest⟩ := follows_cons.mp hf
    refine .three hb.1 hb.2 ?_ (hrest d (by simp)) ?_ ?_
    · constructor <;> split_ifs at hlo hhi <;> omega
    · intro hE0
      rw [if_pos hE0] at hlo
      omega
    · intro hED
      rw [if_pos hED] at hhi
      omega
  · rw [he] at hlen
    obtain ⟨c, d, e, rfl⟩ := List.length_eq_three.mp hlen
    obtain ⟨h1, h2, hrest⟩ := follows_cons.mp hf
    refine .four hb.1 hb.2 ?_ (hrest d (by simp)) (hrest e (by simp)) ?_ ?_
    · constructor <;> split_ifs at hlo hhi <;> omega
    · intro hF0
      rw [if_pos hF0] at hlo
      omega
    · intro hF4
      rw [if_pos hF4] at hhi
      omega

/-- An encoding is one ASCII byte, or a lead byte and what it lets follow. -/
theorem seq_lead {q : Bytes} (h : Utf8.Seq q) :
    (∃ b, q = [b] ∧ b.toNat ≤ 0x7F) ∨
    (∃ b cs l, q = b :: cs ∧ 0x80 ≤ b.toNat ∧ lead b = some l ∧ cs.length = l.extra ∧
      l.follows cs = true) := by
  cases h with
  | @one b hb => exact Or.inl ⟨b, rfl, hb⟩
  | @two b c hb hb' hc =>
      obtain ⟨l, hl⟩ := lead_of_range (b := b) hb (by omega)
      rcases lead_cases hl with ⟨he, -, hlo, hhi⟩ | ⟨-, hr, -⟩ | ⟨-, hr, -⟩
      · refine Or.inr ⟨b, [c], l, rfl, by omega, hl, he.symm, Lead.follows_cons.mpr ?_⟩
        exact ⟨by rw [hlo]; exact hc.1, by rw [hhi]; exact hc.2, by simp⟩
      · omega
      · omega
  | @three b c d hb hb' hc hd hlow hsur =>
      obtain ⟨l, hl⟩ := lead_of_range (b := b) (by omega) (by omega)
      rcases lead_cases hl with ⟨-, hr, -⟩ | ⟨he, -, hlo, hhi⟩ | ⟨-, hr, -⟩
      · omega
      · refine Or.inr ⟨b, [c, d], l, rfl, by omega, hl, he.symm, Lead.follows_cons.mpr ⟨?_, ?_, ?_⟩⟩
        · rw [hlo]
          split_ifs with h
          · exact hlow h
          · exact hc.1
        · rw [hhi]
          split_ifs with h
          · exact hsur h
          · exact hc.2
        · simpa using hd
      · omega
  | @four b c d e hb hb' hc hd he' hlow hhigh =>
      obtain ⟨l, hl⟩ := lead_of_range (b := b) (by omega) hb'
      rcases lead_cases hl with ⟨-, hr, -⟩ | ⟨-, hr, -⟩ | ⟨he, -, hlo, hhi⟩
      · omega
      · omega
      · refine Or.inr ⟨b, [c, d, e], l, rfl, by omega, hl, he.symm,
          Lead.follows_cons.mpr ⟨?_, ?_, ?_⟩⟩
        · rw [hlo]
          split_ifs with h
          · exact hlow h
          · exact hc.1
        · rw [hhi]
          split_ifs with h
          · exact hhigh h
          · exact hc.2
        · simpa using ⟨hd, he'⟩

theorem utf8Loop_sound (fuel : ℕ) (s : Bytes) (h : utf8Loop fuel s = true) : Utf8 s := by
  induction fuel generalizing s with
  | zero =>
      cases s with
      | nil => exact Utf8.nil
      | cons b0 rest => cases h
  | succ fuel ih =>
      cases s with
      | nil => exact Utf8.nil
      | cons b0 rest =>
          rw [utf8Loop] at h
          split at h
          · next hb =>
              have hb' : b0.toNat ≤ 0x7F := by
                rw [UInt8.lt_iff_toNat_lt] at hb
                exact Nat.le_of_lt_succ hb
              exact (Utf8.Seq.one hb').utf8.append (ih rest h)
          · split at h
            · cases h
            · next l hl =>
                split at h
                · cases h
                · next hlen =>
                    split at h
                    · next hf =>
                        have htake : (rest.take l.extra).length = l.extra := by
                          rw [List.length_take]
                          omega
                        have hseq := (Lead.seq hl htake hf).utf8.append (ih _ h)
                        rwa [List.cons_append, List.take_append_drop] at hseq
                    · cases h

theorem utf8Loop_complete (fuel : ℕ) (s : Bytes) (hs : Utf8 s) (hlen : s.length ≤ fuel) :
    utf8Loop fuel s = true := by
  induction fuel generalizing s with
  | zero =>
      rw [List.length_eq_zero_iff.mp (Nat.le_zero.mp hlen)]
      rfl
  | succ fuel ih =>
      rcases hs.cases_seq with rfl | ⟨q, r, hq, hr, rfl⟩
      · rfl
      · rw [List.length_append] at hlen
        rcases seq_lead hq with ⟨b, rfl, hb⟩ | ⟨b, cs, l, rfl, hb, hl, hcs, hf⟩
        · have hlt : b < 0x80 := by
            rw [UInt8.lt_iff_toNat_lt]
            exact Nat.lt_succ_of_le hb
          rw [List.singleton_append, utf8Loop, if_pos hlt]
          exact ih r hr (by simpa [Nat.add_comm] using hlen)
        · have hge : ¬ b < 0x80 := by
            rw [UInt8.lt_iff_toNat_lt]
            exact Nat.not_lt.mpr hb
          rw [List.length_cons] at hlen
          rw [List.cons_append, utf8Loop, if_neg hge, hl]
          simp only
          rw [if_neg (by rw [List.length_append]; omega), List.take_left' hcs, if_pos hf,
            List.drop_left' hcs]
          exact ih r hr (by omega)

theorem validateUtf8_iff (s : Bytes) : validateUtf8 s = true ↔ Utf8 s :=
  ⟨utf8Loop_sound _ s, fun h => utf8Loop_complete _ s h (Nat.le_refl _)⟩

/-! ## The reads -/

theorem drop_cons {buf : Bytes} {i : ℕ} (h : i < buf.length) :
    ∃ b, buf[i]? = some b ∧ buf.drop i = b :: buf.drop (i + 1) :=
  ⟨buf[i], List.getElem?_eq_getElem h, List.drop_eq_getElem_cons h⟩

theorem between_eq (lo hi c : UInt8) :
    (decide (lo ≤ c) && decide (c ≤ hi)) = !decide (c < lo ∨ c > hi) := by
  rw [Bool.eq_iff_iff, Bool.and_eq_true, Bool.not_eq_true', decide_eq_false_iff_not, not_or,
    decide_eq_true_eq, decide_eq_true_eq, UInt8.not_lt, gt_iff_lt, UInt8.not_lt]

theorem continuationReads_eq (buf : Bytes) (n k : ℕ) (h : k + n ≤ buf.length) :
    continuationReads buf n k =
      some (((buf.drop k).take n).all fun ck => 0x80 ≤ ck && ck ≤ 0xBF) := by
  induction n generalizing k with
  | zero => rfl
  | succ n ih =>
      obtain ⟨ck, hread, hdrop⟩ := drop_cons (show k < buf.length by omega)
      rw [continuationReads, hread, hdrop, List.take_succ_cons, List.all_cons, between_eq]
      by_cases hout : ck < 0x80 ∨ ck > 0xBF
      · rw [decide_eq_true hout]
        simp [hout]
      · rw [decide_eq_false hout]
        simpa [hout] using ih (k + 1) (by omega)

/-- Every read is inside of the buffer, and the loop over the indices is the
one over what is left. -/
theorem utf8Reads_eq (buf : Bytes) (fuel i : ℕ) :
    utf8Reads buf fuel i = some (utf8Loop fuel (buf.drop i)) := by
  induction fuel generalizing i with
  | zero =>
      rw [utf8Reads]
      by_cases h : i < buf.length
      · obtain ⟨b, -, hdrop⟩ := drop_cons h
        rw [hdrop, utf8Loop, decide_eq_false (by omega)]
      · rw [List.drop_eq_nil_of_le (by omega), utf8Loop, decide_eq_true (by omega)]
  | succ fuel ih =>
      rw [utf8Reads]
      by_cases h : i < buf.length
      · obtain ⟨b0, hread, hdrop⟩ := drop_cons h
        rw [if_pos h, hread, hdrop, utf8Loop]
        dsimp only
        split
        · exact ih (i + 1)
        · cases hl : lead b0 with
          | none => rfl
          | some l =>
              dsimp only
              have hextra : 1 ≤ l.extra := by
                rcases lead_cases hl with ⟨he, -⟩ | ⟨he, -⟩ | ⟨he, -⟩ <;> omega
              have hleft : (buf.drop (i + 1)).length < l.extra ↔ i + l.extra ≥ buf.length := by
                rw [List.length_drop]
                omega
              by_cases hlong : i + l.extra ≥ buf.length
              · rw [if_pos hlong, if_pos (hleft.mpr hlong)]
              rw [if_neg hlong, if_neg (mt hleft.mp hlong)]
              obtain ⟨c1, hread1, hdrop1⟩ := drop_cons (show i + 1 < buf.length by omega)
              have htake : (buf.drop (i + 1)).take l.extra =
                  c1 :: (buf.drop (i + 1 + 1)).take (l.extra - 1) := by
                obtain ⟨n, hn⟩ : ∃ n, l.extra = n + 1 := ⟨l.extra - 1, by omega⟩
                rw [hdrop1, hn, List.take_succ_cons, Nat.add_sub_cancel]
              rw [hread1, htake, Lead.follows, continuationReads_eq buf _ _ (by omega),
                List.drop_drop, between_eq, show i + 1 + l.extra = i + (l.extra + 1) by omega]
              dsimp only
              by_cases hout : c1 < l.lo ∨ c1 > l.hi
              · rw [if_pos hout, decide_eq_true hout]
                rfl
              · rw [if_neg hout, decide_eq_false hout, Bool.not_false, Bool.true_and]
                cases ((buf.drop (i + 2)).take (l.extra - 1)).all fun ck =>
                  0x80 ≤ ck && ck ≤ 0xBF with
                | true => exact ih (i + (l.extra + 1))
                | false => rfl
      · rw [if_neg h, List.drop_eq_nil_of_le (by omega)]
        rfl

/-- Every read of the validator is inside of the buffer, whatever the buffer
holds, and it accepts the texts that are laid end to end from the encodings of
Unicode scalar values, which are the rows of the table. -/
theorem validateUtf8Reads_spec (buf : Bytes) :
    ∃ accepted, validateUtf8Reads buf = some accepted ∧
      (accepted = true ↔ ∃ cs : List Char, buf = cs.flatMap String.utf8EncodeChar) ∧
      (accepted = true ↔ ∃ qs : List Bytes, (∀ q ∈ qs, Utf8.Seq q) ∧ buf = qs.flatten) :=
  ⟨validateUtf8 buf, utf8Reads_eq buf buf.length 0, validateUtf8_iff buf,
    (validateUtf8_iff buf).trans (Utf8.iff_flatten buf)⟩

end Cytadel.Kb
