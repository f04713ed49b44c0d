import Cytadel.Lib.AllBytes
import Cytadel.Net.PortRange

/-!
# The grammar of the port specification, and what it selects

The grammar is stated on its own: a number is 1 to 6 digits that denote a port,
an item is a number or two with a dash between them, and a specification is a
list of items with a comma between any two. The tokenizer accepts exactly
these, and what it collects is the union of the items.
-/

namespace Cytadel.Net

open Cytadel Lib

/-- Decimal digits, not too many of them, with their value. -/
structure DigitRun (s : Bytes) (v : ℕ) : Prop where
  digits : ∀ c ∈ s, isDigitByte c = true
  length_pos : 0 < s.length
  length_le : s.length ≤ 6
  value : digitsValue s = v

/-- A digit run that denotes a port. -/
structure PortNumber (s : Bytes) (v : ℕ) : Prop extends DigitRun s v where
  min_le : portMin ≤ v
  le_max : v ≤ portMax

/-- `N` or `A-B`, with the ports that it selects. -/
inductive PortItem : Bytes → ℕ × ℕ → Prop
  | single {s : Bytes} {v : ℕ} : PortNumber s v → PortItem s (v, v)
  | range {s t : Bytes} {a b : ℕ} : PortNumber s a → PortNumber t b → a ≤ b →
      PortItem (s ++ 0x2D :: t) (a, b)

/-- The items of a specification, joined by commas, within both limits. -/
structure PortSpec (spec : Bytes) (items : List Bytes) (spans : List (ℕ × ℕ)) : Prop where
  nonempty : items ≠ []
  joined : spec = [0x2C].intercalate items
  short : spec.length < portSpecMaxLen
  few : items.length ≤ portSpecMaxTokens
  unspaced : ∀ c ∈ spec, isSpace c = false
  parsed : List.Forall₂ PortItem items spans

/-! ## Numbers -/

theorem isDigitByte_iff (c : UInt8) : isDigitByte c = true ↔ ¬ (c < 0x30 ∨ 0x39 < c) := by
  rw [isDigitByte, Bool.and_eq_true, decide_eq_true_iff, decide_eq_true_iff, not_or, UInt8.not_lt,
    UInt8.not_lt]

theorem digit_value_lt {c : UInt8} (h : isDigitByte c = true) : c.toNat - 0x30 < 10 := by
  rw [isDigitByte_iff, not_or, UInt8.not_lt, UInt8.not_lt] at h
  have hle : c.toNat ≤ 0x39 := UInt8.le_iff_toNat_le.mp h.2
  omega

/-- Six digits never reach the clamp. -/
theorem parseUintLoop_eq_some {s : Bytes} {v w k : ℕ} (hv : v < 10 ^ k) (hk : k + s.length ≤ 6) :
    parseUintLoop s v = some w ↔
      (∀ c ∈ s, isDigitByte c = true) ∧
        s.foldl (fun v c => 10 * v + (c.toNat - 0x30)) v = w := by
  induction s generalizing v k with
  | nil => simp [parseUintLoop]
  | cons c cs ih =>
      simp only [parseUintLoop, Bool.or_eq_true, decide_eq_true_iff]
      split
      · next hbad =>
          refine ⟨fun h => (nomatch h), fun h => ?_⟩
          exact absurd hbad ((isDigitByte_iff c).mp (h.1 c List.mem_cons_self))
      · next hdigit =>
          have hc : isDigitByte c = true := (isDigitByte_iff c).mpr hdigit
          have hlt := digit_value_lt hc
          rw [List.length_cons] at hk
          have hnext : v * 10 + (c.toNat - 0x30) < 10 ^ (k + 1) := by
            rw [Nat.pow_succ]
            omega
          have hsix : 10 ^ (k + 1) ≤ 10 ^ 6 := Nat.pow_le_pow_right (by decide) (by omega)
          have hclamp : ¬ v * 10 + (c.toNat - 0x30) > 1000000 := by omega
          simp only [if_neg hclamp]
          rw [ih hnext (by omega), List.foldl_cons, Nat.mul_comm v 10, List.forall_mem_cons]
          simp only [hc, true_and]

theorem portParseUint_eq_some {s : Bytes} {v : ℕ} : portParseUint s = some v ↔ DigitRun s v := by
  simp only [portParseUint, Bool.or_eq_true, beq_iff_eq, decide_eq_true_iff]
  split
  · next hlen =>
      refine ⟨fun h => (nomatch h), fun h => ?_⟩
      have hpos := h.length_pos
      have hle := h.length_le
      omega
  · next hlen =>
      rw [parseUintLoop_eq_some (k := 0) (by decide) (by omega)]
      exact ⟨fun h => ⟨h.1, by omega, by omega, h.2⟩, fun h => ⟨h.digits, h.value⟩⟩

/-! ## Items -/

theorem DigitRun.not_mem {s : Bytes} {v : ℕ} {c : UInt8} (h : DigitRun s v)
    (hc : isDigitByte c = false) : c ∉ s := by
  intro hmem
  have hdigit := h.digits c hmem
  rw [hc] at hdigit
  cases hdigit

/-- The two sides of the only dash. -/
theorem take_drop_dash {s t : Bytes} (hs : 0x2D ∉ s) :
    (s ++ 0x2D :: t).take ((s ++ 0x2D :: t).idxOf 0x2D) = s ∧
      (s ++ 0x2D :: t).drop ((s ++ 0x2D :: t).idxOf 0x2D + 1) = t := by
  have hidx : (s ++ 0x2D :: t).idxOf 0x2D = s.length := by
    rw [List.idxOf_append_of_notMem hs, List.idxOf_cons_self, Nat.add_zero]
  rw [hidx]
  refine ⟨List.take_left' rfl, ?_⟩
  rw [← List.drop_drop, List.drop_left' rfl]
  rfl

theorem portTokenValues_ok_iff {errLen : ℕ} {tok : Bytes} {a b : ℕ} :
    portTokenValues errLen tok = .ok (a, b) ↔
      (DigitRun tok a ∧ a = b) ∨
        ∃ s t, tok = s ++ 0x2D :: t ∧ DigitRun s a ∧ DigitRun t b := by
  constructor
  · intro h
    simp only [portTokenValues] at h
    split at h
    · cases h
    · next hmany =>
        split at h
        · next hone =>
            have hmem : (0x2D : UInt8) ∈ tok := by
              rw [← List.count_pos_iff, beq_iff_eq.mp hone]
              decide
            obtain ⟨s, t, rfl, hs⟩ := List.eq_append_cons_of_mem hmem
            rw [(take_drop_dash hs).1, (take_drop_dash hs).2] at h
            split at h
            · cases h
            · split at h
              · next ha hb =>
                  injection h with h
                  injection h with hfst hsnd
                  subst hfst hsnd
                  exact .inr ⟨s, t, rfl, portParseUint_eq_some.mp ha, portParseUint_eq_some.mp hb⟩
              · cases h
        · split at h
          · next hv =>
              injection h with h
              injection h with hfst hsnd
              subst hfst hsnd
              exact .inl ⟨portParseUint_eq_some.mp hv, rfl⟩
          · cases h
  · rintro (⟨hrun, rfl⟩ | ⟨s, t, rfl, hs, ht⟩)
    · have hnone : tok.count 0x2D = 0 := List.count_eq_zero.mpr (hrun.not_mem (by decide))
      simp [portTokenValues, hnone, portParseUint_eq_some.mpr hrun]
    · have hleft := hs.not_mem (c := 0x2D) (by decide)
      have hright := ht.not_mem (c := 0x2D) (by decide)
      have hone : (s ++ 0x2D :: t).count 0x2D = 1 := by
        rw [List.count_append, List.count_cons_self, List.count_eq_zero.mpr hleft,
          List.count_eq_zero.mpr hright]
      have hspos := hs.length_pos
      have htpos := ht.length_pos
      simp only [portTokenValues, hone, take_drop_dash hleft, portParseUint_eq_some.mpr hs,
        portParseUint_eq_some.mpr ht]
      rw [if_neg (by decide), if_pos (by decide), if_neg]
      simp only [Bool.or_eq_true, beq_iff_eq]
      omega

/-- Two numbers and a dash never reach the limit on an item. -/
theorem PortItem.length_le {tok : Bytes} {p : ℕ × ℕ} (h : PortItem tok p) :
    0 < tok.length ∧ tok.length ≤ portTokenMaxLen := by
  have hmax : portTokenMaxLen = 16 := rfl
  cases h with
  | single h =>
      have hpos := h.length_pos
      have hle := h.length_le
      omega
  | range hs ht _ =>
      have hs := hs.length_le
      have ht := ht.length_le
      rw [List.length_append, List.length_cons]
      omega

theorem PortItem.not_mem {tok : Bytes} {p : ℕ × ℕ} {c : UInt8} (h : PortItem tok p)
    (hdigit : isDigitByte c = false) (hdash : c ≠ 0x2D) : c ∉ tok := by
  cases h with
  | single h => exact h.not_mem hdigit
  | range hs ht _ =>
      rw [List.mem_append, List.mem_cons, not_or, not_or]
      exact ⟨hs.not_mem hdigit, hdash, ht.not_mem hdigit⟩

def PortSpan.ends (span : PortSpan) : ℕ × ℕ := (span.first, span.last)

theorem portToken_ok {errLen count : ℕ} {spec tok : Bytes} {span : PortSpan}
    (h : portToken errLen spec count tok = .ok span) :
    count ≤ portSpecMaxTokens ∧ PortItem tok span.ends := by
  simp only [portToken] at h
  split at h
  · cases h
  · next hcount =>
      split at h
      · cases h
      · split at h
        · cases h
        · next a b hvalues =>
            split at h
            · cases h
            · next hbound =>
                split at h
                · cases h
                · next horder =>
                    cases h
                    refine ⟨by omega, ?_⟩
                    show PortItem tok (a, b)
                    rcases portTokenValues_ok_iff.mp hvalues with ⟨hrun, rfl⟩ | ⟨s, t, rfl, hs, ht⟩
                    · exact .single ⟨hrun, by omega, by omega⟩
                    · exact .range ⟨hs, by omega, by omega⟩ ⟨ht, by omega, by omega⟩ (by omega)

theorem PortItem.bounds {tok : Bytes} {p : ℕ × ℕ} (h : PortItem tok p) :
    portMin ≤ p.1 ∧ p.1 ≤ p.2 ∧ p.2 ≤ portMax := by
  cases h with
  | single h => exact ⟨h.min_le, le_refl _, h.le_max⟩
  | range hs ht hle => exact ⟨hs.min_le, hle, ht.le_max⟩

theorem PortItem.values {errLen : ℕ} {tok : Bytes} {p : ℕ × ℕ} (h : PortItem tok p) :
    portTokenValues errLen tok = .ok (p.1, p.2) := by
  rw [portTokenValues_ok_iff]
  cases h with
  | single h => exact .inl ⟨h.toDigitRun, rfl⟩
  | range hs ht _ => exact .inr ⟨_, _, rfl, hs.toDigitRun, ht.toDigitRun⟩

theorem PortItem.accepted {tok : Bytes} {p : ℕ × ℕ} (h : PortItem tok p) (errLen : ℕ)
    (spec : Bytes) {count : ℕ} (hcount : count ≤ portSpecMaxTokens) :
    ∃ span, portToken errLen spec count tok = .ok span ∧ span.ends = p := by
  obtain ⟨hmin, hle, hmax⟩ := h.bounds
  refine ⟨⟨p.1, p.2, hmin, hle, hmax⟩, ?_, rfl⟩
  have hlen := h.length_le
  rw [portToken, if_neg (by omega), if_neg, h.values]
  · show dite _ _ _ = _
    rw [dif_neg (by omega), dif_neg (by omega)]
  · simp only [Bool.or_eq_true, beq_iff_eq, decide_eq_true_iff]
    omega

theorem PortSpan.ends_injective : Function.Injective PortSpan.ends := by
  rintro ⟨a, b, _, _, _⟩ ⟨c, d, _, _, _⟩ h
  cases h
  rfl

/-- An item selects one span only. -/
theorem portToken_unique {errLen count : ℕ} {spec tok : Bytes} {span other : PortSpan}
    (h : portToken errLen spec count tok = .ok span) (hitem : PortItem tok other.ends) :
    other = span := by
  obtain ⟨again, hagain, hends⟩ := hitem.accepted errLen spec (portToken_ok h).1
  rw [h] at hagain
  cases hagain
  exact (PortSpan.ends_injective hends).symm

/-! ## The loop over the items -/

/-- What the loop does with the ports of one item. -/
def addSpan (bitmap : Lib.Bitmap portBitmapBytes) (span : PortSpan) :
    Lib.Bitmap portBitmapBytes :=
  (List.range' span.first (span.last + 1 - span.first)).foldl portBitmapSet bitmap

theorem comma_not_mem_takeWhile (rest : Bytes) :
    (0x2C : UInt8) ∉ rest.takeWhile (· != 0x2C) := by
  intro hmem
  have hne := List.mem_takeWhile_imp hmem
  simp at hne

/-- The scan stops at the end of the text: this was the last item. -/
theorem splitOn_last {rest : Bytes} (h : rest.dropWhile (· != 0x2C) = []) :
    rest.splitOn 0x2C = [rest.takeWhile (· != 0x2C)] := by
  have hjoin := List.takeWhile_append_dropWhile (p := (· != 0x2C)) (l := rest)
  have hfree := comma_not_mem_takeWhile rest
  rw [h, List.append_nil] at hjoin
  rw [hjoin] at hfree ⊢
  exact List.splitOn_eq_singleton hfree

/-- The scan stops at a comma: there are more items behind it. -/
theorem splitOn_next {c : UInt8} {rest tail : Bytes} (h : rest.dropWhile (· != 0x2C) = c :: tail) :
    rest.splitOn 0x2C = rest.takeWhile (· != 0x2C) :: tail.splitOn 0x2C := by
  have hc : c = 0x2C := by
    have hhead := List.head_dropWhile_not (p := (· != 0x2C)) (l := rest) (by rw [h]; simp)
    simpa [h] using hhead
  have hjoin := List.takeWhile_append_dropWhile (p := (· != 0x2C)) (l := rest)
  rw [h, hc] at hjoin
  conv_lhs => rw [← hjoin]
  exact List.splitOn_append_cons_self_of_not_mem (comma_not_mem_takeWhile rest) tail

theorem splitOn_head (rest : Bytes) :
    ∃ toks, rest.splitOn 0x2C = rest.takeWhile (· != 0x2C) :: toks := by
  cases h : rest.dropWhile (· != 0x2C) with
  | nil => exact ⟨[], splitOn_last h⟩
  | cons c tail => exact ⟨_, splitOn_next h⟩

/-- The loop accepts exactly a list of items within the limit, and adds them
one after the other. -/
theorem portTokenLoop_ok_iff {errLen : ℕ} {spec rest : Bytes} {count : ℕ}
    {bitmap done : Lib.Bitmap portBitmapBytes} :
    portTokenLoop errLen spec rest count bitmap = .ok done ↔
      ∃ spans : List PortSpan,
        List.Forall₂ PortItem (rest.splitOn 0x2C) (spans.map PortSpan.ends) ∧
          count + (rest.splitOn 0x2C).length ≤ portSpecMaxTokens ∧
            done = spans.foldl addSpan bitmap := by
  induction rest, count, bitmap using portTokenLoop.induct errLen spec with
  | case1 rest count bitmap e herr =>
      rw [portTokenLoop, herr]
      refine ⟨fun h => (nomatch h), fun ⟨spans, hparsed, hcount, _⟩ => ?_⟩
      obtain ⟨toks, htoks⟩ := splitOn_head rest
      rw [htoks] at hparsed hcount
      rw [List.length_cons] at hcount
      obtain ⟨p, ps, hitem, -, -⟩ := List.forall₂_cons_left_iff.mp hparsed
      have hroom : count + 1 ≤ portSpecMaxTokens := by omega
      obtain ⟨span, hspan, -⟩ := hitem.accepted errLen spec hroom
      rw [herr] at hspan
      cases hspan
  | case2 rest count bitmap span hspan hlast =>
      obtain ⟨hcount, hitem⟩ := portToken_ok hspan
      rw [portTokenLoop, hspan, splitOn_last hlast]
      simp only
      split
      · constructor
        · rintro ⟨⟩
          exact ⟨[span], .cons hitem .nil, hcount, rfl⟩
        · rintro ⟨spans, hparsed, -, rfl⟩
          obtain ⟨p, ps, hone, hnone, hspans⟩ := List.forall₂_cons_left_iff.mp hparsed
          cases List.forall₂_nil_left_iff.mp hnone
          obtain ⟨other, rfl, rfl⟩ := List.map_eq_singleton_iff.mp hspans
          rw [portToken_unique hspan hone]
          rfl
      · next hnext => rw [hlast] at hnext; cases hnext
  | case3 rest count bitmap span hspan added c tail hnext ih =>
      obtain ⟨hcount, hitem⟩ := portToken_ok hspan
      rw [portTokenLoop, hspan, splitOn_next hnext, List.length_cons]
      simp only
      split
      · next hlast => rw [hnext] at hlast; cases hlast
      · next c' tail' hnext' =>
        rw [hnext, List.cons.injEq] at hnext'
        obtain ⟨rfl, rfl⟩ := hnext'
        show portTokenLoop errLen spec tail (count + 1) added = .ok done ↔ _
        rw [ih]
        constructor
        · rintro ⟨spans, hparsed, hmore, rfl⟩
          exact ⟨span :: spans, .cons hitem hparsed, by omega, rfl⟩
        · rintro ⟨spans, hparsed, hmore, rfl⟩
          obtain ⟨p, ps, hone, hrest, hspans⟩ := List.forall₂_cons_left_iff.mp hparsed
          obtain ⟨other, others, rfl, rfl, rfl⟩ := List.map_eq_cons_iff.mp hspans
          refine ⟨others, hrest, by omega, ?_⟩
          rw [portToken_unique hspan hone]
          rfl

/-! ## The bitmap -/

theorem test_addSpan (bitmap : Lib.Bitmap portBitmapBytes) (span : PortSpan) (k : ℕ) :
    (addSpan bitmap span).test k = true ↔
      (span.first ≤ k ∧ k ≤ span.last) ∨ bitmap.test k = true := by
  have hsize : 8 * portBitmapBytes = portMax + 1 := rfl
  have hmax := span.le_max
  have hle := span.first_le
  have hsmall : ∀ j ∈ List.range' span.first (span.last + 1 - span.first),
      j < 8 * portBitmapBytes := by
    intro j hj
    rw [List.mem_range'_1] at hj
    omega
  have hset := Bitmap.test_setAll (b := bitmap) hsmall k
  rw [List.mem_range'_1] at hset
  refine hset.trans (or_congr_left ?_)
  omega

theorem test_spans (spans : List PortSpan) (bitmap : Lib.Bitmap portBitmapBytes) (k : ℕ) :
    (spans.foldl addSpan bitmap).test k = true ↔
      (∃ span ∈ spans, span.first ≤ k ∧ k ≤ span.last) ∨ bitmap.test k = true := by
  induction spans generalizing bitmap with
  | nil => simp
  | cons span spans ih =>
      rw [List.foldl_cons, ih, test_addSpan]
      simp only [List.mem_cons, exists_eq_or_imp]
      exact or_left_comm.trans or_assoc.symm

theorem mem_portsOf (bitmap : Lib.Bitmap portBitmapBytes) (p : UInt16) :
    p ∈ portsOf bitmap ↔ portMin ≤ p.toNat ∧ bitmap.test p.toNat = true := by
  have hmax : portMax = 65535 := rfl
  have hlt := p.toNat_lt
  simp only [portsOf, List.mem_map, List.mem_filter, List.mem_range'_1]
  constructor
  · rintro ⟨n, ⟨⟨hmin, hn⟩, htest⟩, rfl⟩
    rw [UInt16.toNat_ofNat_of_lt' (by rw [UInt16.size]; omega)]
    exact ⟨hmin, htest⟩
  · rintro ⟨hmin, htest⟩
    exact ⟨p.toNat, ⟨⟨hmin, by omega⟩, htest⟩, UInt16.ofNat_toNat⟩

theorem portsOf_ascending (bitmap : Lib.Bitmap portBitmapBytes) :
    (portsOf bitmap).Pairwise (· < ·) := by
  have hmax : portMax = 65535 := rfl
  rw [portsOf, List.pairwise_map]
  refine ((List.pairwise_lt_range' _).filter _).imp_of_mem fun {a b} ha hb hlt => ?_
  simp only [List.mem_filter, List.mem_range'_1] at ha hb
  rw [UInt16.lt_iff_toNat_lt, UInt16.toNat_ofNat_of_lt' (by rw [UInt16.size]; omega),
    UInt16.toNat_ofNat_of_lt' (by rw [UInt16.size]; omega)]
  exact hlt

/-! ## The whole specification -/

theorem mem_join {x c : UInt8} {items : List Bytes} (h : c ∈ [x].intercalate items) :
    c = x ∨ ∃ item ∈ items, c ∈ item := by
  induction items with
  | nil => simp [List.intercalate] at h
  | cons item items ih =>
      cases items with
      | nil => exact .inr ⟨item, List.mem_cons_self, by simpa [List.intercalate] using h⟩
      | cons next items =>
          have hjoin : [x].intercalate (item :: next :: items) =
              item ++ x :: [x].intercalate (next :: items) := by
            simp [List.intercalate, List.intersperse]
          rw [hjoin, List.mem_append, List.mem_cons] at h
          rcases h with h | h | h
          · exact .inr ⟨item, List.mem_cons_self, h⟩
          · exact .inl h
          · exact (ih h).imp_right fun ⟨i, hi, hc⟩ => ⟨i, List.mem_cons_of_mem _ hi, hc⟩

/-- Only digits and dashes stand in the items. -/
theorem items_not_mem {items : List Bytes} {spans : List (ℕ × ℕ)} {c : UInt8}
    (h : List.Forall₂ PortItem items spans) (hdigit : isDigitByte c = false) (hdash : c ≠ 0x2D) :
    ∀ item ∈ items, c ∉ item := by
  induction h with
  | nil => exact fun _ h => (nomatch h)
  | cons hitem _ ih =>
      intro item hmem
      rcases List.mem_cons.mp hmem with rfl | hmem
      · exact hitem.not_mem hdigit hdash
      · exact ih item hmem

theorem isSpace_not_item {c : UInt8} (h : isSpace c = true) :
    isDigitByte c = false ∧ c ≠ 0x2D ∧ c ≠ 0x2C :=
  Lib.forall_byte (p := fun c => isSpace c = true → isDigitByte c = false ∧ c ≠ 0x2D ∧ c ≠ 0x2C)
    (by decide) c h

/-- The items of a specification are the pieces between its commas. -/
theorem PortSpec.splitOn_eq {spec : Bytes} {items : List Bytes} {spans : List (ℕ × ℕ)}
    (h : PortSpec spec items spans) : spec.splitOn 0x2C = items := by
  rw [h.joined]
  exact List.splitOn_intercalate _ (items_not_mem h.parsed (by decide) (by decide)) h.nonempty

theorem portSpec_iff {spec : Bytes} {spans : List (ℕ × ℕ)} :
    PortSpec spec (spec.splitOn 0x2C) spans ↔
      spec.length < portSpecMaxLen ∧ (spec.splitOn 0x2C).length ≤ portSpecMaxTokens ∧
        List.Forall₂ PortItem (spec.splitOn 0x2C) spans := by
  refine ⟨fun h => ⟨h.short, h.few, h.parsed⟩, fun ⟨hshort, hfew, hparsed⟩ => ?_⟩
  have hjoin : [0x2C].intercalate (spec.splitOn 0x2C) = spec := List.intercalate_splitOn 0x2C
  refine ⟨List.splitOn_ne_nil _ _, hjoin.symm, hshort, hfew, fun c hc => ?_, hparsed⟩
  cases hspace : isSpace c with
  | false => rfl
  | true =>
      obtain ⟨hdigit, hdash, hcomma⟩ := isSpace_not_item hspace
      rw [← hjoin] at hc
      rcases mem_join hc with rfl | ⟨item, hitem, hmem⟩
      · exact absurd rfl hcomma
      · exact absurd hmem (items_not_mem hparsed hdigit hdash item hitem)

theorem exists_spans {items : List Bytes} {ps : List (ℕ × ℕ)}
    (h : List.Forall₂ PortItem items ps) :
    ∃ spans : List PortSpan, spans.map PortSpan.ends = ps := by
  induction h with
  | nil => exact ⟨[], rfl⟩
  | @cons _ p _ _ hitem _ ih =>
      obtain ⟨spans, hspans⟩ := ih
      obtain ⟨hmin, hle, hmax⟩ := hitem.bounds
      exact ⟨⟨p.1, p.2, hmin, hle, hmax⟩ :: spans, by rw [List.map_cons, hspans]; rfl⟩

/-- The list holds the ports of the items and no other, in ascending order. -/
structure PortUnion (spans : List (ℕ × ℕ)) (list : PortList) : Prop where
  ascending : list.ports.Pairwise (· < ·)
  mem_iff : ∀ p : UInt16, p ∈ list.ports ↔ ∃ span ∈ spans, span.1 ≤ p.toNat ∧ p.toNat ≤ span.2

theorem portsOf_union (spans : List PortSpan) :
    PortUnion (spans.map PortSpan.ends)
      ⟨portsOf (spans.foldl addSpan (Bitmap.empty portBitmapBytes))⟩ := by
  refine ⟨portsOf_ascending _, fun p => ?_⟩
  rw [mem_portsOf, test_spans, Bitmap.test_empty]
  simp only [Bool.false_eq_true, or_false, List.mem_map]
  constructor
  · rintro ⟨-, span, hspan, hp⟩
    exact ⟨span.ends, ⟨span, hspan, rfl⟩, hp⟩
  · rintro ⟨_, ⟨span, hspan, rfl⟩, hp⟩
    exact ⟨span.min_le.trans hp.1, span, hspan, hp⟩

/-- The first port of the first item is there. -/
theorem portsOf_ne_nil {spans : List PortSpan} (h : spans ≠ []) :
    portsOf (spans.foldl addSpan (Bitmap.empty portBitmapBytes)) ≠ [] := by
  obtain ⟨span, rest, rfl⟩ := List.exists_cons_of_ne_nil h
  have hmax := span.le_max
  have hle := span.first_le
  have htop : portMax = 65535 := rfl
  have hnat : (UInt16.ofNat span.first).toNat = span.first :=
    UInt16.toNat_ofNat_of_lt' (by rw [UInt16.size]; omega)
  refine List.ne_nil_of_mem (a := .ofNat span.first) ?_
  refine ((portsOf_union (span :: rest)).mem_iff _).mpr ⟨span.ends, List.mem_cons_self, ?_⟩
  rw [hnat]
  exact ⟨le_refl _, hle⟩

/-- With memory at hand the specification is read exactly when it is one of the
grammar, and the list is the union of its items. -/
theorem portRangeRead_ok_iff {errLen : ℕ} {spec : Option Bytes} {list : PortList} :
    portRangeRead (fun _ => false) errLen spec = .ok list ↔
      ∃ s : Bytes, ∃ spans : List PortSpan, spec = some s ∧
        PortSpec s (s.splitOn 0x2C) (spans.map PortSpan.ends) ∧
          list = ⟨portsOf (spans.foldl addSpan (Bitmap.empty portBitmapBytes))⟩ := by
  have hempty : ∀ spans, ¬ PortSpec [] (([] : Bytes).splitOn 0x2C) spans := by
    intro spans h
    obtain ⟨p, ps, hitem, -, -⟩ := List.forall₂_cons_left_iff.mp h.parsed
    exact absurd hitem.length_le.1 (by decide)
  match spec with
  | none => exact ⟨fun h => (nomatch h), fun ⟨_, _, h, _⟩ => (nomatch h)⟩
  | some [] =>
      refine ⟨fun h => (nomatch h), fun ⟨s, spans, hs, hspec, _⟩ => ?_⟩
      cases hs
      exact absurd hspec (hempty _)
  | some (c :: cs) =>
      simp only [portRangeRead, Option.filter, List.isEmpty_cons, Bool.not_false, if_true]
      generalize c :: cs = s
      constructor
      · intro h
        split at h
        · cases h
        · next hshort =>
            split at h
            · cases h
            · next bitmap hloop =>
                obtain ⟨spans, hparsed, hfew, rfl⟩ := portTokenLoop_ok_iff.mp hloop
                split at h
                · cases h
                · cases h
                  refine ⟨s, spans, rfl, portSpec_iff.mpr ⟨by omega, by omega, hparsed⟩, rfl⟩
      · rintro ⟨_, spans, ⟨⟩, hspec, rfl⟩
        have hloop : portTokenLoop errLen s s 0 (Bitmap.empty portBitmapBytes) =
            .ok (spans.foldl addSpan (Bitmap.empty portBitmapBytes)) := by
          refine portTokenLoop_ok_iff.mpr ⟨spans, hspec.parsed, ?_, rfl⟩
          rw [Nat.zero_add]
          exact hspec.few
        have hne : spans ≠ [] := by
          rintro rfl
          exact hspec.nonempty (List.forall₂_nil_right_iff.mp hspec.parsed)
        have hsome : ¬ (portsOf
            (spans.foldl addSpan (Bitmap.empty portBitmapBytes))).length == 0 := by
          rw [beq_iff_eq, List.length_eq_zero_iff]
          exact portsOf_ne_nil hne
        rw [if_neg (by have := hspec.short; omega), hloop]
        simp only [hsome, Bool.false_eq_true, if_false]

/-- A call succeeds exactly on the specifications of the grammar, it then hands
over the union of the items, and a call that fails leaves the list as it was. -/
theorem portRangeParse_union (errLen : ℕ) (spec : Option Bytes) (old : PortList) :
    ((portRangeParse (fun _ => false) errLen spec (some old)).status = .ok () ↔
        ∃ s items spans, spec = some s ∧ PortSpec s items spans) ∧
      (∀ s items spans, spec = some s → PortSpec s items spans →
        ∃ list, (portRangeParse (fun _ => false) errLen spec (some old)).outList = some list ∧
          PortUnion spans list) ∧
      ∀ malloc, (portRangeParse malloc errLen spec (some old)).status ≠ .ok () →
        (portRangeParse malloc errLen spec (some old)).outList = some old := by
  have hread : ∀ s items spans, spec = some s → PortSpec s items spans →
      ∃ list, portRangeRead (fun _ => false) errLen spec = .ok list ∧ PortUnion spans list := by
    rintro s items ps rfl hspec
    obtain ⟨spans, rfl⟩ := exists_spans hspec.parsed
    obtain rfl := hspec.splitOn_eq
    exact ⟨_, portRangeRead_ok_iff.mpr ⟨s, spans, rfl, hspec, rfl⟩, portsOf_union spans⟩
  refine ⟨⟨fun h => ?_, ?_⟩, fun s items spans hs hspec => ?_, fun malloc h => ?_⟩
  · rw [portRangeParse] at h
    split at h
    · cases h
    · next list hr =>
        obtain ⟨s, spans, hs, hspec, -⟩ := portRangeRead_ok_iff.mp hr
        exact ⟨s, _, _, hs, hspec⟩
  · rintro ⟨s, items, spans, hs, hspec⟩
    obtain ⟨list, hlist, -⟩ := hread s items spans hs hspec
    rw [portRangeParse, hlist]
  · obtain ⟨list, hlist, hunion⟩ := hread s items spans hs hspec
    exact ⟨list, by rw [portRangeParse, hlist], hunion⟩
  · rw [portRangeParse] at h ⊢
    split at h
    · rfl
    · exact absurd rfl h

end Cytadel.Net
