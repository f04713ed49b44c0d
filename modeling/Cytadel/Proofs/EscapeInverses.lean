import Cytadel.Lib.JsonText
import Cytadel.Lib.References
import Cytadel.Report.Escape

/-!
# What is escaped is read back

The escapers put a piece of text for each byte of their input. A reader of the
format takes each piece for the byte it was put for, so evidence comes through
as it was stored, also where it looks like escaped text already; and no piece
has a byte that would end the text around it.
-/

namespace Cytadel.Report

open Cytadel Lib Lib.Html Lib.Json

/-! ## JSON -/

theorem jsonEscapeOne_eq (c : UInt8) : jsonEscapeOne c = escapeByte c := by
  have hall : ∀ c : UInt8, jsonEscapeOne c = escapeByte c := forall_byte (by decide)
  exact hall c

theorem escapeJson_flatten (text : Bytes) :
    (escapeJson text).flatten = text.flatMap escapeByte := by
  rw [escapeJson, List.flatMap, funext jsonEscapeOne_eq]

/-! ## HTML -/

/-- The references that the escapers write. -/
def htmlEntities : List Bytes :=
  [ascii "&amp;", ascii "&lt;", ascii "&gt;", ascii "&quot;", ascii "&#39;"]

theorem escapeHtmlBody_flatten (s : Bytes) :
    (escapeHtmlBody s).flatten = s.flatMap (htmlEscapeOne false) := List.flatMap_def.symm

theorem escapeHtmlAttr_flatten (s : Bytes) :
    (escapeHtmlAttr s).flatten = s.flatMap (htmlEscapeOne true) := List.flatMap_def.symm

/-- One piece: a reference, or the byte itself. -/
theorem htmlEscapeOne_cases (quotes : Bool) (c : UInt8) :
    c = 0x26 ∧ htmlEscapeOne quotes c = ascii "&amp;" ∨
    c = 0x3C ∧ htmlEscapeOne quotes c = ascii "&lt;" ∨
    c = 0x3E ∧ htmlEscapeOne quotes c = ascii "&gt;" ∨
    c = 0x22 ∧ quotes = true ∧ htmlEscapeOne quotes c = ascii "&quot;" ∨
    c = 0x27 ∧ quotes = true ∧ htmlEscapeOne quotes c = ascii "&#39;" ∨
    (c ≠ 0x26 ∧ c ≠ 0x3C ∧ c ≠ 0x3E ∧ (quotes = true → c ≠ 0x22 ∧ c ≠ 0x27)) ∧
      htmlEscapeOne quotes c = [c] := by
  rw [htmlEscapeOne]
  cases quotes <;> split_ifs <;> simp_all

theorem decode_htmlEscapeOne (refs : References) (quotes : Bool) (c : UInt8) (rest : Bytes) :
    refs.decode none (htmlEscapeOne quotes c ++ rest) = c :: refs.decode none rest := by
  rcases htmlEscapeOne_cases quotes c with ⟨rfl, h⟩ | ⟨rfl, h⟩ | ⟨rfl, h⟩ | ⟨rfl, -, h⟩ |
    ⟨rfl, -, h⟩ | ⟨hc, h⟩
  · rw [h]
    exact refs.decode_reference (by simp) refs.amp rest
  · rw [h]
    exact refs.decode_reference (by simp) refs.lt rest
  · rw [h]
    exact refs.decode_reference (by simp) refs.gt rest
  · rw [h]
    exact refs.decode_reference (by simp) refs.quot rest
  · rw [h]
    exact refs.decode_reference (by simp) refs.apostrophe rest
  · rw [h]
    exact refs.decode_text hc.1 rest

/-- An escaped text is read back, whatever stands behind it. -/
theorem decode_escaped (refs : References) (quotes : Bool) (s rest : Bytes) :
    refs.decode none (s.flatMap (htmlEscapeOne quotes) ++ rest) = s ++ refs.decode none rest :=
  refs.decode_flatMap (decode_htmlEscapeOne refs quotes) s rest

/-- No piece has a bracket, none of a value has a quote, and a `&` is only at
the start of a reference. -/
theorem htmlEscapeOne_bytes (quotes : Bool) (c : UInt8) :
    0x3C ∉ htmlEscapeOne quotes c ∧ 0x3E ∉ htmlEscapeOne quotes c ∧
      (quotes = true → 0x22 ∉ htmlEscapeOne quotes c ∧ 0x27 ∉ htmlEscapeOne quotes c) ∧
      ∀ u v, htmlEscapeOne quotes c = u ++ 0x26 :: v →
        u = [] ∧ htmlEscapeOne quotes c ∈ htmlEntities := by
  have hentity : ∀ e ∈ htmlEntities, 0x3C ∉ e ∧ 0x3E ∉ e ∧ 0x22 ∉ e ∧ 0x27 ∉ e ∧
      0x26 ∉ e.tail := by decide
  have hpiece : htmlEscapeOne quotes c ∈ htmlEntities ∨
      (c ≠ 0x26 ∧ c ≠ 0x3C ∧ c ≠ 0x3E ∧ (quotes = true → c ≠ 0x22 ∧ c ≠ 0x27)) ∧
        htmlEscapeOne quotes c = [c] := by
    rcases htmlEscapeOne_cases quotes c with ⟨-, h⟩ | ⟨-, h⟩ | ⟨-, h⟩ | ⟨-, -, h⟩ | ⟨-, -, h⟩ | h
    · exact .inl (h ▸ by decide)
    · exact .inl (h ▸ by decide)
    · exact .inl (h ▸ by decide)
    · exact .inl (h ▸ by decide)
    · exact .inl (h ▸ by decide)
    · exact .inr h
  rcases hpiece with hmem | ⟨⟨hamp, hlt, hgt, hquotes⟩, hone⟩
  · obtain ⟨hlt, hgt, hquot, hapos, htail⟩ := hentity _ hmem
    refine ⟨hlt, hgt, fun _ => ⟨hquot, hapos⟩, fun u v huv => ⟨?_, hmem⟩⟩
    cases u with
    | nil => rfl
    | cons x u =>
        rw [huv] at htail
        exact absurd (List.mem_append_right u List.mem_cons_self) htail
  · rw [hone]
    simp only [List.mem_singleton]
    refine ⟨Ne.symm hlt, Ne.symm hgt, fun hq => ⟨Ne.symm (hquotes hq).1, Ne.symm (hquotes hq).2⟩,
      fun u v huv => ?_⟩
    have hmem : (0x26 : UInt8) ∈ [c] := huv ▸ List.mem_append_right u List.mem_cons_self
    exact absurd (List.mem_singleton.mp hmem).symm hamp

/-- Every `&` of an escaped text starts the reference that was put for one byte
of the original. -/
def StartsEntity (quotes : Bool) (s out : Bytes) : Prop :=
  ∀ pre post, out = pre ++ 0x26 :: post → ∃ s₁ c s₂, s = s₁ ++ c :: s₂ ∧
    pre = s₁.flatMap (htmlEscapeOne quotes) ∧
    0x26 :: post = htmlEscapeOne quotes c ++ s₂.flatMap (htmlEscapeOne quotes) ∧
    htmlEscapeOne quotes c ∈ htmlEntities

theorem startsEntity (quotes : Bool) (s : Bytes) :
    StartsEntity quotes s (s.flatMap (htmlEscapeOne quotes)) := by
  intro pre post h
  obtain ⟨s₁, c, s₂, u, v, hs, hc, hpre, hpost⟩ := flatMap_eq_append_cons h
  obtain ⟨rfl, hmem⟩ := (htmlEscapeOne_bytes quotes c).2.2.2 u v hc
  refine ⟨s₁, c, s₂, hs, ?_, ?_, hmem⟩
  · rw [hpre, List.append_nil]
  · rw [hc, hpost]
    rfl

theorem flatMap_no_bracket (quotes : Bool) (s : Bytes) :
    0x3C ∉ s.flatMap (htmlEscapeOne quotes) ∧ 0x3E ∉ s.flatMap (htmlEscapeOne quotes) := by
  constructor
  · intro h
    obtain ⟨c, -, hc⟩ := List.mem_flatMap.mp h
    exact (htmlEscapeOne_bytes quotes c).1 hc
  · intro h
    obtain ⟨c, -, hc⟩ := List.mem_flatMap.mp h
    exact (htmlEscapeOne_bytes quotes c).2.1 hc

theorem flatMap_no_quote (s : Bytes) :
    0x22 ∉ s.flatMap (htmlEscapeOne true) ∧ 0x27 ∉ s.flatMap (htmlEscapeOne true) := by
  constructor
  · intro h
    obtain ⟨c, -, hc⟩ := List.mem_flatMap.mp h
    exact ((htmlEscapeOne_bytes true c).2.2.1 rfl).1 hc
  · intro h
    obtain ⟨c, -, hc⟩ := List.mem_flatMap.mp h
    exact ((htmlEscapeOne_bytes true c).2.2.1 rfl).2 hc

/-- Escaped text is read back by every reader of the format, and it has none of
the bytes that end the text around it. -/
theorem escapers_inverse (s : Bytes) :
    (unescape (escapeJson s).flatten = some s ∧ (∀ c ∈ (escapeJson s).flatten, 0x20 ≤ c) ∧
      quotesEscaped (escapeJson s).flatten = true) ∧
    (∀ refs : References, refs.decode none (escapeHtmlBody s).flatten = s ∧
      refs.decode none (escapeHtmlAttr s).flatten = s) ∧
    (0x3C ∉ (escapeHtmlBody s).flatten ∧ 0x3E ∉ (escapeHtmlBody s).flatten ∧
      StartsEntity false s (escapeHtmlBody s).flatten) ∧
    (0x3C ∉ (escapeHtmlAttr s).flatten ∧ 0x3E ∉ (escapeHtmlAttr s).flatten ∧
      StartsEntity true s (escapeHtmlAttr s).flatten ∧
      0x22 ∉ (escapeHtmlAttr s).flatten ∧ 0x27 ∉ (escapeHtmlAttr s).flatten) := by
  rw [escapeJson_flatten, escapeHtmlBody_flatten, escapeHtmlAttr_flatten]
  refine ⟨⟨unescape_escape s, escape_no_control s, ?_⟩, fun refs => ⟨?_, ?_⟩, ?_, ?_⟩
  · rw [quotesEscaped, quoteSteps_escape]
    rfl
  · simpa [References.decode] using decode_escaped refs false s []
  · simpa [References.decode] using decode_escaped refs true s []
  · exact ⟨(flatMap_no_bracket false s).1, (flatMap_no_bracket false s).2, startsEntity false s⟩
  · exact ⟨(flatMap_no_bracket true s).1, (flatMap_no_bracket true s).2, startsEntity true s,
      (flatMap_no_quote s).1, (flatMap_no_quote s).2⟩

end Cytadel.Report
