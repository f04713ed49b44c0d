import Cytadel.Proofs.ReportRun
import Cytadel.Report.RawBuffer

/-!
# The buffer under failing allocations

The buffer in memory does what the buffer without memory does: its content, its
capacity and its requests are the same after every call, whichever requests are
refused. With that the block always ends its content in a NUL, no size wraps
and no byte is written outside. What an escaper leaves behind are whole pieces.
-/

namespace Cytadel.Report

open Cytadel

/-! ## The invariant -/

/-- The buffer between two calls. -/
structure RawBuf.Ok (b : RawBuf) : Prop where
  block : b.data.length = b.cap
  size : b.cap ≤ sizeMax
  null : b.cap = 0 → b.len = 0
  room : 0 < b.cap → b.len + 1 ≤ b.cap
  terminated : 0 < b.cap → b.data[b.len]? = some 0

/-- The bytes written so far. -/
def RawBuf.content (b : RawBuf) : Bytes := b.data.take b.len

/-- The buffer without its memory. -/
def RawBuf.abs (b : RawBuf) : ReportBuf := ⟨b.content, b.cap, b.allocs⟩

theorem RawBuf.init_ok (allocs : ℕ) : (RawBuf.init allocs).Ok where
  block := rfl
  size := Nat.zero_le _
  null _ := rfl
  room h := absurd h (Nat.lt_irrefl 0)
  terminated h := absurd h (Nat.lt_irrefl 0)

theorem RawBuf.Ok.len_le {b : RawBuf} (h : b.Ok) : b.len ≤ b.data.length := by
  have hblock := h.block
  rcases Nat.eq_zero_or_pos b.cap with hcap | hcap
  · rw [h.null hcap]
    exact Nat.zero_le _
  · have := h.room hcap
    omega

theorem RawBuf.Ok.content_length {b : RawBuf} (h : b.Ok) : b.content.length = b.len := by
  rw [content, List.length_take, Nat.min_eq_left h.len_le]

/-! ## Growing -/

/-- The capacity is doubled at most as often as a size has bits, and never past
the largest size. -/
theorem rawGrow_eq {need newCap : ℕ} (hneed : need ≤ sizeMax) (turns : ℕ) (ht : turns ≤ 64)
    (hlow : 2 ^ (64 - turns) ≤ newCap) (hcap : newCap ≤ sizeMax) :
    rawGrow need turns newCap = some (growCap need turns newCap) ∧
      need ≤ growCap need turns newCap ∧ newCap ≤ growCap need turns newCap ∧
      growCap need turns newCap ≤ sizeMax := by
  induction turns generalizing newCap with
  | zero =>
      rw [sizeMax] at hcap
      omega
  | succ turns ih =>
      rw [rawGrow, growCap]
      by_cases hdone : newCap ≥ need
      · rw [if_pos hdone, if_pos hdone]
        exact ⟨rfl, hdone, Nat.le_refl _, hcap⟩
      rw [if_neg hdone, if_neg hdone]
      by_cases hlarge : newCap > sizeMax / 2
      · rw [if_pos hlarge, if_pos hlarge]
        exact ⟨rfl, Nat.le_refl _, by omega, hneed⟩
      rw [if_neg hlarge, if_neg hlarge]
      have hfits : newCap + newCap ≤ sizeMax := by omega
      rw [sizeAdd, if_pos hfits, ← Nat.mul_two]
      have hpow : 2 ^ (64 - turns) ≤ newCap * 2 := by
        rw [show 64 - turns = 64 - (turns + 1) + 1 by omega, Nat.pow_succ]
        omega
      obtain ⟨heq, h1, h2, h3⟩ := ih (by omega) hpow (by omega)
      exact ⟨heq, h1, by omega, h3⟩

/-- The block behind a reservation that was granted. -/
structure RawBuf.Room (b : RawBuf) (extra : ℕ) : Prop where
  block : b.data.length = b.cap
  size : b.cap ≤ sizeMax
  room : b.len + 1 + extra ≤ b.cap

theorem RawBuf.Ok.refused {b : RawBuf} (hb : b.Ok) : RawBuf.Ok { b with allocs := b.allocs + 1 } :=
  ⟨hb.block, hb.size, hb.null, hb.room, hb.terminated⟩

variable (h : Heap)

/-- A reservation computes no size that wraps, and does what it does without
memory; the content stays. -/
theorem rawReserve_spec {b : RawBuf} (hb : b.Ok) (extra : ℕ) :
    ∃ b', rawReserve h extra b = some ((bufReserve h.refuses extra b.abs).1, b') ∧
      b'.abs = (bufReserve h.refuses extra b.abs).2 ∧ b'.len = b.len ∧ b'.content = b.content ∧
      if (bufReserve h.refuses extra b.abs).1 = true then b'.Room extra else b'.Ok := by
  have hlen : b.abs.data.length = b.len := hb.content_length
  have hcap : b.abs.cap = b.cap := rfl
  have hallocs : b.abs.allocs = b.allocs := rfl
  have hsize : sizeMax = 18446744073709551615 := rfl
  rw [bufReserve, rawReserve, hlen, hcap, hallocs]
  by_cases hfull : b.len > sizeMax - 1
  · rw [if_pos hfull, if_pos hfull]
    exact ⟨b, rfl, rfl, rfl, rfl, hb⟩
  rw [if_neg hfull, if_neg hfull, sizeAdd, if_pos (by omega)]
  by_cases hover : extra > sizeMax - (b.len + 1)
  · simp only [Option.bind_eq_bind, Option.bind_some, if_pos hover]
    exact ⟨b, rfl, rfl, rfl, rfl, hb⟩
  have hneed : b.len + 1 + extra ≤ sizeMax := by omega
  simp only [Option.bind_eq_bind, Option.bind_some, if_neg hover, sizeAdd, if_pos hneed]
  by_cases henough : b.len + 1 + extra ≤ b.cap
  · rw [if_pos henough, if_pos henough]
    exact ⟨b, rfl, rfl, rfl, rfl, hb.block, hb.size, henough⟩
  obtain ⟨hgrow, hroom, hkeep, hmax⟩ := @rawGrow_eq (b.len + 1 + extra)
    (if b.cap = 0 then 64 else b.cap) hneed 64 (Nat.le_refl _)
    (by show 1 ≤ _; split <;> omega) (by have := hb.size; split <;> omega)
  rw [if_neg henough, if_neg henough, hgrow, Option.bind_some]
  by_cases hrefused : h.refuses b.allocs = true
  · rw [if_pos hrefused, if_pos hrefused]
    exact ⟨_, rfl, rfl, rfl, rfl, hb.refused⟩
  rw [if_neg hrefused, if_neg hrefused]
  generalize growCap (b.len + 1 + extra) 64 (if b.cap = 0 then 64 else b.cap) = newCap at *
  have hold : b.data.length ≤ newCap := by
    have hblock := hb.block
    split at hkeep <;> omega
  have hcontent : (b.data.take newCap ++ (List.range (newCap - b.data.length)).map
      (h.fresh b.allocs)).take b.len = b.data.take b.len := by
    rw [List.take_of_length_le hold, List.take_append_of_le_length hb.len_le]
  refine ⟨_, rfl, ?_, rfl, hcontent, ?_, hmax, hroom⟩
  · show ReportBuf.mk _ _ _ = ReportBuf.mk _ _ _
    rw [ReportBuf.mk.injEq]
    exact ⟨hcontent, rfl, rfl⟩
  · show (_ : Bytes).length = newCap
    rw [List.length_append, List.length_map, List.length_range, List.length_take,
      Nat.min_eq_right hold]
    omega

theorem writeAt_eq {data src : Bytes} {i : ℕ} (hroom : i + src.length ≤ data.length) :
    ∃ data', writeAt data i src = some data' ∧ data'.length = data.length ∧
      data'.take i = data.take i ∧ (data'.drop i).take src.length = src := by
  have htake : (data.take i).length = i := by
    rw [List.length_take]
    omega
  refine ⟨_, if_pos hroom, ?_, ?_, ?_⟩
  · rw [List.length_append, List.length_append, htake, List.length_drop]
    omega
  · rw [List.append_assoc, List.take_left' htake]
  · rw [List.append_assoc, List.drop_left' htake, List.take_left' rfl]

/-- An append writes inside of its block and leaves the NUL behind what it
wrote; where it fails the buffer is as it was. -/
theorem rawAppend_spec {b : RawBuf} (hb : b.Ok) (src : Bytes) :
    ∃ b', rawAppend h src b = some ((bufAppend h.refuses src b.abs).1, b') ∧
      b'.abs = (bufAppend h.refuses src b.abs).2 ∧ b'.Ok := by
  obtain ⟨b₁, hreserve, habs, hlen, hcontent, hroom⟩ := rawReserve_spec h hb src.length
  rw [bufAppend, rawAppend, hreserve]
  cases hok : (bufReserve h.refuses src.length b.abs).1 with
  | false =>
      rw [hok, if_neg (by decide)] at hroom
      exact ⟨b₁, rfl, habs, hroom⟩
  | true =>
      rw [hok, if_pos rfl] at hroom
      obtain ⟨hblock, hsize, hfits⟩ := hroom
      obtain ⟨data, hwrite, hlength, hhead, hwritten⟩ :=
        @writeAt_eq b₁.data src b₁.len (by omega)
      obtain ⟨data', hwrite', hlength', hhead', hnul⟩ :=
        @writeAt_eq data [0] (b₁.len + src.length) (by rw [List.length_singleton]; omega)
      have hnew : data'.take (b₁.len + src.length) = b₁.data.take b₁.len ++ src := by
        rw [hhead', List.take_add, hhead, hwritten]
      simp only [Option.bind_eq_bind, hwrite, Option.bind_some, sizeAdd]
      rw [if_pos (by omega), Option.bind_some, hwrite', Option.bind_some]
      refine ⟨_, rfl, ?_, ?_⟩
      · show ReportBuf.mk _ _ _ = _
        rw [← habs]
        show ReportBuf.mk _ _ _ = ReportBuf.mk _ _ _
        rw [ReportBuf.mk.injEq]
        exact ⟨hnew, rfl, rfl⟩
      · refine ⟨?_, hsize, fun hzero => ?_, fun _ => ?_, fun _ => ?_⟩
        · show data'.length = b₁.cap
          omega
        · show b₁.len + src.length = 0
          have : b₁.cap = 0 := hzero
          omega
        · show b₁.len + src.length + 1 ≤ b₁.cap
          omega
        · show data'[b₁.len + src.length]? = some 0
          have hlast := congrArg List.head? hnul
          rwa [List.length_singleton, List.head?_take, if_neg (by decide), List.head?_drop] at hlast

/-- The same of many appends. -/
theorem rawAppendAll_spec {b : RawBuf} (hb : b.Ok) (pieces : List Bytes) :
    ∃ b', rawAppendAll h pieces b = some ((appendAll h.refuses pieces b.abs).1, b') ∧
      b'.abs = (appendAll h.refuses pieces b.abs).2 ∧ b'.Ok := by
  induction pieces generalizing b with
  | nil => exact ⟨b, rfl, rfl, hb⟩
  | cons src rest ih =>
      obtain ⟨b₁, happend, habs, hb₁⟩ := rawAppend_spec h hb src
      rw [rawAppendAll, appendAll, happend, ← habs]
      cases (bufAppend h.refuses src b.abs).1 with
      | false => exact ⟨b₁, rfl, rfl, hb₁⟩
      | true => exact ih hb₁

/-! ## The pieces -/

section

variable (alloc : ℕ → Bool)

theorem bufAppend_failed (src : Bytes) {b : ReportBuf} (hfail : (bufAppend alloc src b).1 = false) :
    (bufAppend alloc src b).2.data = b.data := by
  simp only [bufAppend] at hfail ⊢
  split at hfail
  · next hno =>
      rw [if_pos hno]
      exact bufReserve_data alloc src.length b
  · cases hfail

/-- What stops has appended the pieces before the one that failed. -/
theorem appendAll_failed (pieces : List Bytes) {b : ReportBuf}
    (hfail : (appendAll alloc pieces b).1 = false) :
    ∃ k < pieces.length,
      (appendAll alloc pieces b).2.data = b.data ++ (pieces.take k).flatten := by
  induction pieces generalizing b with
  | nil => cases hfail
  | cons src rest ih =>
      simp only [appendAll] at hfail ⊢
      cases hok : (bufAppend alloc src b).1 with
      | false =>
          rw [hok] at hfail
          refine ⟨0, Nat.succ_pos _, ?_⟩
          simp only [Bool.not_false, if_true]
          rw [bufAppend_failed alloc src hok]
          exact (List.append_nil _).symm
      | true =>
          rw [hok] at hfail
          obtain ⟨k, hk, hdata⟩ := ih hfail
          refine ⟨k + 1, Nat.succ_lt_succ hk, ?_⟩
          simp only [Bool.not_true, Bool.false_eq_true, if_false]
          rw [hdata, bufAppend_ok alloc src hok, List.take_succ_cons, List.flatten_cons,
            List.append_assoc]

end

namespace Escaper

/-- The input as it is escaped, byte by byte. -/
def cleaned : Escaper → Bytes → Bytes
  | .url, input => urlClean input
  | _, input => input

/-- What is put for one byte. -/
def unit : Escaper → UInt8 → Bytes
  | .htmlBody => htmlEscapeOne false
  | .htmlAttr => htmlEscapeOne true
  | .url => urlEncodeOne
  | .json => jsonEscapeOne

/-- The pieces are those of the bytes; a link that is refused is a single one. -/
theorem pieces_eq (e : Escaper) (input : Bytes) :
    e.pieces input = (e.cleaned input).map e.unit ∨ e.pieces input = [ascii "#"] := by
  cases e with
  | htmlBody => exact .inl rfl
  | htmlAttr => exact .inl rfl
  | json => exact .inl rfl
  | url =>
      show escapeUrl input = (urlClean input).map urlEncodeOne ∨ escapeUrl input = _
      rw [escapeUrl]
      split
      · next hempty =>
          rw [List.isEmpty_iff.mp hempty]
          exact .inl rfl
      · split
        · exact .inr rfl
        · dsimp only
          split
          · exact .inl rfl
          · exact .inr rfl

/-- The pieces before one that failed escape a prefix of the input. -/
theorem take_pieces (e : Escaper) (input : Bytes) {k : ℕ} (hk : k < (e.pieces input).length) :
    ∃ p, p <+: e.cleaned input ∧ ((e.pieces input).take k).flatten = p.flatMap e.unit := by
  rcases e.pieces_eq input with hmap | hsingle
  · refine ⟨(e.cleaned input).take k, List.take_prefix k _, ?_⟩
    rw [hmap, ← List.map_take, List.flatMap_def]
  · rw [hsingle, List.length_singleton] at hk
    obtain rfl : k = 0 := by omega
    exact ⟨[], List.nil_prefix, rfl⟩

end Escaper

/-- Every escaper, on every input and buffer and with any requests for memory
refused: no size wraps and no write leaves the block, the buffer keeps its
invariant, and its content grows by the whole escaped input or, when a request
was refused, by the escaped bytes of a prefix, each of them whole. -/
theorem escaper_spec (e : Escaper) (input : Bytes) {b : RawBuf} (hb : b.Ok) :
    ∃ ok b', e.run h input b = some (ok, b') ∧ b'.Ok ∧
      (ok = true → b'.content = b.content ++ (e.pieces input).flatten) ∧
      (ok = false → ∃ p, p <+: e.cleaned input ∧
        b'.content = b.content ++ p.flatMap e.unit) := by
  have hrun : ∀ b₁ : RawBuf, b₁.Ok → b₁.content = b.content →
      ∃ ok b', rawAppendAll h (e.pieces input) b₁ = some (ok, b') ∧ b'.Ok ∧
        (ok = true → b'.content = b.content ++ (e.pieces input).flatten) ∧
        (ok = false → ∃ p, p <+: e.cleaned input ∧
          b'.content = b.content ++ p.flatMap e.unit) := by
    intro b₁ hb₁ hcontent
    obtain ⟨b', happend, habs, hb'⟩ := rawAppendAll_spec h hb₁ (e.pieces input)
    have hdata : b'.content = (appendAll h.refuses (e.pieces input) b₁.abs).2.data := by
      rw [← habs]
      rfl
    have hold : b₁.abs.data = b.content := hcontent
    refine ⟨_, b', happend, hb', fun hok => ?_, fun hfail => ?_⟩
    · rw [hdata, appendAll_ok h.refuses _ hok, hold]
    · obtain ⟨k, hk, hstop⟩ := appendAll_failed h.refuses _ hfail
      obtain ⟨p, hp, htext⟩ := e.take_pieces input hk
      exact ⟨p, hp, by rw [hdata, hstop, hold, htext]⟩
  rw [Escaper.run]
  split
  · split
    · refine ⟨false, _, rfl, hb.refused, fun hok => (by cases hok), fun _ => ?_⟩
      exact ⟨[], List.nil_prefix, (List.append_nil _).symm⟩
    · exact hrun _ hb.refused rfl
  · exact hrun b hb rfl

/-- A block of 64 bytes, of which four are written. -/
def openParagraph : RawBuf := ⟨ascii "<p>" ++ 0 :: List.replicate 60 0xCC, 3, 64, 1⟩

/-- The second request is refused: the units that fit into the first block stand
behind the old content, and no part of the next one does. -/
theorem escaper_spec_refused :
    ∃ ok b', Escaper.run ⟨fun n => n = 1, fun _ _ => 0xCC⟩ .htmlBody
        (List.replicate 14 0x26) openParagraph = some (ok, b') ∧ b'.Ok ∧ ok = false ∧
      b'.content = ascii "<p>" ++ (List.replicate 12 (ascii "&amp;")).flatten := by
  have hopen : openParagraph.Ok :=
    ⟨by decide, by decide, by decide, by decide, fun _ => by decide⟩
  obtain ⟨ok, b', hrun, hb', -, -⟩ :=
    escaper_spec ⟨fun n => n = 1, fun _ _ => 0xCC⟩ .htmlBody (List.replicate 14 0x26) hopen
  have hvalue : (Escaper.run ⟨fun n => n = 1, fun _ _ => 0xCC⟩ .htmlBody
      (List.replicate 14 0x26) openParagraph).map (fun r => (r.1, r.2.content)) =
      some (false, ascii "<p>" ++ (List.replicate 12 (ascii "&amp;")).flatten) := by
    decide +kernel
  rw [hrun, Option.map_some, Option.some.injEq, Prod.mk.injEq] at hvalue
  exact ⟨ok, b', hrun, hb', hvalue.1, hvalue.2⟩

end Cytadel.Report
