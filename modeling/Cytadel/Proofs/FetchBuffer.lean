import Cytadel.Net.NvdFetch
import Cytadel.Proofs.EscapeBuffer

/-!
# The fetch buffer stays within its cap

Whatever the peer delivers and whichever requests for memory are refused, the
block holds the bytes of the accepted deliveries and a NUL behind them, within
the cap and one byte more. A delivery is turned away for one of two reasons,
and no size on the way wraps.
-/

namespace Cytadel.Net

open Cytadel Report

/-- The number of bytes that a delivery stands for. -/
def Delivery.count (d : Delivery) : ℕ := d.size * d.nmemb

def Delivery.bytes (d : Delivery) : Bytes := (List.range d.count).map d.ptr

/-- The bytes of the deliveries that were taken whole. -/
def acceptedBytes (events : List (Delivery × ℕ)) : Bytes :=
  events.flatMap fun e => if e.2 = e.1.count then e.1.bytes else []

/-- The buffer is a text with a NUL behind it. There is no buffer before the
first byte. -/
def FetchWriteCtx.Holds (ctx : FetchWriteCtx) (text : Bytes) : Prop :=
  ctx.len = text.length ∧
    match ctx.buf with
    | none => text = []
    | some data => data.take (ctx.len + 1) = text ++ [0]

/-- The context between two deliveries. -/
structure FetchWriteCtx.Ok (ctx : FetchWriteCtx) (hardCap : ℕ) (text : Bytes) : Prop where
  hardCap_eq : ctx.hardCap = hardCap
  len_le : ctx.len ≤ hardCap
  allocCap_le : ctx.allocCap ≤ hardCap + 1
  block : (ctx.buf.getD []).length = ctx.allocCap
  holds : ctx.Holds text

/-- The one request that a call makes is refused. -/
def FetchRefused (h : Heap) (ctx after : FetchWriteCtx) : Prop :=
  ctx.allocs < after.allocs ∧ h.refuses ctx.allocs = true

theorem FetchWriteCtx.init_ok (hardCap allocs : ℕ) : (init hardCap allocs).Ok hardCap [] where
  hardCap_eq := rfl
  len_le := Nat.zero_le _
  allocCap_le := Nat.zero_le _
  block := rfl
  holds := ⟨rfl, rfl⟩

@[simp] theorem Delivery.bytes_length (d : Delivery) : d.bytes.length = d.count := by
  rw [bytes, List.length_map, List.length_range]

/-- The division test is the test for a product that does not fit. -/
theorem Delivery.overflows_iff (d : Delivery) :
    (d.size ≠ 0 ∧ d.nmemb > sizeMax / d.size) ↔ sizeMax < d.count := by
  rw [count]
  rcases Nat.eq_zero_or_pos d.size with hzero | hpos
  · simp [hzero]
  · rw [gt_iff_lt, Nat.div_lt_iff_lt_mul hpos, Nat.mul_comm d.nmemb]
    exact and_iff_right (by omega)

/-- What is held at the front of the block. -/
theorem FetchWriteCtx.Ok.take_len {ctx : FetchWriteCtx} {hardCap : ℕ} {text : Bytes}
    (hctx : ctx.Ok hardCap text) : (ctx.buf.getD []).take ctx.len = text := by
  obtain ⟨hlen, hbuf⟩ := hctx.holds
  split at hbuf
  · next hnull =>
      rw [hnull, hbuf]
      exact List.take_nil
  · next data hdata =>
      rw [hdata]
      have htake := congrArg (List.take ctx.len) hbuf
      rwa [List.take_take, Nat.min_eq_left (Nat.le_succ _), List.take_left' hlen.symm] at htake

variable (h : Heap)

/-- The block behind a request that was not refused: large enough, within the
cap, with the same text at its front. -/
structure FetchWriteCtx.Room (ctx : FetchWriteCtx) (hardCap need : ℕ) (text : Bytes) : Prop where
  hardCap_eq : ctx.hardCap = hardCap
  len_eq : ctx.len = text.length
  allocCap_le : ctx.allocCap ≤ hardCap + 1
  need_le : need ≤ ctx.allocCap
  block : (ctx.buf.getD []).length = ctx.allocCap
  text_eq : (ctx.buf.getD []).take ctx.len = text

theorem fetchReserve_spec {ctx : FetchWriteCtx} {hardCap need : ℕ} {text : Bytes}
    (hcap : hardCap < sizeMax) (hctx : ctx.Ok hardCap text) (hneed : need ≤ hardCap + 1) :
    ∃ granted ctx', fetchReserve h need ctx = some (granted, ctx') ∧
      ctx'.aborted = ctx.aborted ∧
      (granted = false ↔ FetchRefused h ctx ctx') ∧
      if granted = true then ctx'.Room hardCap need text else ctx'.Ok hardCap text := by
  have hlen := hctx.holds.1
  rw [fetchReserve]
  split
  · next hgrow =>
      obtain ⟨hnew, hroom, hkeep, hmax⟩ := @rawGrow_eq need
        (if ctx.allocCap = 0 then 8192 else ctx.allocCap) (by omega) 64 (Nat.le_refl _)
        (by show 1 ≤ _; split <;> omega)
        (by
          have := hctx.allocCap_le
          have : sizeMax = 18446744073709551615 := rfl
          split <;> omega)
      have htop : sizeAdd ctx.hardCap 1 = some (hardCap + 1) := by
        rw [hctx.hardCap_eq, sizeAdd, if_pos (by omega)]
      simp only [Option.bind_eq_bind, hnew, htop, Option.bind_some]
      generalize growCap need 64 (if ctx.allocCap = 0 then 8192 else ctx.allocCap) = grown at *
      have hclamp : ∃ newCap, (if grown > hardCap + 1 then hardCap + 1 else grown) = newCap ∧
          need ≤ newCap ∧ newCap ≤ hardCap + 1 := by
        refine ⟨_, rfl, ?_⟩
        split <;> omega
      obtain ⟨newCap, hnewCap, hfits, hbelow⟩ := hclamp
      rw [hnewCap]
      split
      · next hrefused =>
          refine ⟨false, _, rfl, rfl, ⟨fun _ => ⟨Nat.lt_succ_self _, hrefused⟩, fun _ => rfl⟩, ?_⟩
          exact ⟨hctx.hardCap_eq, hctx.len_le, hctx.allocCap_le, hctx.block, hctx.holds⟩
      · next hgranted =>
          refine ⟨true, _, rfl, rfl,
            ⟨fun h => absurd h (by simp), fun h => absurd h.2 hgranted⟩, ?_⟩
          have hold : (ctx.buf.getD []).length ≤ newCap := by
            rw [hctx.block]
            omega
          refine ⟨hctx.hardCap_eq, hlen, hbelow, hfits, ?_, ?_⟩
          · show (List.take _ _ ++ List.map _ _).length = newCap
            rw [List.length_append, List.length_map, List.length_range, List.length_take,
              Nat.min_eq_right hold]
            omega
          · have htext := hctx.take_len
            have hin : ctx.len ≤ (ctx.buf.getD []).length := by
              rw [hlen, ← htext, List.length_take]
              omega
            show (List.take _ _ ++ List.map _ _).take ctx.len = text
            rw [List.take_of_length_le hold, List.take_append_of_le_length hin, htext]
  · next henough =>
      refine ⟨true, ctx, rfl, rfl, ⟨fun h => absurd h (by simp), fun h =>
        absurd h.1 (Nat.lt_irrefl _)⟩, ?_⟩
      exact ⟨hctx.hardCap_eq, hlen, hctx.allocCap_le, by omega, hctx.block, hctx.take_len⟩

/-- Why a delivery is turned away. -/
def TurnedAway (d : Delivery) (ctx after : FetchWriteCtx) : Prop :=
  ctx.hardCap < ctx.len + d.count ∨ FetchRefused h ctx after

/-- The text after a call that returned `ret`. -/
def textAfter (text : Bytes) (d : Delivery) (ret : ℕ) : Bytes :=
  text ++ if ret = d.count then d.bytes else []

theorem textAfter_zero {text : Bytes} {d : Delivery} (h : d.count ≠ 0) :
    textAfter text d 0 = text := by
  rw [textAfter, if_neg (Ne.symm h), List.append_nil]

theorem FetchWriteCtx.Ok.abort {ctx : FetchWriteCtx} {hardCap : ℕ} {text : Bytes}
    (hctx : ctx.Ok hardCap text) : FetchWriteCtx.Ok { ctx with aborted := true } hardCap text :=
  ⟨hctx.hardCap_eq, hctx.len_le, hctx.allocCap_le, hctx.block, hctx.holds⟩

/-- The copy into a block with room ends in a NUL. -/
theorem FetchWriteCtx.Room.written {ctx : FetchWriteCtx} {hardCap : ℕ} {text src : Bytes}
    (hroom : ctx.Room hardCap (text.length + src.length + 1) text) (hcap : hardCap < sizeMax) :
    ∃ data data', writeAt (ctx.buf.getD []) ctx.len src = some data ∧
      sizeAdd ctx.len src.length = some (ctx.len + src.length) ∧
      writeAt data (ctx.len + src.length) [0] = some data' ∧
      FetchWriteCtx.Ok { ctx with buf := some data', len := ctx.len + src.length } hardCap
        (text ++ src) := by
  have hlen := hroom.len_eq
  have hblock := hroom.block
  have hneed := hroom.need_le
  have htop := hroom.allocCap_le
  obtain ⟨data, hwrite, hlength, hhead, hwritten⟩ :=
    @writeAt_eq (ctx.buf.getD []) src ctx.len (by omega)
  obtain ⟨data', hwrite', hlength', hhead', hnul⟩ :=
    @writeAt_eq data [0] (ctx.len + src.length) (by rw [List.length_singleton]; omega)
  refine ⟨data, data', hwrite, by rw [sizeAdd, if_pos (by omega)], hwrite', ?_⟩
  refine ⟨hroom.hardCap_eq, by show ctx.len + _ ≤ _; omega, htop, ?_, ?_, ?_⟩
  · show data'.length = ctx.allocCap
    omega
  · show ctx.len + src.length = (text ++ src).length
    rw [List.length_append, hlen]
  · show data'.take (ctx.len + src.length + 1) = text ++ src ++ [0]
    rw [List.length_singleton] at hnul
    rw [List.take_add, hnul, hhead', List.take_add, hhead, hwritten, hroom.text_eq]

/-- What one call does: nothing wraps, the text grows by the delivery or stays,
and the delivery is turned away for one of the two reasons only. -/
theorem fetchWriteCb_spec {ctx : FetchWriteCtx} {hardCap : ℕ} {text : Bytes}
    (hcap : hardCap < sizeMax) (hctx : ctx.Ok hardCap text) (d : Delivery) :
    ∃ ret ctx', fetchWriteCb h d ctx = some (ret, ctx') ∧
      ctx'.Ok hardCap (textAfter text d ret) ∧
      (ret ≠ d.count ↔ TurnedAway h d ctx ctx') ∧
      (ctx'.aborted = true ↔ ctx.aborted = true ∨ TurnedAway h d ctx ctx') := by
  have hlen := hctx.len_le
  have hhard := hctx.hardCap_eq
  -- a delivery of too many bytes has some, and is turned away as it stands
  have haway : hardCap < ctx.len + d.count →
      FetchWriteCtx.Ok { ctx with aborted := true } hardCap (textAfter text d 0) ∧
        (0 ≠ d.count ↔ TurnedAway h d ctx { ctx with aborted := true }) ∧
        (true = true ↔ ctx.aborted = true ∨ TurnedAway h d ctx { ctx with aborted := true }) := by
    intro hmany
    have hcount : d.count ≠ 0 := by omega
    have hreason : TurnedAway h d ctx { ctx with aborted := true } := .inl (by omega)
    rw [textAfter_zero hcount]
    exact ⟨hctx.abort, iff_of_true hcount.symm hreason, iff_of_true rfl (.inr hreason)⟩
  rw [fetchWriteCb]
  split
  · next hover =>
      have hmany := d.overflows_iff.mp hover
      exact ⟨0, _, rfl, haway (by omega)⟩
  · next hfits =>
      have hcount : d.count ≤ sizeMax := not_lt.mp fun hlt => hfits (d.overflows_iff.mpr hlt)
      have hmul : sizeMul d.size d.nmemb = some d.count := if_pos hcount
      simp only [Option.bind_eq_bind, hmul, Option.bind_some]
      split
      · next hzero =>
          have hquiet : ¬ TurnedAway h d ctx ctx := by
            rintro (hmany | hrefused)
            · omega
            · exact absurd hrefused.1 (Nat.lt_irrefl _)
          refine ⟨0, ctx, rfl, ?_, iff_of_false (by simp [hzero]) hquiet, ?_⟩
          · rw [textAfter, if_pos hzero.symm, Delivery.bytes, hzero, List.range_zero, List.map_nil,
              List.append_nil]
            exact hctx
          · exact (or_iff_left hquiet).symm
      · next hsome =>
          have hsub : sizeSub ctx.hardCap ctx.len = some (hardCap - ctx.len) := by
            rw [hhard, sizeSub, if_pos hlen]
          rw [hsub, Option.bind_some]
          split
          · next hmany => exact ⟨0, _, rfl, haway (by omega)⟩
          · next hroom =>
              have hneed : ctx.len + d.count + 1 ≤ hardCap + 1 := by omega
              have hfew : ¬ ctx.hardCap < ctx.len + d.count := by omega
              have hadd : sizeAdd ctx.len d.count = some (ctx.len + d.count) := if_pos (by omega)
              have hnul : sizeAdd (ctx.len + d.count) 1 = some (ctx.len + d.count + 1) :=
                if_pos (by omega)
              rw [hadd, Option.bind_some, hnul, Option.bind_some]
              obtain ⟨granted, ctx₁, hreserve, haborted, hgranted, hafter⟩ :=
                fetchReserve_spec h hcap hctx hneed
              rw [hreserve]
              cases granted with
              | false =>
                  rw [if_neg (by decide)] at hafter
                  have hreason : TurnedAway h d ctx { ctx₁ with aborted := true } :=
                    .inr (hgranted.mp rfl)
                  refine ⟨0, _, rfl, ?_, iff_of_true (Ne.symm hsome) hreason,
                    iff_of_true rfl (.inr hreason)⟩
                  rw [textAfter_zero hsome]
                  exact hafter.abort
              | true =>
                  rw [if_pos rfl, hctx.holds.1, ← d.bytes_length] at hafter
                  obtain ⟨data, data', hwrite, hsize, hwrite', hok⟩ := hafter.written hcap
                  rw [d.bytes_length] at hsize hwrite' hok
                  rw [Delivery.bytes] at hwrite
                  simp only [hwrite, hsize, Option.bind_some, hwrite']
                  have hquiet : ¬ TurnedAway h d ctx
                      { ctx₁ with buf := some data', len := ctx₁.len + d.count } := by
                    rintro (hmany | hrefused)
                    · exact hfew hmany
                    · exact Bool.noConfusion (hgranted.mpr hrefused)
                  refine ⟨d.count, _, rfl, ?_, iff_of_false (by simp) hquiet, ?_⟩
                  · rw [textAfter, if_pos rfl]
                    exact hok
                  · rw [or_iff_left hquiet]
                    exact iff_of_eq (congrArg (· = true) haborted)

theorem fetchWriteAll_ok {ctx : FetchWriteCtx} {hardCap : ℕ} {text : Bytes}
    (hcap : hardCap < sizeMax) (hctx : ctx.Ok hardCap text) (ds : List Delivery) :
    ∃ events ctx', fetchWriteAll h ds ctx = some (events, ctx') ∧
      events.map Prod.fst = ds ∧ ctx'.Ok hardCap (text ++ acceptedBytes events) := by
  induction ds generalizing ctx text with
  | nil => exact ⟨[], ctx, rfl, rfl, by rwa [acceptedBytes, List.flatMap_nil, List.append_nil]⟩
  | cons d ds ih =>
      obtain ⟨ret, ctx₁, hcall, hok, -, -⟩ := fetchWriteCb_spec h hcap hctx d
      obtain ⟨events, ctx₂, hall, hds, hend⟩ := ih hok
      refine ⟨(d, ret) :: events, ctx₂, ?_, by rw [List.map_cons, hds], ?_⟩
      · rw [fetchWriteAll, hcall]
        simp only [hall, Option.map_some]
      · rwa [textAfter, List.append_assoc] at hend

/-- At every point of every transfer the buffer is within its cap and holds
what was accepted; the next delivery is then turned away, and the transfer
aborted, exactly when it would exceed the cap or the memory for it is refused. -/
theorem fetchWriteCb_bounded {hardCap : ℕ} (hcap : hardCap < sizeMax) (allocs : ℕ)
    (ds : List Delivery) :
    ∃ events ctx, fetchWriteAll h ds (FetchWriteCtx.init hardCap allocs) = some (events, ctx) ∧
      events.map Prod.fst = ds ∧
      ctx.len ≤ hardCap ∧ ctx.allocCap ≤ hardCap + 1 ∧ ctx.Holds (acceptedBytes events) ∧
      ∀ d, ∃ ret ctx', fetchWriteCb h d ctx = some (ret, ctx') ∧
        (ret ≠ d.count ↔ TurnedAway h d ctx ctx') ∧
        (ctx'.aborted = true ↔ ctx.aborted = true ∨ TurnedAway h d ctx ctx') := by
  obtain ⟨events, ctx, hall, hds, hok⟩ :=
    fetchWriteAll_ok h hcap (FetchWriteCtx.init_ok hardCap allocs) ds
  refine ⟨events, ctx, hall, hds, hok.len_le, hok.allocCap_le, hok.holds, fun d => ?_⟩
  obtain ⟨ret, ctx', hcall, -, hret, habort⟩ := fetchWriteCb_spec h hcap hok d
  exact ⟨ret, ctx', hcall, hret, habort⟩

/-- Three bytes. -/
def threeBytes : Delivery := ⟨fun _ => 0x61, 3, 1, by decide, by decide⟩

/-- The second delivery is past a cap of four. -/
theorem fetchWriteCb_bounded_four :
    ∃ ctx, fetchWriteAll ⟨fun _ => false, fun _ _ => 0⟩ [threeBytes, threeBytes]
        (FetchWriteCtx.init 4 0) = some ([(threeBytes, 3), (threeBytes, 0)], ctx) ∧
      ctx.len ≤ 4 ∧ ctx.allocCap ≤ 5 ∧ ctx.Holds [0x61, 0x61, 0x61] := by
  have hrun : (fetchWriteAll ⟨fun _ => false, fun _ _ => 0⟩ [threeBytes, threeBytes]
      (FetchWriteCtx.init 4 0)).map Prod.fst = some [(threeBytes, 3), (threeBytes, 0)] := by
    rfl
  obtain ⟨events, ctx, hall, -, hlen, hcap, hholds, -⟩ :=
    fetchWriteCb_bounded ⟨fun _ => false, fun _ _ => 0⟩ (show 4 < sizeMax by decide) 0
      [threeBytes, threeBytes]
  rw [hall, Option.map_some, Option.some.injEq] at hrun
  cases hrun
  exact ⟨ctx, hall, hlen, hcap, hholds⟩

end Cytadel.Net
