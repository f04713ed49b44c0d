import Cytadel.Proofs.InstantGrammar
import Cytadel.Proofs.Watermark

/-!
# The windows of a catch-up

The loop of `cytadel_nvd_catchup` once more, now with a list of the windows
that it hands to `cytadel_nvd_sync_window`. They lie end to end from where the
run started, none is empty, none is longer than the run's window length and
none goes beyond the present. Every bound is written so that it is read back,
so a run that resumes starts where the last committed window ended.
-/

namespace Cytadel.Db

open Cytadel Lib

/-- A call of `cytadel_nvd_sync_window`, with the instants that its two texts
were written from, and the session it found. -/
structure WindowCall where
  start : Instant
  stop : Instant
  startDate : Bytes
  endDate : Bytes
  found : NvdSession
  result : NvdSyncResult

def WindowCall.committed (c : WindowCall) : Bool := c.result.status = .ok

/-- `catchupWindows`, with its calls. -/
def driveWindows (w : NetWorld) (cfg : FetchConfig) (now : Instant) (days : ℤ) :
    ℕ → Instant → NvdCatchupCounts → NvdSession → List WindowCall × NvdCatchupResult
  | 0, cursor, out, s =>
      if cursor.before now then ([], ⟨.errTooManyWindows, out, s⟩) else ([], ⟨.ok, out, s⟩)
  | windows + 1, cursor, out, s =>
      if !cursor.before now then ([], ⟨.ok, out, s⟩)
      else
        match formatInstant cursor with
        | none => ([], ⟨.errMalformedWatermark, out, s⟩)
        | some startBuf =>
            let candidateEnd := cursor.addDays days
            let windowEnd := if candidateEnd.before now then candidateEnd else now
            match formatInstant windowEnd with
            | none => ([], ⟨.errMalformedWatermark, out, s⟩)
            | some endBuf =>
                let window := nvdSyncWindow w cfg (some startBuf) endBuf 0 s
                let call : WindowCall := ⟨cursor, windowEnd, startBuf, endBuf, s, window⟩
                if window.status ≠ .ok then ([call], ⟨.errSync, out, window.session⟩)
                else
                  let rest := driveWindows w cfg now days windows windowEnd
                    (out.addWindow window.counts) window.session
                  (call :: rest.1, rest.2)

/-- `nvdCatchup`, with its calls. -/
def driveCatchup (w : NetWorld) (cfg : FetchConfig) (nowIso8601 : Bytes) (s : NvdSession) :
    List WindowCall × NvdCatchupResult :=
  match parseInstant nowIso8601 with
  | none => ([], ⟨.errInvalidArg, .zero, s⟩)
  | some now =>
      let rd := readWatermark.run w.env s
      match rd.1 with
      | none => ([], ⟨.errDb, .zero, rd.2⟩)
      | some watermark =>
          match startingCursor watermark with
          | none => ([], ⟨.errMalformedWatermark, .zero, rd.2⟩)
          | some (cursor, days) => driveWindows w cfg now days maxWindows cursor .zero rd.2

theorem driveWindows_result (w : NetWorld) (cfg : FetchConfig) (now : Instant) (days : ℤ)
    (fuel : ℕ) (cursor : Instant) (out : NvdCatchupCounts) (s : NvdSession) :
    (driveWindows w cfg now days fuel cursor out s).2 =
      catchupWindows w cfg now days fuel cursor out s := by
  induction fuel generalizing cursor out s with
  | zero =>
      rw [driveWindows, catchupWindows]
      split <;> rfl
  | succ fuel ih =>
      rw [driveWindows, catchupWindows]
      split
      · rfl
      · cases formatInstant cursor with
        | none => rfl
        | some startBuf =>
            dsimp only
            generalize (if (cursor.addDays days).before now then cursor.addDays days
              else now) = stop
            cases formatInstant stop with
            | none => rfl
            | some endBuf =>
                dsimp only
                split
                · rfl
                · exact ih stop _ _

/-- Keeping the list changes nothing of the run. -/
theorem driveCatchup_result (w : NetWorld) (cfg : FetchConfig) (nowIso8601 : Bytes)
    (s : NvdSession) : (driveCatchup w cfg nowIso8601 s).2 = nvdCatchup w cfg nowIso8601 s := by
  simp only [driveCatchup, nvdCatchup]
  cases parseInstant nowIso8601 with
  | none => rfl
  | some now =>
      cases (readWatermark.run w.env s).1 with
      | none => rfl
      | some watermark =>
          dsimp only
          cases startingCursor watermark with
          | none => rfl
          | some start => exact driveWindows_result w cfg now _ _ _ _ _

/-! ## Instants between two that were read -/

theorem Instant.before_trans_days {i j : Instant} (h : i.before j = true) : i.days ≤ j.days := by
  rw [Instant.before] at h
  split at h
  · exact Int.le_of_lt (of_decide_eq_true h)
  · next heq => exact Int.le_of_eq (not_not.mp heq)

theorem Civil.Before.year_le {c e : Civil} (hc : c.Gregorian) (he : e.Gregorian)
    (h : c.Before e) : c.y ≤ e.y := by
  have hlex := h.lex hc he
  rw [Civil.Lex] at hlex
  omega

theorem civilFromDays_year_le {z z' : ℤ} (h : z ≤ z') :
    (civilFromDays z).y ≤ (civilFromDays z').y := by
  rcases Int.lt_or_eq_of_le h with hlt | rfl
  · exact (civilFromDays_before hlt).year_le (civilFromDays_gregorian _) (civilFromDays_gregorian _)
  · exact Int.le_refl _

/-- A window that starts at an instant that can be written, and ends no later
than the present, ends at one that can be written. -/
theorem Instant.Parsed.windowEnd {cursor now : Instant} {days : ℤ} (hcursor : cursor.Parsed)
    (hnow : now.Parsed) (hdays : 0 < days) :
    (if (cursor.addDays days).before now then cursor.addDays days else now).Parsed := by
  split
  · next hlt =>
      have hup := civilFromDays_year_le (Instant.before_trans_days hlt)
      have hdown := civilFromDays_year_le (show cursor.days ≤ (cursor.addDays days).days by
        show cursor.days ≤ cursor.days + days
        omega)
      have hc := hcursor.year
      have hn := hnow.year
      exact ⟨⟨by omega, by omega⟩, hcursor.ms⟩
  · exact hnow

/-! ## What the loop drives -/

/-- One window: not empty, not longer than so many days, not beyond the
present, and handed over as texts of its two bounds. -/
structure WindowCall.Fits (w : NetWorld) (cfg : FetchConfig) (now : Instant) (days : ℤ)
    (c : WindowCall) : Prop where
  forward : c.start.before c.stop = true
  bounded : (c.start.addDays days).before c.stop = false
  present : now.before c.stop = false
  startDate : formatInstant c.start = some c.startDate ∧ parseInstant c.startDate = some c.start
  endDate : formatInstant c.stop = some c.endDate ∧ parseInstant c.endDate = some c.stop
  driven : c.result = nvdSyncWindow w cfg (some c.startDate) c.endDate 0 c.found

/-- The watermark behind the windows: the end of the last one that was
committed. -/
def watermarkAfter (before : Option (Option Bytes)) (calls : List WindowCall) :
    Option (Option Bytes) :=
  ((calls.filter (·.committed)).getLast?).elim before fun c => some (some c.endDate)

/-- The windows of a run, and how the run ended behind them. -/
structure Driven (w : NetWorld) (cfg : FetchConfig) (now start : Instant) (days : ℤ) (cap : ℕ)
    (s : NvdSession) (calls : List WindowCall) (r : NvdCatchupResult) : Prop where
  contiguous : ∃ last, Steps (fun (c : WindowCall) a b => c.start = a ∧ c.stop = b) calls start last
  fits : ∀ c ∈ calls, c.Fits w cfg now days
  capped : calls.length ≤ cap
  none_iff : calls = [] ↔ start.before now = false ∨ cap = 0
  inner : ∀ k, k + 1 < calls.length → ∀ c, calls[k]? = some c → c.committed = true
  ok_iff : r.status = .ok ↔ (calls = [] ∧ start.before now = false) ∨
    ∃ c, calls.getLast? = some c ∧ c.stop = now ∧ c.committed = true
  watermark : r.session.committed.watermark = watermarkAfter s.committed.watermark calls

section

variable {w : NetWorld} {cfg : FetchConfig} {now start : Instant} {days : ℤ} {cap : ℕ}
  {s : NvdSession} {r : NvdCatchupResult}

/-- No window is driven. -/
theorem Driven.idle (hnone : start.before now = false ∨ cap = 0)
    (hok : r.status = .ok ↔ start.before now = false) (hsession : r.session = s) :
    Driven w cfg now start days cap s [] r where
  contiguous := ⟨start, .nil _⟩
  fits c h := by cases h
  capped := Nat.zero_le _
  none_iff := by simpa using hnone
  inner k h := by cases h
  ok_iff := by simpa using hok
  watermark := by
    rw [hsession]
    rfl

/-- The window fails, and is the last one. -/
theorem Driven.failed {c : WindowCall} (hlt : start.before now = true)
    (hfits : c.Fits w cfg now days) (hstart : c.start = start) (hfail : c.committed = false)
    (hstatus : r.status ≠ .ok)
    (hwatermark : r.session.committed.watermark = s.committed.watermark) :
    Driven w cfg now start days (cap + 1) s [c] r where
  contiguous := ⟨c.stop, .cons ⟨hstart, rfl⟩ (.nil _)⟩
  fits c' h := by
    obtain rfl := List.mem_singleton.mp h
    exact hfits
  capped := by simp
  none_iff := by simp [hlt]
  inner k h := by
    simp at h
  ok_iff := by simp [hstatus, hfail]
  watermark := by
    rw [hwatermark, watermarkAfter, List.filter_cons_of_neg (by simp [hfail])]
    rfl

/-- The window is committed, and the loop goes on behind it. -/
theorem Driven.cons {c : WindowCall} {calls : List WindowCall} (hlt : start.before now = true)
    (hfits : c.Fits w cfg now days) (hstart : c.start = start) (hc : c.committed = true)
    (hend : c.stop.before now = false → c.stop = now)
    (hwatermark : c.result.session.committed.watermark = some (some c.endDate))
    (h : Driven w cfg now c.stop days cap c.result.session calls r) :
    Driven w cfg now start days (cap + 1) s (c :: calls) r where
  contiguous := by
    obtain ⟨last, hlast⟩ := h.contiguous
    exact ⟨last, .cons ⟨hstart, rfl⟩ hlast⟩
  fits := by
    rw [List.forall_mem_cons]
    exact ⟨hfits, h.fits⟩
  capped := Nat.succ_le_succ h.capped
  none_iff := by simp [hlt]
  inner k hk c' hc' := by
    cases k with
    | zero =>
        obtain rfl : c = c' := by simpa using hc'
        exact hc
    | succ k =>
        exact h.inner k (Nat.lt_of_succ_lt_succ hk) c' hc'
  ok_iff := by
    rw [h.ok_iff]
    cases calls with
    | nil =>
        have hnow : c.stop.before now = false ↔ c.stop = now := by
          refine ⟨hend, fun heq => ?_⟩
          rw [heq, Instant.before]
          simp
        simp [hnow, hc]
    | cons c' calls =>
        rw [List.getLast?_cons_cons]
        simp
  watermark := by
    rw [h.watermark, hwatermark, watermarkAfter, watermarkAfter, List.filter_cons_of_pos hc]
    cases hcalls : calls.filter (·.committed) with
    | nil => rfl
    | cons c' rest => rfl

end

theorem Instant.before_irrefl (i : Instant) : i.before i = false := by
  simp [Instant.before]

theorem Instant.before_asymm {i j : Instant} (h : i.before j = true) : j.before i = false := by
  simp only [Instant.before] at h ⊢
  split_ifs at h ⊢ <;> simp only [decide_eq_true_eq, decide_eq_false_iff_not] at h ⊢ <;> omega

/-- The loop, from a cursor that can be written. -/
theorem driveWindows_driven (w : NetWorld) (cfg : FetchConfig) {now : Instant} {days : ℤ}
    (hnow : now.Parsed) (hdays : 0 < days) (cap : ℕ) (cursor : Instant) (out : NvdCatchupCounts)
    (s : NvdSession) (hcursor : cursor.Parsed)
    (hcur : s.txn = none → cursorOf s.committed.watermark = some cursor) :
    Driven w cfg now cursor days cap s (driveWindows w cfg now days cap cursor out s).1
      (driveWindows w cfg now days cap cursor out s).2 := by
  induction cap generalizing cursor out s with
  | zero =>
      rw [driveWindows]
      split
      · next hlt => exact .idle (.inr rfl) (by simp [hlt]) rfl
      · next hge => exact .idle (.inr rfl) (by simpa using hge) rfl
  | succ cap ih =>
      rw [driveWindows]
      split
      · next hge =>
          rw [Bool.not_eq_true'] at hge
          exact .idle (.inl hge) (by simp [hge]) rfl
      next hlt =>
      rw [Bool.not_eq_true', Bool.not_eq_false] at hlt
      have hstop := hcursor.windowEnd hnow hdays
      have hstart := hcursor.formatInstant_eq
      have hstart' := parseInstant_formatInstant hstart
      obtain ⟨stop, hwindow⟩ : ∃ stop, stop =
        (if (cursor.addDays days).before now then cursor.addDays days else now) := ⟨_, rfl⟩
      have hforward : cursor.before stop = true := by
        rw [hwindow]
        split
        · exact Instant.before_addDays hdays
        · exact hlt
      have hbounded : (cursor.addDays days).before stop = false := by
        rw [hwindow]
        split
        · exact Instant.before_irrefl _
        · next hge => simpa using hge
      have hpresent : now.before stop = false := by
        rw [hwindow]
        split
        · next hlt => exact Instant.before_asymm hlt
        · exact Instant.before_irrefl _
      have hend : stop.before now = false → stop = now := by
        rw [hwindow]
        split
        · next hlt => exact fun hge => absurd hlt (by simp [hge])
        · exact fun _ => rfl
      rw [← hwindow] at hstop
      have hdate := hstop.formatInstant_eq
      have hdate' := parseInstant_formatInstant hdate
      generalize hcursor.isoTime.text = startDate at hstart hstart'
      generalize hstop.isoTime.text = endDate at hdate hdate'
      obtain ⟨pages, failed, htrace⟩ :=
        nvdSyncWindow_trace w cfg (some startDate) endDate 0 s
      have hcursor' := @SyncTrace.moved ⟨w, cfg, [], false⟩ _ _ _ _ _ _ _ htrace hcur
      simp only [hstart, ← hwindow, hdate]
      have hfits : WindowCall.Fits w cfg now days ⟨cursor, stop, startDate, endDate, s,
          nvdSyncWindow w cfg (some startDate) endDate 0 s⟩ :=
        ⟨hforward, hbounded, hpresent, ⟨hstart, hstart'⟩, ⟨hdate, hdate'⟩, rfl⟩
      by_cases hok : (nvdSyncWindow w cfg (some startDate) endDate 0 s).status = .ok
      · rw [if_neg (not_not.mpr hok)]
        -- the next window starts where the watermark now is
        have hmoved := (hcursor' hok).2
        have hnext := cursorOf_formatInstant hdate
        rw [← hmoved] at hnext
        exact .cons hlt hfits rfl (by simpa [WindowCall.committed] using hok) hend hmoved
          (ih stop _ _ hstop fun _ => hnext)
      · rw [if_pos hok]
        refine .failed hlt hfits rfl (by simpa [WindowCall.committed] using hok)
          (fun h => by cases h) ?_
        show (nvdSyncWindow w cfg (some startDate) endDate 0 s).session.committed.watermark = _
        rw [htrace.watermark, if_neg hok]

/-- The watermark behind a run is where the next one starts. -/
theorem startingCursor_watermark {calls : List WindowCall} {c : WindowCall}
    {before : Option (Option Bytes)} {w : NetWorld} {s : NvdSession} {watermark : Option Bytes}
    (hlast : (calls.filter (·.committed)).getLast? = some c)
    (hdate : formatInstant c.stop = some c.endDate)
    (hwatermark : s.committed.watermark = watermarkAfter before calls)
    (hread : (readWatermark.run w.env s.reopen).1 = some watermark) :
    startingCursor watermark = some (c.stop, windowDays) := by
  have hseen := (readWatermark_run w.env s.reopen).2 watermark hread
  have hview : s.reopen.view = s.committed := rfl
  rw [hview, hwatermark, watermarkAfter, hlast, Option.elim_some, Option.map_some,
    Option.some.injEq, presentWatermark_formatInstant hdate] at hseen
  rw [← hseen, startingCursor, parseInstant_formatInstant hdate, Option.map_some]

/-- The instant a run starts at was read from a text. -/
theorem startingCursor_parsed {watermark : Option Bytes} {start : Instant} {days : ℤ}
    (h : startingCursor watermark = some (start, days)) : start.Parsed := by
  cases watermark with
  | none =>
      rw [startingCursor] at h
      obtain ⟨i, hi, heq⟩ := Option.map_eq_some_iff.mp h
      obtain ⟨rfl, -⟩ := Prod.mk.inj heq
      exact parseInstant_parsed hi
  | some b =>
      rw [startingCursor] at h
      obtain ⟨i, hi, heq⟩ := Option.map_eq_some_iff.mp h
      obtain ⟨rfl, -⟩ := Prod.mk.inj heq
      exact parseInstant_parsed hi

/-- The windows of a run that starts at an instant, with what `Driven` says of
them; and a run that finds the watermark behind this one starts at the end of
the last window that this one committed. -/
theorem catchup_tiles {w : NetWorld} {cfg : FetchConfig} {nowIso8601 : Bytes} {s : NvdSession}
    {now start : Instant} {watermark : Option Bytes} {days : ℤ}
    (hnow : parseInstant nowIso8601 = some now)
    (hread : (readWatermark.run w.env s).1 = some watermark)
    (hstart : startingCursor watermark = some (start, days)) :
    ∃ calls, driveCatchup w cfg nowIso8601 s = (calls, nvdCatchup w cfg nowIso8601 s) ∧
      Driven w cfg now start days maxWindows s calls (nvdCatchup w cfg nowIso8601 s) ∧
      (calls = [] ↔ start.before now = false) ∧
      ((nvdCatchup w cfg nowIso8601 s).status = .ok ∧ calls ≠ [] ↔
        ∃ c, calls.getLast? = some c ∧ c.stop = now ∧ c.committed = true) ∧
      ∀ c, (calls.filter (·.committed)).getLast? = some c → ∀ (w' : NetWorld) watermark',
        (readWatermark.run w'.env (nvdCatchup w cfg nowIso8601 s).session.reopen).1 =
          some watermark' → startingCursor watermark' = some (c.stop, windowDays) := by
  obtain ⟨⟨n, hsession⟩, hseen⟩ := readWatermark_run w.env s
  have hcur := cursorOf_startingCursor (hseen watermark hread) hstart
  have hrun : driveCatchup w cfg nowIso8601 s =
      driveWindows w cfg now days maxWindows start .zero { s with calls := n } := by
    simp only [driveCatchup, hnow, hread, hstart, hsession]
  have hdriven := driveWindows_driven w cfg (parseInstant_parsed hnow) (startingCursor_days hstart)
    maxWindows start .zero { s with calls := n } (startingCursor_parsed hstart) hcur
  rw [← hrun, driveCatchup_result] at hdriven
  refine ⟨(driveCatchup w cfg nowIso8601 s).1, ?_, ⟨hdriven.contiguous, hdriven.fits,
    hdriven.capped, hdriven.none_iff, hdriven.inner, hdriven.ok_iff, hdriven.watermark⟩, ?_, ?_, ?_⟩
  · rw [← driveCatchup_result]
  · rw [hdriven.none_iff]
    simp [maxWindows]
  · rw [hdriven.ok_iff]
    constructor
    · rintro ⟨⟨hnil, -⟩ | hlast, hne⟩
      · exact absurd hnil hne
      · exact hlast
    · rintro ⟨c, hlast, hc⟩
      refine ⟨.inr ⟨c, hlast, hc⟩, ?_⟩
      intro hnil
      rw [hnil] at hlast
      cases hlast
  · intro c hlast w' watermark' hread'
    have hmem : c ∈ (driveCatchup w cfg nowIso8601 s).1 :=
      List.mem_of_mem_filter (List.mem_of_getLast? hlast)
    exact startingCursor_watermark hlast (hdriven.fits c hmem).endDate.1 hdriven.watermark hread'

theorem catchup_tiles_bulk :
    ∃ calls, driveCatchup emptyServer ⟨2000⟩ (ascii "1999-03-01") Tables.seeded.connect =
        (calls, nvdCatchup emptyServer ⟨2000⟩ (ascii "1999-03-01") Tables.seeded.connect) ∧
      ∃ c, calls.getLast? = some c ∧ c.stop = ⟨10651, 0⟩ ∧ c.committed = true := by
  obtain ⟨calls, hrun, -, hnone, hreached, -⟩ :=
    @catchup_tiles emptyServer ⟨2000⟩ (ascii "1999-03-01") Tables.seeded.connect ⟨10651, 0⟩
      ⟨10592, 0⟩ none 30 (by decide) (by decide) (by decide)
  have hok : (nvdCatchup emptyServer ⟨2000⟩ (ascii "1999-03-01") Tables.seeded.connect).status =
      .ok := by decide +kernel
  have hne : calls ≠ [] := fun hnil => absurd (hnone.mp hnil) (by decide)
  exact ⟨calls, hrun, hreached.mp ⟨hok, hne⟩⟩

/-- A server that answers nothing. -/
def deadServer : NetWorld where
  toWorld := .reading []
  fetch _ _ := none

/-- The last window ends at the present, and the run fails with it. -/
theorem failed_window_ends_now :
    ∃ c, (driveCatchup deadServer ⟨2000⟩ (ascii "1999-01-15") Tables.seeded.connect).1.getLast? =
        some c ∧ parseInstant (ascii "1999-01-15") = some c.stop ∧
      (nvdCatchup deadServer ⟨2000⟩ (ascii "1999-01-15") Tables.seeded.connect).status =
        .errSync := by
  have hstop : ((driveCatchup deadServer ⟨2000⟩ (ascii "1999-01-15")
      Tables.seeded.connect).1.getLast?).map (·.stop) = some ⟨10606, 0⟩ := by decide +kernel
  obtain ⟨c, hc, hend⟩ := Option.map_eq_some_iff.mp hstop
  refine ⟨c, hc, ?_, by decide +kernel⟩
  rw [hend]
  decide

end Cytadel.Db
