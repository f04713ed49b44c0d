import Cytadel.Db.NvdCatchup
import Cytadel.Lib.Writes
import Cytadel.Proofs.InstantRoundTrip
import Cytadel.Proofs.WindowTrace

/-!
# The watermark is the end of what has been committed

A catch-up can be stopped at any call, and the next one starts from the
watermark alone. Over any sequence of runs the log falls into the traces of
windows; the ones that came to their end lie end to end from where the first
run started, and the watermark is where the last of them ends.
-/

namespace Cytadel.Db

open Cytadel Lib

/-! ## The cursor -/

/-- The instant from which a run starts, by the watermark it finds. -/
def cursorOf (watermark : Option (Option Bytes)) : Option Instant :=
  (watermark.bind fun column => startingCursor (presentWatermark column)).map (·.1)

theorem presentWatermark_formatInstant {i : Instant} {b : Bytes} (h : formatInstant i = some b) :
    presentWatermark (some b) = some b := by
  have hne : b ≠ [] := by
    rintro rfl
    cases formatInstant_length h
  rw [presentWatermark, Option.map_some, clipInto_formatInstant h]
  simp [Option.filter, hne]

/-- A run that finds what another one wrote starts where that one ended. -/
theorem cursorOf_formatInstant {i : Instant} {b : Bytes} (h : formatInstant i = some b) :
    cursorOf (some (some b)) = some i := by
  simp only [cursorOf, Option.bind_some, presentWatermark_formatInstant h, startingCursor,
    parseInstant_formatInstant h, Option.map_some]

/-- Where a window can be committed there is a row for the feed. -/
theorem cursorOf_map {watermark : Option (Option Bytes)} {i : Instant} (column : Option Bytes)
    (h : cursorOf watermark = some i) : watermark.map (fun _ => column) = some column := by
  cases watermark with
  | none => cases h
  | some old => rfl

theorem Instant.before_addDays {i : Instant} {n : ℤ} (hn : 0 < n) :
    i.before (i.addDays n) = true := by
  have hlt : i.days < (i.addDays n).days := by
    simp only [Instant.addDays]
    omega
  rw [Instant.before, if_pos (by omega)]
  exact decide_eq_true hlt

theorem startingCursor_days {watermark : Option Bytes} {cursor : Instant} {days : ℤ}
    (h : startingCursor watermark = some (cursor, days)) : 0 < days := by
  have hdays : days = windowDays ∨ days = bulkWindowDays := by
    cases watermark with
    | none =>
        rw [startingCursor] at h
        obtain ⟨i, -, heq⟩ := Option.map_eq_some_iff.mp h
        exact Or.inr (congrArg Prod.snd heq).symm
    | some b =>
        rw [startingCursor] at h
        obtain ⟨i, -, heq⟩ := Option.map_eq_some_iff.mp h
        exact Or.inl (congrArg Prod.snd heq).symm
  obtain rfl | rfl := hdays <;> decide

/-! ## Traces of windows -/

/-- One run, on the connection that is there or on a new one. -/
structure CatchupRun where
  world : NetWorld
  cfg : FetchConfig
  now : Bytes
  reopened : Bool

/-- What a window has left in the log: its commits, and a page that it handed
over without a commit. -/
structure WindowTrace where
  start : Instant
  stop : Instant
  pages : List PageTrace
  failed : Option PageNote

namespace WindowTrace

def events (t : WindowTrace) : List (Event Tables PageNote) :=
  t.pages.flatMap PageTrace.events ++ t.failed.toList.map .note

/-- Its last page has been committed. -/
def finished (t : WindowTrace) : Bool := t.pages.any (·.note.isLast)

/-- The pages of a window are committed in the order of their indices, and
none of them moves the watermark but the last, when all the pages up to its
total are there. -/
structure Sound (run : CatchupRun) (t : WindowTrace) : Prop where
  forward : t.start.before t.stop = true
  page : ∀ k (p : PageTrace), t.pages[k]? = some p → ∃ startDate endDate,
    formatInstant t.start = some startDate ∧ formatInstant t.stop = some endDate ∧
    p.At run.world run.cfg (some startDate) endDate (k * run.cfg.perPage)
  cursor : ∀ p ∈ t.pages, cursorOf p.before.watermark = some t.start
  watermark : ∀ p ∈ t.pages, p.after.watermark =
    if p.note.isLast then some (formatInstant t.stop) else p.before.watermark
  complete : ∀ p ∈ t.pages, p.note.isLast = true → t.pages.getLast? = some p ∧
    ∀ k, k * run.cfg.perPage < p.note.totalResults → k < t.pages.length
  closed : t.finished = true → t.failed = none

end WindowTrace

/-- Windows end to end, from where a watermark lets a run start to the one
that is there behind them. -/
def Tiles (before : Option (Option Bytes)) (ts : List WindowTrace)
    (after : Option (Option Bytes)) : Prop :=
  (ts = [] ∧ after = before) ∨
  (ts ≠ [] ∧ ∃ first last endDate, cursorOf before = some first ∧
    Steps (fun t a b => t.start = a ∧ t.stop = b) ts first last ∧
    formatInstant last = some endDate ∧ after = some (some endDate))

theorem Tiles.trans {a b c : Option (Option Bytes)} {ts ts' : List WindowTrace}
    (h : Tiles a ts b) (h' : Tiles b ts' c) : Tiles a (ts ++ ts') c := by
  obtain ⟨rfl, rfl⟩ | ⟨hne, first, mid, midDate, hfirst, hsteps, hmid, rfl⟩ := h
  · exact h'
  · obtain ⟨rfl, rfl⟩ | ⟨-, first', last, endDate, hfirst', hsteps', hlast, rfl⟩ := h'
    · rw [List.append_nil]
      exact Or.inr ⟨hne, first, mid, midDate, hfirst, hsteps, hmid, rfl⟩
    · rw [cursorOf_formatInstant hmid] at hfirst'
      obtain ⟨rfl⟩ := hfirst'
      exact Or.inr ⟨by simp [hne], first, last, endDate, hfirst, hsteps.append hsteps', hlast, rfl⟩

/-! ## Traces of runs -/

/-- The history of the database from one session to another. -/
structure RunTrace (runs : List CatchupRun) (s s' : NvdSession) (ts : List WindowTrace) :
    Prop where
  log : s'.log = s.log ++ ts.flatMap WindowTrace.events
  chained : Chained (ts.flatMap (·.pages)) s.committed s'.committed
  sound : ∀ t ∈ ts, ∃ run ∈ runs, t.Sound run
  tiles : Tiles s.committed.watermark (ts.filter (·.finished)) s'.committed.watermark

namespace RunTrace

variable {runs runs' : List CatchupRun} {s s' s'' : NvdSession} {ts ts' : List WindowTrace}

/-- Nothing durable has changed. -/
theorem idle (hcom : s'.committed = s.committed) (hlog : s'.log = s.log) :
    RunTrace runs s s' [] where
  log := by rw [hlog, List.flatMap_nil, List.append_nil]
  chained := by
    rw [hcom]
    exact .nil _
  sound t h := by simp at h
  tiles := Or.inl ⟨rfl, by rw [hcom]⟩

theorem trans (h : RunTrace runs s s' ts) (h' : RunTrace runs s' s'' ts') :
    RunTrace runs s s'' (ts ++ ts') where
  log := by rw [h'.log, h.log, List.flatMap_append, List.append_assoc]
  chained := by
    rw [List.flatMap_append]
    exact h.chained.append h'.chained
  sound t ht := by
    obtain ht | ht := List.mem_append.mp ht
    · exact h.sound t ht
    · exact h'.sound t ht
  tiles := by
    rw [List.filter_append]
    exact h.tiles.trans h'.tiles

theorem mono (hsub : runs ⊆ runs') (h : RunTrace runs s s' ts) : RunTrace runs' s s' ts :=
  { h with
    sound := fun t ht => by
      obtain ⟨run, hrun, hsound⟩ := h.sound t ht
      exact ⟨run, hsub hrun, hsound⟩ }

end RunTrace

/-! ## One window -/

variable {run : CatchupRun} {start stop : Instant} {startDate endDate : Bytes} {s : NvdSession}
  {r : NvdSyncResult} {pages : List PageTrace} {failed : Option PageNote}

/-- The watermark that the pages of a window find. -/
theorem SyncTrace.cursor
    (h : SyncTrace run.world run.cfg (some startDate) endDate 0 s r pages failed)
    (hcur : s.txn = none → cursorOf s.committed.watermark = some start)
    {p : PageTrace} (hp : p ∈ pages) : cursorOf p.before.watermark = some start := by
  rw [h.before p hp]
  exact hcur (h.opened (List.ne_nil_of_mem hp))

/-- The trace of a window is sound. -/
theorem SyncTrace.sound
    (h : SyncTrace run.world run.cfg (some startDate) endDate 0 s r pages failed)
    (hcur : s.txn = none → cursorOf s.committed.watermark = some start)
    (hstart : formatInstant start = some startDate) (hstop : formatInstant stop = some endDate)
    (hlt : start.before stop = true) :
    (⟨start, stop, pages, failed⟩ : WindowTrace).Sound run := by
  have hpage : ∀ k (p : PageTrace), pages[k]? = some p →
      p.At run.world run.cfg (some startDate) endDate (k * run.cfg.perPage) := by
    intro k p hk
    simpa using h.page k p hk
  refine ⟨hlt, fun k p hk => ⟨startDate, endDate, hstart, hstop, hpage k p hk⟩,
    fun p hp => h.cursor hcur hp, ?_, ?_, fun hfin => (h.closed (h.finished.mpr hfin)).1⟩
  · intro p hp
    obtain ⟨k, hk⟩ := List.mem_iff_getElem?.mp hp
    rw [(hpage k p hk).watermark, hstop, cursorOf_map _ (h.cursor hcur hp)]
  · intro p hp hlast
    refine ⟨?_, fun j hj => h.exhausted hp hlast hj⟩
    obtain ⟨k, hk⟩ := List.mem_iff_getElem?.mp hp
    rw [List.getLast?_eq_getElem?, ← hk, ← h.inner k p hk hlast]
    rfl

/-- A window that came to its end has found the cursor at its start and has
moved the watermark to its end. -/
theorem SyncTrace.moved
    (h : SyncTrace run.world run.cfg (some startDate) endDate 0 s r pages failed)
    (hcur : s.txn = none → cursorOf s.committed.watermark = some start) (hok : r.status = .ok) :
    cursorOf s.committed.watermark = some start ∧
      r.session.committed.watermark = some (some endDate) := by
  have hne : pages ≠ [] := by
    rintro rfl
    cases h.finished.mp hok
  have hfirst := hcur (h.opened hne)
  exact ⟨hfirst, by rw [h.watermark, if_pos hok, cursorOf_map _ hfirst]⟩

/-- Such a window is one more tile; one that stopped leaves the watermark
alone. -/
theorem SyncTrace.tiles
    (h : SyncTrace run.world run.cfg (some startDate) endDate 0 s r pages failed)
    (hcur : s.txn = none → cursorOf s.committed.watermark = some start)
    (hstop : formatInstant stop = some endDate) :
    Tiles s.committed.watermark
      (([⟨start, stop, pages, failed⟩] : List WindowTrace).filter (·.finished))
      r.session.committed.watermark := by
  by_cases hok : r.status = .ok
  · have hfin : (⟨start, stop, pages, failed⟩ : WindowTrace).finished = true := h.finished.mp hok
    obtain ⟨hfirst, hwm⟩ := h.moved hcur hok
    rw [List.filter_cons_of_pos hfin]
    exact Or.inr ⟨by simp, start, stop, endDate, hfirst, .cons ⟨rfl, rfl⟩ (.nil _), hstop, hwm⟩
  · have hfin : ¬ (⟨start, stop, pages, failed⟩ : WindowTrace).finished = true :=
      fun hfin => hok (h.finished.mpr hfin)
    rw [h.watermark, if_neg hok, List.filter_cons_of_neg hfin]
    exact Or.inl ⟨rfl, rfl⟩

theorem SyncTrace.runTrace
    (h : SyncTrace run.world run.cfg (some startDate) endDate 0 s r pages failed)
    (hcur : s.txn = none → cursorOf s.committed.watermark = some start)
    (hstart : formatInstant start = some startDate) (hstop : formatInstant stop = some endDate)
    (hlt : start.before stop = true) :
    RunTrace [run] s r.session [⟨start, stop, pages, failed⟩] where
  log := by simpa [WindowTrace.events] using h.log
  chained := by simpa using h.chained
  sound t ht := by
    obtain rfl := List.mem_singleton.mp ht
    exact ⟨run, List.mem_singleton_self run, h.sound hcur hstart hstop hlt⟩
  tiles := h.tiles hcur hstop

/-! ## One run and many -/

/-- The window loop. The cursor is the watermark as long as no transaction was
left open; behind one nothing can be committed. -/
theorem catchupWindows_trace (run : CatchupRun) (now : Instant) {days : ℤ} (hdays : 0 < days)
    (fuel : ℕ) (cursor : Instant) (out : NvdCatchupCounts) (s : NvdSession)
    (hcur : s.txn = none → cursorOf s.committed.watermark = some cursor) :
    ∃ ts, RunTrace [run] s
      (catchupWindows run.world run.cfg now days fuel cursor out s).session ts := by
  induction fuel generalizing cursor out s with
  | zero =>
      rw [catchupWindows]
      split <;> exact ⟨[], .idle rfl rfl⟩
  | succ fuel ih =>
      rw [catchupWindows]
      split
      · exact ⟨[], .idle rfl rfl⟩
      next hlt =>
      simp only [Bool.not_eq_true', Bool.not_eq_false] at hlt
      cases hstart : formatInstant cursor with
      | none => exact ⟨[], .idle rfl rfl⟩
      | some startDate =>
          simp only
          generalize hwindow : (if (cursor.addDays days).before now then cursor.addDays days
            else now) = stop
          have hforward : cursor.before stop = true := by
            rw [← hwindow]
            split
            · exact Instant.before_addDays hdays
            · exact hlt
          cases hstop : formatInstant stop with
          | none => exact ⟨[], .idle rfl rfl⟩
          | some endDate =>
              obtain ⟨pages, failed, htrace⟩ :=
                nvdSyncWindow_trace run.world run.cfg (some startDate) endDate 0 s
              have hone := htrace.runTrace hcur hstart hstop hforward
              simp only
              split
              · exact ⟨_, hone⟩
              · next hok =>
                  rw [not_not] at hok
                  -- the next window starts where the watermark now is
                  have hnext := cursorOf_formatInstant hstop
                  rw [← (htrace.moved hcur hok).2] at hnext
                  obtain ⟨ts, hrest⟩ := ih stop _ _ fun _ => hnext
                  exact ⟨_, hone.trans hrest⟩

theorem readWatermark_writes : readWatermark.Writes fun _ _ => False := by
  refine Prog.Writes.bind (Prog.attempt_writes _) fun prepared => ?_
  cases prepared
  · trivial
  refine Prog.Writes.bind (Prog.attempt_writes _) fun bound => ?_
  cases bound
  · trivial
  refine Prog.Writes.bind (Prog.select_writes _ _) fun row => ?_
  match row with
  | none => trivial
  | some none => trivial
  | some (some st) => trivial

/-- What is read is the watermark of the tables, where nothing fails. -/
theorem readWatermark_eval {env : Env Call Bytes} {x : ℕ × Tables} {watermark : Option Bytes}
    (h : (readWatermark.eval env x).1 = some watermark) :
    x.2.watermark.map presentWatermark = some watermark := by
  rw [readWatermark, Prog.eval_bind, Prog.eval_attempt] at h
  split at h
  · rw [Prog.eval_bind, Prog.eval_attempt] at h
    split at h
    · rw [Prog.eval_bind, Prog.eval_select] at h
      split at h
      · next st hst =>
          simp only at hst
          split at hst
          · cases hst
          · rw [Option.some.injEq] at hst
            rw [Tables.watermark, hst, Option.map_some, Option.map_some]
            exact h
      · cases h
    · cases h
  · cases h

/-- Reading the watermark changes nothing, and sees what the session sees. -/
theorem readWatermark_run (env : Env Call Bytes) (s : NvdSession) :
    (∃ n, (readWatermark.run env s).2 = { s with calls := n }) ∧
    ∀ watermark, (readWatermark.run env s).1 = some watermark →
      s.view.watermark.map presentWatermark = some watermark := by
  obtain ⟨n, hrun⟩ := readWatermark_writes.run_eq env s
  rw [hrun]
  exact ⟨⟨n, rfl⟩, fun watermark h => readWatermark_eval h⟩

/-- The place where a run starts is the one of the committed watermark. -/
theorem cursorOf_startingCursor {s : NvdSession} {watermark : Option Bytes} {start : Instant × ℤ}
    (hread : s.view.watermark.map presentWatermark = some watermark)
    (hstart : startingCursor watermark = some start) (hnone : s.txn = none) :
    cursorOf s.committed.watermark = some start.1 := by
  rw [Session.view, hnone, Option.getD_none] at hread
  obtain ⟨column, hcolumn, rfl⟩ := Option.map_eq_some_iff.mp hread
  rw [cursorOf, hcolumn, Option.bind_some, hstart, Option.map_some]

/-- Every run has a trace. -/
theorem nvdCatchup_trace (run : CatchupRun) (s : NvdSession) :
    ∃ ts, RunTrace [run] s (nvdCatchup run.world run.cfg run.now s).session ts := by
  obtain ⟨⟨n, hsession⟩, hread⟩ := readWatermark_run run.world.env s
  have hidle : RunTrace [run] s { s with calls := n } [] := .idle rfl rfl
  simp only [nvdCatchup, hsession]
  cases parseInstant run.now with
  | none => exact ⟨[], .idle rfl rfl⟩
  | some now =>
      cases hrd : (readWatermark.run run.world.env s).1 with
      | none => exact ⟨[], hidle⟩
      | some watermark =>
          simp only
          cases hstart : startingCursor watermark with
          | none => exact ⟨[], hidle⟩
          | some start =>
              have hcur := cursorOf_startingCursor (hread watermark hrd) hstart
              obtain ⟨ts, htrace⟩ := catchupWindows_trace run now
                (startingCursor_days hstart) maxWindows start.1 .zero { s with calls := n } hcur
              exact ⟨_, hidle.trans htrace⟩

/-- Runs one after another. -/
def runCatchups : List CatchupRun → NvdSession → NvdSession
  | [], s => s
  | run :: runs, s =>
      let s := if run.reopened then s.reopen else s
      runCatchups runs (nvdCatchup run.world run.cfg run.now s).session

/-- Watermark safety, over every sequence of runs with any failures in them:
the log behind the runs is made of windows; every commit among them is the one
of a page at its place, and keeps the watermark unless it is the last page of
its window; the windows that came to their end lie end to end, and the
watermark is the end of the last of them. -/
theorem catchups_watermark (runs : List CatchupRun) (s : NvdSession) :
    ∃ ts, RunTrace runs s (runCatchups runs s) ts := by
  induction runs generalizing s with
  | nil => exact ⟨[], .idle rfl rfl⟩
  | cons run runs ih =>
      rw [runCatchups]
      generalize hfrom : (if run.reopened then s.reopen else s) = s'
      have hopened : RunTrace [run] s s' [] := by
        rw [← hfrom]
        split <;> exact .idle rfl rfl
      obtain ⟨ts, hfirst⟩ := nvdCatchup_trace run s'
      obtain ⟨ts', hrest⟩ := ih (nvdCatchup run.world run.cfg run.now s').session
      have hone := (hopened.trans hfirst).mono
        (List.cons_subset_cons run (List.nil_subset runs))
      exact ⟨_, hone.trans (hrest.mono (List.subset_cons_self run runs))⟩

/-- A server without any records. -/
def emptyServer : NetWorld where
  toWorld := .reading [(["\x7b\"totalResults\":0,", "\"vulnerabilities\":[]\x7d"].flatMap ascii,
    .object [(ascii "totalResults", .number (.finite 0)), (ascii "vulnerabilities", .array [])])]
  fetch _ _ := some (["\x7b\"totalResults\":0,", "\"vulnerabilities\":[]\x7d"].flatMap ascii)

-- two bulk windows, of which the second is cut short by the present
example :
    let r := nvdCatchup emptyServer ⟨2000⟩ (ascii "1999-03-01") Tables.seeded.connect
    (r.status, r.counts.windowsCompleted, r.session.committed.watermark) =
      (.ok, 2, some (some (ascii "1999-03-01T00:00:00.000Z"))) := by
  decide +kernel

end Cytadel.Db
