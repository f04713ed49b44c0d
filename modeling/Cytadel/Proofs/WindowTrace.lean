import Cytadel.Db.NvdSync
import Cytadel.Proofs.PageAtomicity
import Cytadel.Proofs.PageTables

/-!
# What a window leaves in the log

A window is paged by a loop that can stop at any point. Its trace is the list
of the pages it committed, in order, each with the tables before and after, and
at most one page that was handed over and not committed. Only the last page of
a window that came to its end moves the watermark.
-/

namespace Cytadel.Db

open Cytadel Lib

/-- The column `last_mod_watermark` of the row of the feed, if it has one. -/
def Tables.watermark (d : Tables) : Option (Option Bytes) :=
  (d.syncState .nvd).map (·.lastModWatermark)

def PageNote.isLast (n : PageNote) : Bool := isLastPage n.startIndex n.perPage n.totalResults

/-- The query for a page of a window; a bulk load has no dates. -/
def pageRequest (cfg : FetchConfig) (startDate : Option Bytes) (endDate : Bytes)
    (startIndex : ℕ) : FetchRequest where
  resultsPerPage := cfg.resultsPerPage
  startIndex := startIndex
  lastMod := startDate.map fun start => (start, endDate)

/-- A page that was committed. -/
structure PageTrace where
  note : PageNote
  before : Tables
  after : Tables

def PageTrace.events (p : PageTrace) : List (Event Tables PageNote) :=
  [.note p.note, .commit p.before p.after]

/-- The notes among the events are the ones of the pages. -/
theorem mem_flatMap_events {pages : List PageTrace} {n : PageNote}
    (h : Event.note n ∈ pages.flatMap PageTrace.events) : ∃ p ∈ pages, p.note = n := by
  obtain ⟨p, hp, hn⟩ := List.mem_flatMap.mp h
  simp only [PageTrace.events, List.mem_cons, Event.note.injEq, List.not_mem_nil, or_false,
    reduceCtorEq] at hn
  exact ⟨p, hp, hn.symm⟩

/-- The commits follow each other from one durable state to another. -/
abbrev Chained : List PageTrace → Tables → Tables → Prop :=
  Steps fun p d d' => p.before = d ∧ p.after = d'

/-- A page was requested at an index of a window, its body was ingested, and
the tables after it are the ones that the ingest made durable. -/
structure PageTrace.At (w : NetWorld) (cfg : FetchConfig) (startDate : Option Bytes)
    (endDate : Bytes) (startIndex : ℕ) (p : PageTrace) : Prop where
  note : p.note =
    ⟨startDate, endDate, startIndex, cfg.perPage, p.note.totalResults, p.note.body⟩
  fetched : ∃ n, w.fetch n (pageRequest cfg startDate endDate startIndex) = some p.note.body
  total : totalResults (w.parse p.note.body) = some p.note.totalResults
  ingested : ∃ s : NvdSession, s.committed = p.before ∧
    (nvdIngestPage w.toWorld p.note.body endDate p.note.isLast s).status = .ok ∧
    (nvdIngestPage w.toWorld p.note.body endDate p.note.isLast s).session.committed = p.after

section

variable {w : NetWorld} {cfg : FetchConfig} {startDate : Option Bytes} {endDate : Bytes}
  {startIndex : ℕ} {p : PageTrace}

/-- Only the last page of a window moves the watermark. -/
theorem PageTrace.At.watermark (h : p.At w cfg startDate endDate startIndex) :
    p.after.watermark =
      if p.note.isLast then p.before.watermark.map fun _ => some endDate
      else p.before.watermark := by
  obtain ⟨s, hbefore, hok, hafter⟩ := h.ingested
  obtain ⟨ups, adds, now, records, -, -, -, hsync, -⟩ := nvdIngestPage_ok hok
  rw [hafter, hbefore] at hsync
  simp only [nvdSyncUpdate, Option.some.injEq] at hsync
  rw [← hsync]
  simp only [Tables.watermark, Tables.apply, Function.update_self, Option.map_map]
  cases p.note.isLast <;> cases p.before.syncState .nvd <;> rfl

end

/-! ## The page loop -/

variable {w : NetWorld} {cfg : FetchConfig} {startDate : Option Bytes} {endDate : Bytes}

/-- A request that is answered is the one of the window. -/
theorem nvdFetchPage_some {startIndex : ℕ} {s : NvdSession} {body : Bytes} (hend : endDate ≠ [])
    (h : (nvdFetchPage w cfg startIndex startDate (startDate.map fun _ => endDate) s).1 =
      some body) :
    (∃ n, w.fetch n (pageRequest cfg startDate endDate startIndex) = some body) ∧
    (nvdFetchPage w cfg startIndex startDate (startDate.map fun _ => endDate) s).2 = s.tick := by
  have hstop : (some endDate).filter (fun d => !d.isEmpty) = some endDate := by
    simp [Option.filter, hend]
  cases startDate with
  | none => exact ⟨⟨s.calls, h⟩, rfl⟩
  | some start =>
      simp only [nvdFetchPage, Option.map_some, hstop] at h ⊢
      cases hstart : (some start).filter fun d => !d.isEmpty with
      | none =>
          rw [hstart] at h
          cases h
      | some a =>
          obtain ⟨rfl⟩ := (Option.filter_eq_some_iff.mp hstart).1
          rw [hstart] at h
          exact ⟨⟨s.calls, h⟩, rfl⟩

/-- A request that fails has at most been counted. -/
theorem nvdFetchPage_session (w : NetWorld) (cfg : FetchConfig) (startIndex : ℕ)
    (a b : Option Bytes) (s : NvdSession) :
    (nvdFetchPage w cfg startIndex a b s).2.committed = s.committed ∧
      (nvdFetchPage w cfg startIndex a b s).2.log = s.log := by
  simp only [nvdFetchPage]
  split <;> exact ⟨rfl, rfl⟩

/-- A total that is read is the one that the body says. -/
theorem parseTotalResults_some {w : World} {body : Bytes} {s : NvdSession} {total : ℕ}
    (h : (parseTotalResults w body s).1 = some total) :
    totalResults (w.parse body) = some total := by
  simp only [parseTotalResults, parseJson] at h
  split at h
  · cases h
  · exact h

/-- A page that fails is not in the durable tables and not in the log. -/
theorem nvdIngestPage_failed {ρ : Type} {w : World} {body : Bytes} {complete : Bool}
    {s : Session Tables ρ} (h : (nvdIngestPage w body endDate complete s).status ≠ .ok) :
    (nvdIngestPage w body endDate complete s).session.committed = s.committed ∧
      (nvdIngestPage w body endDate complete s).session.log = s.log := by
  obtain ⟨-, hcom, hlog, -⟩ | ⟨hok, -⟩ := nvdIngestPage_atomic w body endDate complete s
  · exact ⟨hcom, hlog⟩
  · exact absurd hok h

/-- One turn of the loop: it ends without a commit, or it commits a page and
then answers OK or goes on behind it. -/
theorem nvdSyncPages_cases (hend : endDate ≠ []) (fuel startIndex : ℕ) (c : NvdSyncCounts)
    (s : NvdSession) :
    (∃ (status : NvdSyncStatus) (s' : NvdSession) (failed : Option PageNote), status ≠ .ok ∧
      nvdSyncPages w cfg startDate endDate (fuel + 1) startIndex c s = ⟨status, c, s'⟩ ∧
      s'.committed = s.committed ∧ s'.log = s.log ++ failed.toList.map .note) ∨
    (∃ (p : PageTrace) (c' : NvdSyncCounts) (s' : NvdSession),
      p.At w cfg startDate endDate startIndex ∧ p.before = s.committed ∧
      s.txn = none ∧ s'.txn = none ∧ s'.committed = p.after ∧ s'.log = s.log ++ p.events ∧
      nvdSyncPages w cfg startDate endDate (fuel + 1) startIndex c s =
        if p.note.isLast then ⟨.ok, c', s'⟩
        else nvdSyncPages w cfg startDate endDate fuel (startIndex + cfg.perPage) c' s') := by
  rw [nvdSyncPages]
  split
  · exact Or.inl ⟨.errProtocol, s, none, by decide, rfl, rfl, by simp⟩
  have hsess := nvdFetchPage_session w cfg startIndex startDate
    (startDate.map fun _ => endDate) s
  simp only
  cases hfetch : (nvdFetchPage w cfg startIndex startDate (startDate.map fun _ => endDate) s).1 with
  | none => exact Or.inl ⟨.errFetch, _, none, by decide, rfl, hsess.1, by simp [hsess.2]⟩
  | some body =>
      obtain ⟨hfetched, htick⟩ := nvdFetchPage_some hend hfetch
      simp only [htick]
      have hparsed : (parseTotalResults w.toWorld body s.tick).2 = s.tick.tick := rfl
      cases htotal : (parseTotalResults w.toWorld body s.tick).1 with
      | none => exact Or.inl ⟨.errProtocol, _, none, by decide, rfl, rfl, (List.append_nil _).symm⟩
      | some total =>
          simp only [hparsed]
          generalize hnote : (⟨startDate, endDate, startIndex, cfg.perPage, total, body⟩ :
            PageNote) = note
          have hlast : isLastPage startIndex cfg.perPage total = note.isLast := by
            rw [← hnote]
            rfl
          rw [hlast]
          split
          · next hfail =>
              obtain ⟨hcom, hlog⟩ := nvdIngestPage_failed hfail
              exact Or.inl ⟨.errIngest, _, some note, by decide, rfl, hcom, hlog⟩
          · next hok =>
              rw [not_not] at hok
              obtain ⟨ups, adds, now, records, hopen, hclosed, hlog, -, -⟩ := nvdIngestPage_ok hok
              refine Or.inr ⟨⟨note, s.committed, _⟩, _, _, ⟨?_, ?_, ?_, ?_⟩, rfl, hopen, hclosed,
                rfl, ?_, rfl⟩
              · rw [← hnote]
              · rw [← hnote]
                exact hfetched
              · rw [← hnote]
                exact parseTotalResults_some htotal
              · subst hnote
                exact ⟨s.tick.tick.note
                  ⟨startDate, endDate, startIndex, cfg.perPage, total, body⟩, rfl, hok, rfl⟩
              · rw [hlog]
                simp [PageTrace.events, Session.note, Session.tick]

/-- The trace of the page loop from an index on. -/
structure SyncTrace (w : NetWorld) (cfg : FetchConfig) (startDate : Option Bytes)
    (endDate : Bytes) (startIndex : ℕ) (s : NvdSession) (r : NvdSyncResult)
    (pages : List PageTrace) (failed : Option PageNote) : Prop where
  log : r.session.log = s.log ++ (pages.flatMap PageTrace.events ++ failed.toList.map .note)
  chained : Chained pages s.committed r.session.committed
  page : ∀ k (p : PageTrace), pages[k]? = some p →
    p.At w cfg startDate endDate (startIndex + k * cfg.perPage)
  inner : ∀ k (p : PageTrace), pages[k]? = some p → p.note.isLast = true → k + 1 = pages.length
  before : ∀ p ∈ pages, p.before.watermark = s.committed.watermark
  opened : pages ≠ [] → s.txn = none
  finished : r.status = .ok ↔ pages.any (·.note.isLast) = true
  closed : r.status = .ok → failed = none ∧ r.session.txn = none
  watermark : r.session.committed.watermark =
    if r.status = .ok then s.committed.watermark.map fun _ => some endDate
    else s.committed.watermark

/-- Nothing was committed. -/
theorem SyncTrace.stopped {startIndex : ℕ} {s s' : NvdSession} {status : NvdSyncStatus}
    {c : NvdSyncCounts} {failed : Option PageNote} (hst : status ≠ .ok)
    (hcom : s'.committed = s.committed) (hlog : s'.log = s.log ++ failed.toList.map .note) :
    SyncTrace w cfg startDate endDate startIndex s ⟨status, c, s'⟩ [] failed where
  log := hlog
  chained := by
    rw [hcom]
    exact .nil _
  page k p h := by simp at h
  inner k p h := by simp at h
  before p h := by simp at h
  opened h := absurd rfl h
  finished := by simp [hst]
  closed h := absurd h hst
  watermark := by
    rw [if_neg hst]
    exact congrArg _ hcom

/-- The last page was committed. -/
theorem SyncTrace.last {startIndex : ℕ} {s s' : NvdSession} {c : NvdSyncCounts} {p : PageTrace}
    (hat : p.At w cfg startDate endDate startIndex) (hbefore : p.before = s.committed)
    (hopen : s.txn = none) (hclosed : s'.txn = none) (hcom : s'.committed = p.after)
    (hlog : s'.log = s.log ++ p.events) (hlast : p.note.isLast = true) :
    SyncTrace w cfg startDate endDate startIndex s ⟨.ok, c, s'⟩ [p] none where
  log := by simpa using hlog
  chained := .cons ⟨hbefore, hcom.symm⟩ (.nil _)
  page k q h := by
    cases k with
    | zero =>
        obtain ⟨rfl⟩ := h
        simpa using hat
    | succ k => simp at h
  inner k q h hq := by
    cases k with
    | zero => rfl
    | succ k => simp at h
  before q hq := by rw [List.mem_singleton.mp hq, hbefore]
  opened _ := hopen
  finished := by simp [hlast]
  closed _ := ⟨rfl, hclosed⟩
  watermark := by
    rw [if_pos rfl, hcom, hat.watermark, if_pos hlast, hbefore]

/-- A page that is not the last was committed, and the loop went on. -/
theorem SyncTrace.more {startIndex : ℕ} {s s' : NvdSession} {r : NvdSyncResult} {p : PageTrace}
    {pages : List PageTrace} {failed : Option PageNote}
    (hat : p.At w cfg startDate endDate startIndex) (hbefore : p.before = s.committed)
    (hopen : s.txn = none) (hcom : s'.committed = p.after)
    (hlog : s'.log = s.log ++ p.events) (hlast : p.note.isLast = false)
    (h : SyncTrace w cfg startDate endDate (startIndex + cfg.perPage) s' r pages failed) :
    SyncTrace w cfg startDate endDate startIndex s r (p :: pages) failed := by
  have hkept : s'.committed.watermark = s.committed.watermark := by
    rw [hcom, hat.watermark, hlast, if_neg Bool.false_ne_true, hbefore]
  refine ⟨?_, .cons ⟨hbefore, hcom.symm⟩ h.chained, ?_, ?_, ?_, fun _ => hopen, ?_, h.closed, ?_⟩
  · rw [h.log, hlog, List.flatMap_cons, List.append_assoc, List.append_assoc]
  · intro k q hk
    cases k with
    | zero =>
        obtain ⟨rfl⟩ := hk
        simpa using hat
    | succ k =>
        have hq := h.page k q hk
        rwa [Nat.add_right_comm, Nat.add_assoc, ← Nat.succ_mul] at hq
  · intro k q hk hq
    cases k with
    | zero =>
        obtain ⟨rfl⟩ := hk
        exact absurd hq (by simp [hlast])
    | succ k => rw [h.inner k q hk hq, List.length_cons]
  · intro q hq
    obtain rfl | hq := List.mem_cons.mp hq
    · rw [hbefore]
    · rw [h.before q hq, hkept]
  · rw [h.finished, List.any_cons, hlast, Bool.false_or]
  · rw [h.watermark, hkept]

/-- Every run of the page loop has a trace. -/
theorem nvdSyncPages_trace (hend : endDate ≠ []) (fuel startIndex : ℕ) (c : NvdSyncCounts)
    (s : NvdSession) :
    ∃ pages failed, SyncTrace w cfg startDate endDate startIndex s
      (nvdSyncPages w cfg startDate endDate fuel startIndex c s) pages failed := by
  induction fuel generalizing startIndex c s with
  | zero => exact ⟨[], none, .stopped (by decide) rfl (List.append_nil _).symm⟩
  | succ fuel ih =>
      obtain ⟨status, s', failed, hst, heq, hcom, hlog⟩ |
        ⟨p, c', s', hat, hbefore, hopen, hclosed, hcom, hlog, heq⟩ :=
          nvdSyncPages_cases hend fuel startIndex c s
      · rw [heq]
        exact ⟨[], failed, .stopped hst hcom hlog⟩
      · rw [heq]
        cases hlast : p.note.isLast with
        | true => exact ⟨[p], none, .last hat hbefore hopen hclosed hcom hlog hlast⟩
        | false =>
            obtain ⟨pages, failed, htrace⟩ := ih (startIndex + cfg.perPage) c' s'
            exact ⟨p :: pages, failed, .more hat hbefore hopen hcom hlog hlast htrace⟩

theorem isLastPage_iff {startIndex perPage total : ℕ} :
    isLastPage startIndex perPage total = true ↔ total ≤ startIndex + perPage := by
  simp only [isLastPage, Bool.or_eq_true, beq_iff_eq, decide_eq_true_eq]
  omega

/-- The pages up to a last page are all there. -/
theorem SyncTrace.exhausted {s : NvdSession} {r : NvdSyncResult} {pages : List PageTrace}
    {failed : Option PageNote} (h : SyncTrace w cfg startDate endDate 0 s r pages failed)
    {p : PageTrace} (hp : p ∈ pages) (hlast : p.note.isLast = true) {k : ℕ}
    (hk : k * cfg.perPage < p.note.totalResults) : k < pages.length := by
  obtain ⟨i, hi⟩ := List.mem_iff_getElem?.mp hp
  have hlen := h.inner i p hi hlast
  have hnote := (h.page i p hi).note
  rw [Nat.zero_add] at hnote
  have hlast' : isLastPage (i * cfg.perPage) cfg.perPage p.note.totalResults = true := by
    rw [PageNote.isLast, hnote] at hlast
    exact hlast
  rw [isLastPage_iff, ← Nat.succ_mul] at hlast'
  have hlt := Nat.lt_of_mul_lt_mul_right (Nat.lt_of_lt_of_le hk hlast')
  omega

/-- Every window has a trace from its first page on. -/
theorem nvdSyncWindow_trace (w : NetWorld) (cfg : FetchConfig) (startDate : Option Bytes)
    (endDate : Bytes) (maxPages : ℤ) (s : NvdSession) :
    ∃ pages failed, SyncTrace w cfg startDate endDate 0 s
      (nvdSyncWindow w cfg startDate endDate maxPages s) pages failed := by
  rw [nvdSyncWindow]
  split
  · exact ⟨[], none, .stopped (by decide) rfl (List.append_nil _).symm⟩
  · next hend => exact nvdSyncPages_trace (by simpa using hend) _ _ _ _

end Cytadel.Db
