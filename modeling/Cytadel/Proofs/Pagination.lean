import Cytadel.Lib.Strides
import Cytadel.Proofs.WindowTrace

/-!
# Which records of a window are handed to the ingest

The page loop steps its index by the page size it is configured with, not by
the records that came back, as the pull of the EPSS feed does. A server that
clamps its pages below that size loses the records between the end of a page
and the next index, and the watermark still moves past them. The window is
complete exactly when no index is requested behind a gap.
-/

namespace Cytadel.Db

open Cytadel Lib

/-- The records of a body. -/
def pageRecords (w : World) (body : Bytes) : List Json :=
  ((nvdFeed [] false).records (w.parse body)).getD []

/-- A server that has the records `R` for a window. A request may fail; one
that is answered brings their number and some of them from its index on, no
more than it asked for, and not none while there are any. -/
structure Serves (w : NetWorld) (cfg : FetchConfig) (startDate : Option Bytes) (endDate : Bytes)
    (R : List Json) : Prop where
  total : ∀ n i body, w.fetch n (pageRequest cfg startDate endDate i) = some body →
    totalResults (w.parse body) = some R.length
  page : ∀ n i body, w.fetch n (pageRequest cfg startDate endDate i) = some body →
    pageRecords w.toWorld body <+: R.drop i
  atMost : ∀ n i body, w.fetch n (pageRequest cfg startDate endDate i) = some body →
    ((pageRecords w.toWorld body).length : ℤ) ≤ cfg.resultsPerPage
  nonempty : ∀ n i body, w.fetch n (pageRequest cfg startDate endDate i) = some body →
    i < R.length → pageRecords w.toWorld body ≠ []

/-- Every record of `R` is at its place in one of the pages. -/
def Delivered (w : World) (R : List Json) (pages : List PageTrace) : Prop :=
  ∀ j < R.length, ∃ p ∈ pages, ∃ m, p.note.startIndex + m = j ∧
    (pageRecords w p.note.body)[m]? = R[j]?

theorem FetchConfig.perPage_pos (cfg : FetchConfig) : 0 < cfg.perPage := by
  rw [perPage]
  split
  · decide
  · split <;> omega

section

variable {w : NetWorld} {cfg : FetchConfig} {startDate : Option Bytes} {endDate : Bytes}
  {R : List Json} {s : NvdSession} {r : NvdSyncResult} {pages : List PageTrace}
  {failed : Option PageNote} {answer : ℕ → ℕ}

theorem PageTrace.At.startIndex_eq {p : PageTrace} {i : ℕ} (h : p.At w cfg startDate endDate i) :
    p.note.startIndex = i := by
  rw [h.note]

/-- The pages of a window that answered OK go up to the last record. -/
theorem SyncTrace.reaches (h : SyncTrace w cfg startDate endDate 0 s r pages failed)
    (hserves : Serves w cfg startDate endDate R) (hok : r.status = .ok) {k : ℕ}
    (hk : k * cfg.perPage < R.length) : k < pages.length := by
  obtain ⟨p, hp, hlast⟩ := List.any_eq_true.mp (h.finished.mp hok)
  obtain ⟨i, hi⟩ := List.mem_iff_getElem?.mp hp
  have hat := h.page i p hi
  obtain ⟨n, hfetch⟩ := hat.fetched
  have htotal := hserves.total n _ _ hfetch
  rw [hat.total] at htotal
  refine h.exhausted hp hlast ?_
  rwa [Option.some.inj htotal]

/-- The page at an index below the number of records. -/
theorem SyncTrace.page_at (h : SyncTrace w cfg startDate endDate 0 s r pages failed)
    (hserves : Serves w cfg startDate endDate R) (hok : r.status = .ok)
    (hanswer : ∀ p ∈ pages,
      (pageRecords w.toWorld p.note.body).length = answer p.note.startIndex)
    {k : ℕ} (hk : k * cfg.perPage < R.length) :
    ∃ p ∈ pages, p.note.startIndex = k * cfg.perPage ∧
      (pageRecords w.toWorld p.note.body).length = answer (k * cfg.perPage) ∧
      pageRecords w.toWorld p.note.body <+: R.drop (k * cfg.perPage) ∧
      ((pageRecords w.toWorld p.note.body).length : ℤ) ≤ cfg.resultsPerPage := by
  have hlt := h.reaches hserves hok hk
  have hget := List.getElem?_eq_getElem hlt
  have hat := h.page k pages[k] hget
  rw [Nat.zero_add] at hat
  obtain ⟨n, hfetch⟩ := hat.fetched
  have hmem := List.getElem_mem hlt
  refine ⟨pages[k], hmem, hat.startIndex_eq, ?_, hserves.page n _ _ hfetch,
    hserves.atMost n _ _ hfetch⟩
  rw [hanswer _ hmem, hat.startIndex_eq]

/-- A record is in a page exactly when its place is within the page's length. -/
theorem SyncTrace.delivered_iff (h : SyncTrace w cfg startDate endDate 0 s r pages failed)
    (hserves : Serves w cfg startDate endDate R) (hok : r.status = .ok)
    (hanswer : ∀ p ∈ pages,
      (pageRecords w.toWorld p.note.body).length = answer p.note.startIndex) :
    Delivered w.toWorld R pages ↔
      StridesCover R.length cfg.perPage fun k => answer (k * cfg.perPage) := by
  constructor
  · intro hall j hj
    obtain ⟨p, hp, m, hm, hget⟩ := hall j hj
    obtain ⟨k, hk⟩ := List.mem_iff_getElem?.mp hp
    have hindex := (h.page k p hk).startIndex_eq
    rw [Nat.zero_add] at hindex
    rw [List.getElem?_eq_getElem hj] at hget
    have hlt := (List.getElem?_eq_some_iff.mp hget).1
    rw [hanswer p hp, hindex] at hlt
    refine ⟨k, by omega, ?_⟩
    simp only
    omega
  · intro hcover j hj
    obtain ⟨k, hle, hlt⟩ := hcover j hj
    simp only at hlt
    obtain ⟨p, hp, hindex, hlen, hpre, -⟩ := h.page_at hserves hok hanswer (k := k) (by omega)
    refine ⟨p, hp, j - k * cfg.perPage, by omega, ?_⟩
    rw [List.prefix_iff_getElem?] at hpre
    have hm : j - k * cfg.perPage < (pageRecords w.toWorld p.note.body).length := by omega
    rw [List.getElem?_eq_getElem hm, ← hpre _ hm, List.getElem?_drop]
    congr 1
    omega

/-- The page size that is asked for is the stride, up to the largest one. -/
theorem FetchConfig.le_perPage (h : cfg.resultsPerPage ≤ 2000) :
    cfg.resultsPerPage ≤ cfg.perPage := by
  rw [perPage]
  split
  · omega
  · rw [if_neg (by omega)]
    omega

end

/-- Completeness of a window that answered OK, against every server and
whatever fails on the way. With `answer` the lengths of the pages that the
server sent, every record was in a page that was handed to the ingest, no
later than in the transaction that moved the watermark, if and only if no index
was requested behind a gap. For a page size that the loop does not cut, that
is: every page was full, but for the last. -/
theorem nvdSyncWindow_delivers_iff {w : NetWorld} {cfg : FetchConfig} {startDate : Option Bytes}
    {endDate : Bytes} {R : List Json} {maxPages : ℤ} {s : NvdSession}
    (hserves : Serves w cfg startDate endDate R)
    (hok : (nvdSyncWindow w cfg startDate endDate maxPages s).status = .ok) :
    ∃ pages, SyncTrace w cfg startDate endDate 0 s
        (nvdSyncWindow w cfg startDate endDate maxPages s) pages none ∧
      ∀ answer : ℕ → ℕ,
        (∀ p ∈ pages, (pageRecords w.toWorld p.note.body).length = answer p.note.startIndex) →
        (Delivered w.toWorld R pages ↔
          NoGap R.length cfg.perPage fun k => answer (k * cfg.perPage)) ∧
        (cfg.resultsPerPage ≤ 2000 → (Delivered w.toWorld R pages ↔
          ∀ k, k * cfg.perPage < R.length →
            answer (k * cfg.perPage) = min cfg.perPage (R.length - k * cfg.perPage))) := by
  obtain ⟨pages, failed, htrace⟩ := nvdSyncWindow_trace w cfg startDate endDate maxPages s
  obtain ⟨rfl, -⟩ := htrace.closed hok
  refine ⟨pages, htrace, fun answer hanswer => ?_⟩
  have hiff : Delivered w.toWorld R pages ↔
      NoGap R.length cfg.perPage fun k => answer (k * cfg.perPage) := by
    rw [htrace.delivered_iff hserves hok hanswer, stridesCover_iff_noGap cfg.perPage_pos]
  refine ⟨hiff, fun hsize => ?_⟩
  have hstride := FetchConfig.le_perPage hsize
  rw [hiff]
  refine noGap_iff_full cfg.perPage_pos (fun k hk => ?_) fun k hk => ?_
  · obtain ⟨p, -, -, hlen, -, hmost⟩ := htrace.page_at hserves hok hanswer hk
    omega
  · obtain ⟨p, -, -, hlen, hpre, -⟩ := htrace.page_at hserves hok hanswer hk
    have hle := hpre.length_le
    rw [List.length_drop] at hle
    omega

/-! ## A server of three records -/

def servedIds : List String := ["CVE-2024-0001", "CVE-2024-0002", "CVE-2024-0003"]

def servedRecord (id : String) : Json :=
  let str (s : String) : Json := .string (ascii s)
  .object [(ascii "cve", .object [
    (ascii "id", str id),
    (ascii "published", str "2024-01-01T00:00:00.000"),
    (ascii "lastModified", str "2024-01-02T00:00:00.000")])]

def servedRecords : List Json := servedIds.map servedRecord

/-- The text of a page with these of the records. -/
def servedText (ids : List String) : Bytes :=
  ["\x7b\"totalResults\":3,", "\"vulnerabilities\":["].flatMap ascii ++
    (ascii ",").intercalate (ids.map fun id =>
      ["\x7b\"cve\":\x7b\"id\":\"", id, "\",\"published\":", "\"2024-01-01T00:00:00.000\",",
        "\"lastModified\":", "\"2024-01-02T00:00:00.000\"\x7d\x7d"].flatMap ascii) ++
    ascii "]\x7d"

/-- The same page as `cJSON` reads it. -/
def servedPage (ids : List String) : Json :=
  .object [(ascii "totalResults", .number (.finite 3)),
    (ascii "vulnerabilities", .array (ids.map servedRecord))]

/-- What a server that never sends more than so many records sends. -/
def clampedIds (limit i : ℕ) : List String := (servedIds.drop i).take limit

/-- A page that such a server can send, by its text. -/
def readServed (limit : ℕ) (body : Bytes) : Option (List String) :=
  ((List.range 4).map (clampedIds limit)).find? fun ids => servedText ids == body

def clampingServer (limit : ℕ) : NetWorld where
  env := quietEnv
  parse body := (readServed limit body).map servedPage
  strtod _ := ⟨.finite 0, true, false⟩
  fetch _ req := some (servedText (clampedIds limit req.startIndex))

/-- One window of it, with two records to a page. -/
def clampedWindow (limit : ℕ) : NvdSyncResult :=
  nvdSyncWindow (clampingServer limit) ⟨2⟩ (some (ascii "2024-01-01T00:00:00.000Z"))
    (ascii "2024-04-30T00:00:00.000Z") 0 Tables.seeded.connect

/-- Behind the last record there are no more. -/
theorem clampedIds_min (limit i : ℕ) : clampedIds limit i = clampedIds limit (min i 3) := by
  obtain hi | hi := Nat.le_total i 3
  · rw [Nat.min_eq_left hi]
  · rw [Nat.min_eq_right hi, clampedIds, clampedIds, List.drop_eq_nil_of_le hi]
    rfl

theorem servedRecord_inj {a b : String} (h : servedRecord a = servedRecord b) :
    ascii a = ascii b := by
  simpa [servedRecord] using h

/-- The second record is not at an even index. -/
theorem clampedIds_even (k : ℕ) :
    ∀ id ∈ clampedIds 1 (k * 2), ascii id ≠ ascii "CVE-2024-0002" := by
  rw [clampedIds_min]
  have hk : min (k * 2) 3 = 0 ∨ min (k * 2) 3 = 2 ∨ min (k * 2) 3 = 3 := by omega
  obtain hk | hk | hk := hk
  all_goals
    rw [hk]
    decide

section

variable {limit : ℕ}
  (hread : ∀ i < 4, readServed limit (servedText (clampedIds limit i)) = some (clampedIds limit i))

include hread

theorem clampingServer_parse (i : ℕ) :
    (clampingServer limit).parse (servedText (clampedIds limit i)) =
      some (servedPage (clampedIds limit i)) := by
  rw [clampedIds_min]
  simp only [clampingServer]
  rw [hread (min i 3) (by omega), Option.map_some]

theorem clampingServer_records (i : ℕ) :
    pageRecords (clampingServer limit).toWorld (servedText (clampedIds limit i)) =
      (clampedIds limit i).map servedRecord := by
  rw [pageRecords, clampingServer_parse hread i]
  rfl

theorem clampingServer_serves (hpos : 0 < limit) (hle : limit ≤ 2) (startDate : Option Bytes)
    (endDate : Bytes) :
    Serves (clampingServer limit) ⟨2⟩ startDate endDate servedRecords where
  total n i body h := by
    obtain rfl : servedText (clampedIds limit i) = body := Option.some.inj h
    rw [clampingServer_parse hread i]
    rfl
  page n i body h := by
    obtain rfl : servedText (clampedIds limit i) = body := Option.some.inj h
    rw [clampingServer_records hread i, clampedIds, servedRecords, ← List.map_drop]
    apply List.IsPrefix.map
    exact List.take_prefix limit _
  atMost n i body h := by
    obtain rfl : servedText (clampedIds limit i) = body := Option.some.inj h
    rw [clampingServer_records hread i, List.length_map, clampedIds, List.length_take]
    simp only
    omega
  nonempty n i body h hi := by
    obtain rfl : servedText (clampedIds limit i) = body := Option.some.inj h
    have hi' : i < servedIds.length := hi
    rw [clampingServer_records hread i, ← List.length_pos_iff_ne_nil, List.length_map, clampedIds,
      List.length_take, List.length_drop]
    omega

/-- What the pages of a window of it hold. -/
theorem clampingServer_page {startDate : Option Bytes} {endDate : Bytes} {i : ℕ} {p : PageTrace}
    (h : p.At (clampingServer limit) ⟨2⟩ startDate endDate i) :
    pageRecords (clampingServer limit).toWorld p.note.body =
      (clampedIds limit i).map servedRecord := by
  obtain ⟨n, hfetch⟩ := h.fetched
  obtain hbody : servedText (clampedIds limit i) = p.note.body := Option.some.inj hfetch
  rw [← hbody, clampingServer_records hread i]

end

set_option maxRecDepth 20000 in
theorem readServed_two : ∀ i < 4, readServed 2 (servedText (clampedIds 2 i)) =
    some (clampedIds 2 i) := by
  decide

set_option maxRecDepth 20000 in
theorem readServed_one : ∀ i < 4, readServed 1 (servedText (clampedIds 1 i)) =
    some (clampedIds 1 i) := by
  decide

set_option maxRecDepth 20000 in
/-- A server that fills its pages loses nothing. -/
theorem nvdSyncWindow_delivers_iff_full :
    (clampedWindow 2).status = .ok ∧
    ∃ pages, SyncTrace (clampingServer 2) ⟨2⟩ (some (ascii "2024-01-01T00:00:00.000Z"))
        (ascii "2024-04-30T00:00:00.000Z") 0 Tables.seeded.connect (clampedWindow 2) pages none ∧
      Delivered (clampingServer 2).toWorld servedRecords pages := by
  have hok : (clampedWindow 2).status = .ok := by decide
  refine ⟨hok, ?_⟩
  unfold clampedWindow at hok ⊢
  obtain ⟨pages, htrace, hiff⟩ := nvdSyncWindow_delivers_iff
    (clampingServer_serves readServed_two (by decide) (by decide) _ _) hok
  refine ⟨pages, htrace, ?_⟩
  have hanswer : ∀ p ∈ pages, (pageRecords (clampingServer 2).toWorld p.note.body).length =
      (clampedIds 2 p.note.startIndex).length := by
    intro p hp
    obtain ⟨k, hk⟩ := List.mem_iff_getElem?.mp hp
    have hat := htrace.page k p hk
    rw [clampingServer_page readServed_two hat, List.length_map, hat.startIndex_eq]
  refine ((hiff (fun i => (clampedIds 2 i).length) hanswer).2 (by decide)).mpr fun k hk => ?_
  simp only [clampedIds, List.length_take, List.length_drop]
  rfl

set_option maxRecDepth 20000 in
/-- A server that sends one record where two were asked for: the window
answers OK, the watermark is at its end, and the second record was in no page. -/
theorem nvdSyncWindow_skips_clamped_records :
    Serves (clampingServer 1) ⟨2⟩ (some (ascii "2024-01-01T00:00:00.000Z"))
      (ascii "2024-04-30T00:00:00.000Z") servedRecords ∧
    (clampedWindow 1).status = .ok ∧
    (clampedWindow 1).session.committed.watermark =
      some (some (ascii "2024-04-30T00:00:00.000Z")) ∧
    ¬ ∀ r ∈ servedRecords, ∃ note, Event.note note ∈ (clampedWindow 1).session.log ∧
      r ∈ pageRecords (clampingServer 1).toWorld note.body := by
  have hok : (clampedWindow 1).status = .ok := by decide
  refine ⟨clampingServer_serves readServed_one (by decide) (by decide) _ _, hok,
    by decide, fun hall => ?_⟩
  obtain ⟨note, hnote, hr⟩ := hall (servedRecord "CVE-2024-0002")
    (List.mem_map_of_mem (by decide))
  unfold clampedWindow at hok hnote
  obtain ⟨pages, failed, htrace⟩ := nvdSyncWindow_trace (clampingServer 1) ⟨2⟩
    (some (ascii "2024-01-01T00:00:00.000Z")) (ascii "2024-04-30T00:00:00.000Z") 0
    Tables.seeded.connect
  obtain ⟨rfl, -⟩ := htrace.closed hok
  rw [htrace.log] at hnote
  obtain ⟨p, hp, rfl⟩ : ∃ p ∈ pages, p.note = note :=
    mem_flatMap_events (by simpa [Tables.connect] using hnote)
  obtain ⟨k, hk⟩ := List.mem_iff_getElem?.mp hp
  rw [clampingServer_page readServed_one (htrace.page k p hk)] at hr
  obtain ⟨id, hid, heq⟩ := List.mem_map.mp hr
  exact clampedIds_even k id (by rwa [Nat.zero_add] at hid) (servedRecord_inj heq)

end Cytadel.Db
