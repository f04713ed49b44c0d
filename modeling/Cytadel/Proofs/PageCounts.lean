import Mathlib.Algebra.GroupWithZero.Nat
import Cytadel.Proofs.PageTables

/-!
# The counters of a page

Every record of a page is counted once, as ingested or as skipped, and every
`cpeMatch` entry of an ingested record likewise, wherever it drops out: at a
type check, at a missing or overlong field, at a failing bind, at a constraint,
or beyond a cap. The records that went in are found again in `cves`, and the sum
of both counters is what `total_records` moves by.
-/

namespace Cytadel.Db

open Cytadel Lib

variable {ρ : Type} {env : Env Call Bytes}

/-! ## The entries of one record -/

/-- Entries looked at move the entry counters by their number, and nothing else
that is looked at here. -/
theorem cpeEffects_counts {cveId : Bytes} {ms : List Json} {st st' : NvdCounts × Tables}
    (h : Steps (CpeEffect env cveId) ms st st') :
    st'.1.cveIngested = st.1.cveIngested ∧ st'.1.cveSkipped = st.1.cveSkipped ∧
      st'.1.cpeIngested + st'.1.cpeSkipped = st.1.cpeIngested + st.1.cpeSkipped + ms.length ∧
      st'.2.cves = st.2.cves ∧ st'.2.syncState = st.2.syncState := by
  induction h with
  | nil => exact ⟨rfl, rfl, rfl, rfl, rfl⟩
  | cons hone _ ih =>
      obtain ⟨hing, hskip, hcpe, hcves, hsync⟩ := ih
      cases hone with
      | skipped c =>
          simp only [NvdCounts.skipCpe, List.length_cons] at *
          exact ⟨hing, hskip, by omega, hcves, hsync⟩
      | ingested c hr hinsert =>
          obtain ⟨hcves', hsync'⟩ := cpeInsert_frame hinsert
          simp only [NvdCounts.ingestCpe, List.length_cons] at *
          exact ⟨hing, hskip, by omega, hcves.trans hcves', hsync.trans hsync'⟩

theorem foldl_skipCpe (ms : List Json) (c : NvdCounts) :
    ms.foldl (fun c _ => c.skipCpe) c = { c with cpeSkipped := c.cpeSkipped + ms.length } := by
  induction ms generalizing c with
  | nil => rfl
  | cons m ms ih =>
      rw [List.foldl_cons, ih]
      simp only [NvdCounts.skipCpe, List.length_cons]
      congr 1
      omega

/-! ## The records -/

/-- The upsert of a record that went in at a time. -/
def storedAt (i : Json × Bytes) : List (Bytes × CveRow) :=
  (readCve i.1).toList.map fun r => (r.cveId, r.row i.2)

def readable (e : Json) : Bool := (readCve e).isSome

/-- What a list of records does to the counters and the tables, where those of
`taken` went in. -/
structure Counted (env : Env Call Bytes) (elems : List Json) (taken : List (Json × Bytes))
    (st st' : NvdCounts × Tables) : Prop where
  sublist : (taken.map Prod.fst).Sublist (elems.filter readable)
  complete : (∀ n, env.fault n (.bind .cveUpsert) = false) →
    taken.map Prod.fst = elems.filter readable
  cves : st'.2.cves = upsertCves st.2.cves (taken.flatMap storedAt)
  syncState : st'.2.syncState = st.2.syncState
  ingested : st'.1.cveIngested = st.1.cveIngested + taken.length
  cve : st'.1.cveIngested + st'.1.cveSkipped = st.1.cveIngested + st.1.cveSkipped + elems.length
  cpe : st'.1.cpeIngested + st'.1.cpeSkipped = st.1.cpeIngested + st.1.cpeSkipped +
    (taken.map fun i => (cpeEntries i.1).length).sum

theorem Counted.nil (st : NvdCounts × Tables) : Counted env [] [] st st where
  sublist := List.nil_sublist _
  complete _ := rfl
  cves := rfl
  syncState := rfl
  ingested := rfl
  cve := rfl
  cpe := rfl

theorem Counted.append {es es' : List Json} {ts ts' : List (Json × Bytes)}
    {st st₁ st₂ : NvdCounts × Tables} (h : Counted env es ts st st₁)
    (h' : Counted env es' ts' st₁ st₂) : Counted env (es ++ es') (ts ++ ts') st st₂ where
  sublist := by
    rw [List.map_append, List.filter_append]
    exact h.sublist.append h'.sublist
  complete hno := by rw [List.map_append, List.filter_append, h.complete hno, h'.complete hno]
  cves := by rw [h'.cves, h.cves, List.flatMap_append, upsertCves, upsertCves, upsertCves,
    List.foldl_append]
  syncState := h'.syncState.trans h.syncState
  ingested := by
    have := h.ingested
    have := h'.ingested
    rw [List.length_append]
    omega
  cve := by
    have := h.cve
    have := h'.cve
    rw [List.length_append]
    omega
  cpe := by
    have := h.cpe
    have := h'.cpe
    rw [List.map_append, List.sum_append]
    omega

theorem Counted.skip {e : Json}
    (h : readable e = false ∨ ∃ n, env.fault n (.bind .cveUpsert) = true) (c : NvdCounts)
    (d : Tables) : Counted env [e] [] (c, d) (c.skipCve, d) where
  sublist := List.nil_sublist _
  complete hno := by
    obtain h | ⟨n, hf⟩ := h
    · simp [h]
    · rw [hno n] at hf
      cases hf
  cves := rfl
  syncState := rfl
  ingested := rfl
  cve := by
    simp only [NvdCounts.skipCve, List.length_singleton]
    omega
  cpe := rfl

theorem Counted.ingest {e : Json} {r : CveRecord} (hr : readCve e = some r) {now : Bytes}
    {c c₁ : NvdCounts} {d d₁ : Tables}
    (h : Steps (CpeEffect env r.cveId) ((cpeEntries e).take nvdMaxCpePerCve)
      (c.ingestCve, cveUpserted r now d) (c₁, d₁)) :
    Counted env [e] [(e, now)] (c, d)
      (((cpeEntries e).drop nvdMaxCpePerCve).foldl (fun c _ => c.skipCpe) c₁, d₁) := by
  obtain ⟨hing, hskip, hcpe, hcves, hsync⟩ := cpeEffects_counts h
  have hread : readable e = true := by rw [readable, hr]; rfl
  have hsplit := congrArg List.length (List.take_append_drop nvdMaxCpePerCve (cpeEntries e))
  rw [List.length_append] at hsplit
  rw [foldl_skipCpe]
  simp only [NvdCounts.ingestCve] at hing hskip hcpe
  exact
    { sublist := by simp [hread]
      complete := fun _ => by simp [hread]
      cves := by
        rw [hcves, cveUpserted_eq]
        simp [storedAt, hr, Tables.apply]
      syncState := hsync
      ingested := hing
      cve := by
        simp only [List.length_singleton]
        omega
      cpe := by
        simp only [List.map_cons, List.map_nil, List.sum_cons, List.sum_nil]
        omega }

theorem processOneCve_counted {e : Json} {c c' : NvdCounts} {x x' : ℕ × Tables}
    (h : (processOneCve e c).eval env x = ((c', false), x')) :
    ∃ taken, Counted env [e] taken (c, x.2) (c', x'.2) := by
  cases hr : readCve e with
  | none =>
      rw [processOneCve, hr, Prog.eval_pure] at h
      cases h
      exact ⟨[], .skip (Or.inl (by rw [readable, hr]; rfl)) _ _⟩
  | some r =>
      obtain ⟨i, hf, n, he⟩ | ⟨n, he⟩ | ⟨n, now, st, fatal, x₁, hm, he⟩ :=
        processOneCve_cases env hr c x <;> rw [he] at h <;> cases h
      · exact ⟨[], .skip (Or.inr ⟨i, hf⟩) _ _⟩
      · obtain ⟨c₁, hsteps, hc⟩ := processCpeMatches_steps hm
        rw [hc]
        exact ⟨[(e, now)], .ingest hr hsteps⟩

theorem steps_counted {elems : List Json} {st st' : NvdCounts × Tables}
    (h : Steps (fun e st st' => ∃ taken, Counted env [e] taken st st') elems st st') :
    ∃ taken, Counted env elems taken st st' := by
  induction h with
  | nil => exact ⟨[], .nil _⟩
  | cons hone _ ih =>
      obtain ⟨taken, hone⟩ := hone
      obtain ⟨taken', hrest⟩ := ih
      exact ⟨taken ++ taken', hone.append hrest⟩

/-! ## One page -/

theorem foldl_skipCve (es : List Json) (c : NvdCounts) :
    es.foldl (fun c _ => c.skipCve) c = { c with cveSkipped := c.cveSkipped + es.length } := by
  induction es generalizing c with
  | nil => rfl
  | cons e es ih =>
      rw [List.foldl_cons, ih]
      simp only [NvdCounts.skipCve, List.length_cons]
      congr 1
      omega

theorem nvdSyncUpdate_totalRecords {endDate : Bytes} {complete : Bool} {records : ℕ} {now : Bytes}
    {d d' : Tables} (h : nvdSyncUpdate endDate complete records now d = some d') :
    (d'.syncState .nvd).map (·.totalRecords) =
      (d.syncState .nvd).map fun st => st.totalRecords + (records : ℤ) := by
  simp only [nvdSyncUpdate, Option.some.injEq] at h
  subst h
  simp only [Function.update_self, Option.map_map]
  congr 1
  funext st
  cases complete <;> rfl

/-- What the counters of a page say: `elems` are its records, and those of
`taken` went in. -/
structure PageCounted (env : Env Call Bytes) (elems : List Json) (taken : List (Json × Bytes))
    (counts : NvdCounts) (d d' : Tables) : Prop where
  sublist : (taken.map Prod.fst).Sublist ((elems.take 20000).filter readable)
  complete : (∀ n, env.fault n (.bind .cveUpsert) = false) →
    taken.map Prod.fst = (elems.take 20000).filter readable
  cves : d'.cves = upsertCves d.cves (taken.flatMap storedAt)
  cveIngested : counts.cveIngested = taken.length
  cve : counts.cveIngested + counts.cveSkipped = elems.length
  cpe : counts.cpeIngested + counts.cpeSkipped =
    (taken.map fun i => (cpeEntries i.1).length).sum
  totalRecords : (d'.syncState .nvd).map (·.totalRecords) =
    (d.syncState .nvd).map fun st =>
      st.totalRecords + ((counts.cveIngested + counts.cveSkipped : ℕ) : ℤ)

/-- A page that answered OK has counted each of its `vulnerabilities` once, each
`cpeMatch` entry of those that went in once, and has moved `total_records` by
the number of the former. -/
theorem nvdIngestPage_counts {w : World} {bytes endDate : Bytes} {complete : Bool}
    {s : Session Tables ρ} (h : (nvdIngestPage w bytes endDate complete s).status = .ok) :
    ∃ root elems taken, w.parse bytes = some root ∧
      jsonGetArray (some root) (ascii "vulnerabilities") = some elems ∧
      PageCounted w.env elems taken (nvdIngestPage w bytes endDate complete s).counts s.committed
        (nvdIngestPage w bytes endDate complete s).session.committed := by
  obtain ⟨elems, start, looped, synced, heq, hrun, hview⟩ := nvdIngestPage_run h
  rw [heq]
  obtain ⟨root, hparse, harray⟩ : ∃ root, w.parse bytes = some root ∧
      jsonGetArray (some root) (ascii "vulnerabilities") = some elems := by
    have hparsed := hrun.parsed
    cases hroot : w.parse bytes with
    | none =>
        rw [hroot] at hparsed
        cases hparsed
    | some root =>
        rw [hroot] at hparsed
        simp only [FeedSpec.records] at hparsed
        split at hparsed
        · exact ⟨root, rfl, hparsed⟩
        · cases hparsed
  obtain ⟨c, hsteps, hcounts⟩ := FeedSpec.ingestRecords_steps
    (R := fun e st st' => ∃ taken, Counted w.env [e] taken st st')
    (fun _ _ _ _ _ he => processOneCve_counted he) hrun.records
  obtain ⟨taken, hcounted⟩ := steps_counted hsteps
  obtain ⟨now, hsync⟩ := FeedSpec.updateSyncState_ok hrun.sync
  refine ⟨root, elems, taken, hparse, harray, ?_⟩
  -- beyond the cap there are only skipped records
  have hskip : ((nvdFeed endDate complete).ingest w bytes s).counts =
      { c with cveSkipped := c.cveSkipped + (elems.drop 20000).length } :=
    hcounts.trans (foldl_skipCve _ c)
  have hsession : ((nvdFeed endDate complete).ingest w bytes s).session.committed =
      synced.2 := by rw [hrun.session]; rfl
  have htotal := nvdSyncUpdate_totalRecords hsync
  obtain ⟨hcves, -⟩ := nvdSyncUpdate_tables hsync
  have hcve := hcounted.cve
  have hcpe := hcounted.cpe
  have hing := hcounted.ingested
  rw [hview] at hcounted
  rw [hcounted.syncState] at htotal
  rw [hskip] at htotal ⊢
  rw [hsession]
  have hlen : (elems.take 20000).length + (elems.drop 20000).length = elems.length := by
    rw [← List.length_append, List.take_append_drop]
  simp only [nvdFeed, NvdCounts.zero, Nat.zero_add] at hcve hcpe hing
  exact
    { sublist := hcounted.sublist
      complete := hcounted.complete
      cves := hcves.trans hcounted.cves
      cveIngested := hing
      cve := by
        show c.cveIngested + (c.cveSkipped + (elems.drop 20000).length) = elems.length
        omega
      cpe := hcpe
      totalRecords := htotal }

/-- Two elements, of which one is no record, and the other's only entry is no
object. -/
def mixedText : Bytes :=
  ["\x7b\"vulnerabilities\":", "[7,\x7b\"cve\":\x7b", "\"id\":\"CVE-2024-0001\",",
    "\"published\":", "\"2024-01-01T00:00:00.000\",", "\"lastModified\":",
    "\"2024-01-02T00:00:00.000\",", "\"configurations\":", "[\x7b\"nodes\":[\x7b",
    "\"cpeMatch\":[7]", "\x7d]\x7d]\x7d\x7d]\x7d"].flatMap ascii

/-- The same page as `cJSON` reads it. -/
def mixedPage : Json :=
  let seven : Json := .number (.finite 7)
  let node : Json := .object [(ascii "cpeMatch", .array [seven])]
  let config : Json := .object [(ascii "nodes", .array [node])]
  let cve : Json := .object [
    (ascii "id", .string (ascii "CVE-2024-0001")),
    (ascii "published", .string (ascii "2024-01-01T00:00:00.000")),
    (ascii "lastModified", .string (ascii "2024-01-02T00:00:00.000")),
    (ascii "configurations", .array [config])]
  .object [(ascii "vulnerabilities", .array [seven, .object [(ascii "cve", cve)]])]

def afterMixed : IngestResult NvdCounts Unit :=
  nvdIngestPage (.reading [(mixedText, mixedPage)]) mixedText (ascii "2024-02-01T00:00:00.000Z")
    true Tables.seeded.connect

set_option maxRecDepth 20000 in
theorem nvdIngestPage_counts_mixed :
    afterMixed.status = .ok ∧ afterMixed.counts = ⟨1, 1, 0, 1⟩ ∧
      ∃ root elems taken, (World.reading [(mixedText, mixedPage)]).parse mixedText = some root ∧
        jsonGetArray (some root) (ascii "vulnerabilities") = some elems ∧
        PageCounted quietEnv elems taken afterMixed.counts Tables.seeded
          afterMixed.session.committed := by
  have hok : afterMixed.status = .ok ∧ afterMixed.counts = ⟨1, 1, 0, 1⟩ := by decide
  exact ⟨hok.1, hok.2, nvdIngestPage_counts hok.1⟩

end Cytadel.Db
