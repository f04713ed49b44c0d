import Cytadel.Db.NvdIngest
import Cytadel.Proofs.IngestRun

/-!
# What one NVD record can do

The nested loops over configurations, nodes and entries walk one flat list,
`cpeEntries`. A record that meets no fatal error is either skipped, and then
it changed nothing, or it was upserted and its entries were inserted or
skipped one by one. Which of them reached the table is a sublist of those the
reader accepts within the budget, and all of them when no bind failed.
-/

namespace Cytadel.Db

open Cytadel Lib

variable {env : Env Call Bytes}

/-! ## What is read passes the checks of its table -/

theorem Number.within_bounds {hi : ℚ} {v : Number} {q : ℚ} (h : v.within hi = some q) :
    0 ≤ q ∧ q ≤ hi := by
  cases v with
  | finite q' =>
      simp only [Number.within] at h
      split at h
      · next hq =>
          cases h
          simpa using hq
      · cases h
  | posInf => cases h
  | negInf => cases h

theorem extractFirstCvss_check (metrics : Option Json) (key : Bytes) :
    checkReal 10 (extractFirstCvss metrics key).baseScore = true := by
  rw [extractFirstCvss]
  split
  · next first rest _ =>
      simp only
      cases hn : jsonGetNumber (jsonGetItem (some first) (ascii "cvssData"))
          (ascii "baseScore") with
      | none => rfl
      | some v =>
          cases hv : v.within 10 with
          | none => simp [hv, checkReal]
          | some q => simpa [hv, checkReal] using Number.within_bounds hv
  · rfl

theorem recordSeverity_bounds (v3 v2 : NvdCvss) :
    0 ≤ recordSeverity v3 v2 ∧ recordSeverity v3 v2 ≤ 4 := by
  rw [recordSeverity]
  split
  · rw [severityFromV3Score]
    repeat' split
    all_goals omega
  · rw [severityFromV2Score]
    repeat' split
    all_goals omega
  · omega

theorem readCve_eq {elem : Json} {r : CveRecord} (h : readCve elem = some r) :
    checkReal 10 r.v3.baseScore = true ∧ checkReal 10 r.v2.baseScore = true ∧
      0 ≤ r.severity ∧ r.severity ≤ 4 := by
  simp only [readCve, Option.bind_eq_bind, Option.bind_eq_some_iff, Option.pure_def,
    Option.some.injEq] at h
  obtain ⟨_, -, _, -, _, -, rfl⟩ := h
  refine ⟨?_, extractFirstCvss_check _ _, recordSeverity_bounds _ _⟩
  simp only
  split <;> exact extractFirstCvss_check _ _

theorem all_filter_contains (allowed : List Bytes) (v : Option Bytes) :
    (v.filter (allowed.contains ·)).all (allowed.contains ·) = true := by
  cases v with
  | none => rfl
  | some b => by_cases hb : allowed.contains b = true <;> simp_all [Option.filter]

/-- No record that is read is refused by a CHECK of `cves`. -/
theorem readCve_check {elem : Json} {r : CveRecord} (h : readCve elem = some r)
    (now : Bytes) : (r.row now).check = true := by
  obtain ⟨h3, h2, hlo, hhi⟩ := readCve_eq h
  simp only [CveRow.check, CveRecord.row, h3, h2, all_filter_contains, Bool.and_self,
    Bool.true_and]
  exact decide_eq_true ⟨hlo, hhi⟩

/-- No entry that is read is refused by a CHECK of `cve_cpe_matches`. -/
theorem readCpeMatch_check {m : Json} {r : CpeRecord} (h : readCpeMatch m = some r)
    (cveId : Bytes) (id : ℕ) : (r.row cveId id).check = true := by
  simp only [readCpeMatch, Option.bind_eq_bind, Option.bind_eq_some_iff] at h
  obtain ⟨criteria, -, part, -, vendor, -, product, -, version, -, h⟩ := h
  split at h
  · cases h
  · next hpart =>
      split at h
      · cases h
      · split at h
        · cases h
        · simp only [Option.pure_def, Option.some.injEq] at h
          subst h
          simp only [CpeRow.check, CpeRecord.row, Bool.and_eq_true]
          refine ⟨by simpa only [Bool.not_eq_true', Bool.not_eq_false] using hpart, ?_⟩
          split <;> rfl

/-! ## The entries of a record -/

/-- The entries of one node; a node that is no object has none. -/
def nodeEntries (node : Json) : List Json :=
  if !node.isObject then [] else (jsonGetArray (some node) (ascii "cpeMatch")).getD []

def configEntries (config : Json) : List Json :=
  ((jsonGetArray (some config) (ascii "nodes")).getD []).flatMap nodeEntries

/-- The `cpeMatch` entries of a record, in the order in which they are looked
at. -/
def cpeEntries (elem : Json) : List Json :=
  let cve := jsonGetItem (some elem) (ascii "cve")
  ((jsonGetArray cve (ascii "configurations")).getD []).flatMap configEntries

theorem processCpeMatches_append (cveId : Bytes) (ms ms' : List Json) (st : ℕ × NvdCounts)
    (x : ℕ × Tables) :
    (processCpeMatches cveId (ms ++ ms') st).eval env x =
      if ((processCpeMatches cveId ms st).eval env x).1.2 then
        (processCpeMatches cveId ms st).eval env x
      else
        (processCpeMatches cveId ms' ((processCpeMatches cveId ms st).eval env x).1.1).eval env
          ((processCpeMatches cveId ms st).eval env x).2 := by
  induction ms generalizing st x with
  | nil => simp [processCpeMatches, Prog.eval_pure]
  | cons m ms ih =>
      obtain ⟨budget, c⟩ := st
      cases budget with
      | zero =>
          simp only [List.cons_append, processCpeMatches]
          exact ih (0, c.skipCpe) x
      | succ budget =>
          simp only [List.cons_append, processCpeMatches]
          split
          · exact ih (budget, c.skipCpe) x
          · simp only [Prog.eval_bind]
            cases hr : ((processOneCpeMatch cveId m c).eval env x).1.2 with
            | true => simp [Prog.eval_pure]
            | false => simpa using ih _ _

theorem processNodes_eq (cveId : Bytes) (nodes : List Json) (st : ℕ × NvdCounts)
    (x : ℕ × Tables) :
    (processNodes cveId nodes st).eval env x =
      (processCpeMatches cveId (nodes.flatMap nodeEntries) st).eval env x := by
  induction nodes generalizing st x with
  | nil => rfl
  | cons node nodes ih =>
      rw [List.flatMap_cons, processCpeMatches_append, processNodes, nodeEntries]
      split
      · simpa [processCpeMatches, Prog.eval_pure] using ih st x
      · simp only [Prog.eval_bind, processCpeNode]
        cases hm : jsonGetArray (some node) (ascii "cpeMatch") with
        | none => simpa [processCpeMatches, Prog.eval_pure] using ih st x
        | some entries =>
            simp only [Option.getD_some]
            cases hf : ((processCpeMatches cveId entries st).eval env x).1.2 with
            | true => simp [Prog.eval_pure]
            | false => simpa [hf] using ih _ _

theorem processConfigurations_eq (cveId : Bytes) (configs : List Json) (st : ℕ × NvdCounts)
    (x : ℕ × Tables) :
    (processConfigurations cveId configs st).eval env x =
      (processCpeMatches cveId (configs.flatMap configEntries) st).eval env x := by
  induction configs generalizing st x with
  | nil => rfl
  | cons config configs ih =>
      rw [List.flatMap_cons, processCpeMatches_append, processConfigurations, configEntries]
      cases hn : jsonGetArray (some config) (ascii "nodes") with
      | none => simpa [processCpeMatches, Prog.eval_pure] using ih st x
      | some nodes =>
          simp only [Prog.eval_bind, processNodes_eq, Option.getD_some]
          cases hf : ((processCpeMatches cveId (nodes.flatMap nodeEntries) st).eval env x).1.2 with
          | true => simp [Prog.eval_pure]
          | false => simpa [hf] using ih _ _

/-! ## One entry -/

/-- The entry's record, if it is read at all. -/
def acceptCpe (m : Json) : Option CpeRecord := if m.isObject then readCpeMatch m else none

/-- Why an entry is skipped: it is not read, a bind of its insert fails, or a
constraint refuses its row. -/
def CpeSkipped (env : Env Call Bytes) (cveId : Bytes) (m : Json) (d : Tables) : Prop :=
  acceptCpe m = none ∨ (∃ n, env.fault n (.bind .cpeInsert) = true) ∨
    ∃ r now, acceptCpe m = some r ∧ cpeInsert cveId r now d = none

/-- What one entry does to the counts and the tables: it is skipped and changes
nothing, or it goes through the insert. -/
inductive CpeEffect (env : Env Call Bytes) (cveId : Bytes) (m : Json) :
    NvdCounts × Tables → NvdCounts × Tables → Prop
  | skipped (c : NvdCounts) {d : Tables} (why : CpeSkipped env cveId m d) :
      CpeEffect env cveId m (c, d) (c.skipCpe, d)
  | ingested (c : NvdCounts) {d d' : Tables} {r : CpeRecord} {now : Bytes}
      (hread : acceptCpe m = some r) (hinsert : cpeInsert cveId r now d = some d') :
      CpeEffect env cveId m (c, d) (c.ingestCpe, d')

/-- The records inserted one after the other; a refused one changes nothing. -/
def insertCpes (cveId : Bytes) (rs : List CpeRecord) (d : Tables) : Tables :=
  rs.foldl (fun d r => (cpeInsert cveId r [] d).getD d) d

@[simp] theorem insertCpes_nil (cveId : Bytes) (d : Tables) : insertCpes cveId [] d = d := rfl

@[simp] theorem insertCpes_cons (cveId : Bytes) (r : CpeRecord) (rs : List CpeRecord)
    (d : Tables) :
    insertCpes cveId (r :: rs) d = insertCpes cveId rs ((cpeInsert cveId r [] d).getD d) := rfl

theorem cpeInsert_frame {cveId now : Bytes} {r : CpeRecord} {d d' : Tables}
    (h : cpeInsert cveId r now d = some d') : d'.cves = d.cves ∧ d'.syncState = d.syncState := by
  rw [cpeInsert] at h
  split at h
  · cases h
  · split at h
    · cases h
      exact ⟨rfl, rfl⟩
    · split at h
      · cases h
      · cases h
        exact ⟨rfl, rfl⟩

theorem insertCpes_cves (cveId : Bytes) (rs : List CpeRecord) (d : Tables) :
    (insertCpes cveId rs d).cves = d.cves := by
  induction rs generalizing d with
  | nil => rfl
  | cons r rs ih =>
      rw [insertCpes_cons, ih]
      cases h : cpeInsert cveId r [] d with
      | none => rfl
      | some d' => exact (cpeInsert_frame h).1

/-- The three ways one readable entry can end. -/
theorem processOneCpeMatch_cases (env : Env Call Bytes) (cveId : Bytes) {m : Json}
    {r : CpeRecord} (hr : readCpeMatch m = some r) (c : NvdCounts) (x : ℕ × Tables) :
    (∃ i, env.fault i (.bind .cpeInsert) = true ∧
      ∃ n, (processOneCpeMatch cveId m c).eval env x = ((c.skipCpe, false), n, x.2)) ∨
    (∃ n, (processOneCpeMatch cveId m c).eval env x = ((c, true), n, x.2)) ∨
    (cpeInsert cveId r [] x.2 = none ∧
      ∃ n, (processOneCpeMatch cveId m c).eval env x = ((c.skipCpe, false), n, x.2)) ∨
    (∃ d, cpeInsert cveId r [] x.2 = some d ∧
      ∃ n, (processOneCpeMatch cveId m c).eval env x = ((c.ingestCpe, false), n, d)) := by
  rw [processOneCpeMatch, hr]
  simp only [Prog.eval_bind]
  obtain ⟨-, hb⟩ | ⟨i, -, hf, hb⟩ :=
    Prog.attemptAll_cases env (Call.bind .cpeInsert) 11 x
  · rw [hb]
    simp only [if_true, Prog.eval_bind]
    -- the clock does not enter the insert
    obtain ⟨-, hs⟩ | ⟨-, hn, hs⟩ | ⟨-, d, hd, hs⟩ :=
      Prog.exec_cases env (Call.step .cpeInsert) (cpeInsert cveId r) (x.1 + 11, x.2)
    · rw [hs]
      exact Or.inr (Or.inl ⟨_, rfl⟩)
    · rw [hs]
      exact Or.inr (Or.inr (Or.inl ⟨hn, _, rfl⟩))
    · rw [hs]
      exact Or.inr (Or.inr (Or.inr ⟨d, hd, _, rfl⟩))
  · rw [hb]
    exact Or.inl ⟨_, hf, _, rfl⟩

theorem processOneCpeMatch_effect {cveId : Bytes} {m : Json} {c c' : NvdCounts}
    {x x' : ℕ × Tables} (hobject : m.isObject = true)
    (h : (processOneCpeMatch cveId m c).eval env x = ((c', false), x')) :
    CpeEffect env cveId m (c, x.2) (c', x'.2) := by
  have haccept : acceptCpe m = readCpeMatch m := by rw [acceptCpe, if_pos hobject]
  cases hr : readCpeMatch m with
  | none =>
      rw [processOneCpeMatch, hr, Prog.eval_pure] at h
      cases h
      exact .skipped _ (Or.inl (haccept.trans hr))
  | some r =>
      obtain ⟨i, hf, n, he⟩ | ⟨n, he⟩ | ⟨hrefused, n, he⟩ | ⟨d, hd, n, he⟩ :=
        processOneCpeMatch_cases env cveId hr c x <;> rw [he] at h <;> cases h
      · exact .skipped _ (Or.inr (Or.inl ⟨i, hf⟩))
      · exact .skipped _ (Or.inr (Or.inr ⟨r, [], haccept.trans hr, hrefused⟩))
      · exact .ingested _ (haccept.trans hr) hd

/-! ## The entries of one record -/

/-- The entries within the budget are looked at, and the others are counted as
skipped. -/
theorem processCpeMatches_steps {cveId : Bytes} {ms : List Json} {st st' : ℕ × NvdCounts}
    {x x' : ℕ × Tables}
    (h : (processCpeMatches cveId ms st).eval env x = ((st', false), x')) :
    ∃ c, Steps (CpeEffect env cveId) (ms.take st.1) (st.2, x.2) (c, x'.2) ∧
      st'.2 = (ms.drop st.1).foldl (fun c _ => c.skipCpe) c := by
  induction ms generalizing st x with
  | nil =>
      rw [processCpeMatches, Prog.eval_pure] at h
      cases h
      exact ⟨st'.2, by simpa using Steps.nil _, by simp⟩
  | cons m ms ih =>
      obtain ⟨budget, c⟩ := st
      cases budget with
      | zero =>
          obtain ⟨c₁, hsteps, hc⟩ := ih h
          rw [List.take_zero] at hsteps
          obtain ⟨rfl, hview⟩ := Prod.mk.inj hsteps.eq_of_nil
          rw [List.take_zero, ← hview]
          exact ⟨c, .nil _, by simpa using hc⟩
      | succ budget =>
          rw [processCpeMatches] at h
          rw [List.take_succ_cons, List.drop_succ_cons]
          split at h
          · next hobject =>
              obtain ⟨c₁, hsteps, hc⟩ := ih h
              have hunread : acceptCpe m = none := by
                rw [acceptCpe, if_neg]
                simpa using hobject
              exact ⟨c₁, .cons (.skipped c (Or.inl hunread)) hsteps, hc⟩
          · next hobject =>
              rw [Prog.eval_bind] at h
              obtain ⟨⟨⟨c₁, fatal⟩, x₁⟩, hone⟩ :
                  ∃ r, (processOneCpeMatch cveId m c).eval env x = r := ⟨_, rfl⟩
              rw [hone] at h
              cases fatal with
              | true => simp [Prog.eval_pure] at h
              | false =>
                  obtain ⟨c₂, hsteps, hc⟩ := ih h
                  have hone := processOneCpeMatch_effect (by simpa using hobject) hone
                  exact ⟨c₂, .cons hone hsteps, hc⟩

/-- Which entries reached the table: a sublist of those accepted within the
budget, and all of them when no bind of the insert failed. -/
theorem processCpeMatches_tables {cveId : Bytes} {ms : List Json} {st st' : ℕ × NvdCounts}
    {x x' : ℕ × Tables}
    (h : (processCpeMatches cveId ms st).eval env x = ((st', false), x')) :
    ∃ rs, rs.Sublist ((ms.take st.1).filterMap acceptCpe) ∧
      x'.2 = insertCpes cveId rs x.2 ∧
      ((∀ n, env.fault n (.bind .cpeInsert) = false) →
        rs = (ms.take st.1).filterMap acceptCpe) := by
  induction ms generalizing st x with
  | nil =>
      rw [processCpeMatches, Prog.eval_pure] at h
      cases h
      exact ⟨[], by simp, rfl, by simp⟩
  | cons m ms ih =>
      obtain ⟨budget, c⟩ := st
      cases budget with
      | zero =>
          have hrest : (processCpeMatches cveId ms (0, c.skipCpe)).eval env x =
              ((st', false), x') := h
          obtain ⟨rs, hsub, htab, hall⟩ := ih hrest
          exact ⟨rs, by simpa using hsub, htab, by simpa using hall⟩
      | succ budget =>
          rw [processCpeMatches] at h
          split at h
          · next hobj =>
              obtain ⟨rs, hsub, htab, hall⟩ := ih h
              have hskip : acceptCpe m = none := by simp_all [acceptCpe]
              refine ⟨rs, ?_, htab, ?_⟩ <;>
                rw [List.take_succ_cons, List.filterMap_cons_none hskip]
              · exact hsub
              · exact hall
          · next hobj =>
              have hobj' : m.isObject = true := by simpa using hobj
              have hacc : acceptCpe m = readCpeMatch m := by simp [acceptCpe, hobj']
              rw [Prog.eval_bind] at h
              cases hr : readCpeMatch m with
              | none =>
                  rw [processOneCpeMatch, hr, Prog.eval_pure] at h
                  obtain ⟨rs, hsub, htab, hall⟩ := ih h
                  refine ⟨rs, ?_, htab, ?_⟩ <;>
                    rw [List.take_succ_cons, List.filterMap_cons_none (hacc.trans hr)]
                  · exact hsub
                  · exact hall
              | some r =>
                  rw [List.take_succ_cons, List.filterMap_cons_some (hacc.trans hr)]
                  obtain ⟨i, hf, n, he⟩ | ⟨n, he⟩ | ⟨hn, n, he⟩ | ⟨d, hd, n, he⟩ :=
                    processOneCpeMatch_cases env cveId hr c x
                  · rw [he] at h
                    obtain ⟨rs, hsub, htab, -⟩ := ih h
                    exact ⟨rs, hsub.cons r, htab, fun hno => by simp [hno] at hf⟩
                  · rw [he] at h
                    simp [Prog.eval_pure] at h
                  · rw [he] at h
                    obtain ⟨rs, hsub, htab, hall⟩ := ih h
                    refine ⟨r :: rs, hsub.cons_cons r, ?_, fun hno => by rw [hall hno]⟩
                    rw [insertCpes_cons, hn]
                    exact htab
                  · rw [he] at h
                    obtain ⟨rs, hsub, htab, hall⟩ := ih h
                    refine ⟨r :: rs, hsub.cons_cons r, ?_, fun hno => by rw [hall hno]⟩
                    rw [insertCpes_cons, hd]
                    exact htab

/-! ## One record -/

/-- The tables after the upsert of a record that passes the checks. -/
def cveUpserted (r : CveRecord) (now : Bytes) (d : Tables) : Tables :=
  let row :=
    match d.cves r.cveId with
    | none => r.row now
    | some old => old.onConflict (r.row now)
  { d with cves := Function.update d.cves r.cveId (some row) }

theorem cveUpsert_eq {elem : Json} {r : CveRecord} (h : readCve elem = some r)
    (now : Bytes) (d : Tables) : cveUpsert r now d = some (cveUpserted r now d) := by
  rw [cveUpsert, readCve_check h now]
  rfl

/-- The ways one readable record can go: its bind fails, its step fails, or it
is upserted and its entries follow. -/
theorem processOneCve_cases (env : Env Call Bytes) {elem : Json} {r : CveRecord}
    (hr : readCve elem = some r) (c : NvdCounts) (x : ℕ × Tables) :
    (∃ i, env.fault i (.bind .cveUpsert) = true ∧
      ∃ n, (processOneCve elem c).eval env x = ((c.skipCve, false), n, x.2)) ∨
    (∃ n, (processOneCve elem c).eval env x = ((c, true), n, x.2)) ∨
    (∃ n now st fatal x',
      (processCpeMatches r.cveId (cpeEntries elem) (nvdMaxCpePerCve, c.ingestCve)).eval env
        (n, cveUpserted r now x.2) = ((st, fatal), x') ∧
      (processOneCve elem c).eval env x = ((st.2, fatal), x')) := by
  rw [processOneCve, hr]
  simp only [Prog.eval_bind]
  obtain ⟨-, hb⟩ | ⟨i, -, hf, hb⟩ :=
    Prog.attemptAll_cases env (Call.bind .cveUpsert) 11 x
  · rw [hb]
    simp only [if_true, Prog.eval_bind]
    obtain ⟨-, hs⟩ | ⟨-, hn, hs⟩ | ⟨-, d, hd, hs⟩ :=
      Prog.exec_cases env (Call.step .cveUpsert) (cveUpsert r) (x.1 + 11, x.2)
    · rw [hs]
      exact Or.inr (Or.inl ⟨_, rfl⟩)
    · rw [cveUpsert_eq hr] at hn
      cases hn
    · rw [cveUpsert_eq hr] at hd
      cases hd
      rw [hs]
      refine Or.inr (Or.inr ⟨x.1 + 11 + 1, env.clock (x.1 + 11), _, _, _, rfl, ?_⟩)
      simp only [cpeEntries]
      cases hconf : jsonGetArray (jsonGetItem (some elem) (ascii "cve"))
          (ascii "configurations") with
      | none => rfl
      | some configs =>
          simp only [Prog.eval_bind, processConfigurations_eq]
          rfl
  · rw [hb]
    exact Or.inl ⟨_, hf, _, rfl⟩

/-- What one record does to the counts and the tables: it is skipped and changes
nothing, because it is not read or a bind of its upsert fails, or it is upserted
and its entries follow; those beyond the budget are skipped. -/
inductive NvdEffect (env : Env Call Bytes) (elem : Json) :
    NvdCounts × Tables → NvdCounts × Tables → Prop
  | skipped (c : NvdCounts) (d : Tables)
      (why : readCve elem = none ∨ ∃ n, env.fault n (.bind .cveUpsert) = true) :
      NvdEffect env elem (c, d) (c.skipCve, d)
  | ingested (c : NvdCounts) {c₁ : NvdCounts} {d d₁ d₂ : Tables} {r : CveRecord} {now : Bytes}
      (hread : readCve elem = some r) (hupsert : cveUpsert r now d = some d₁)
      (hentries : Steps (CpeEffect env r.cveId) ((cpeEntries elem).take nvdMaxCpePerCve)
        (c.ingestCve, d₁) (c₁, d₂)) :
      NvdEffect env elem (c, d)
        (((cpeEntries elem).drop nvdMaxCpePerCve).foldl (fun c _ => c.skipCpe) c₁, d₂)

theorem processOneCve_effect {elem : Json} {c c' : NvdCounts} {x x' : ℕ × Tables}
    (h : (processOneCve elem c).eval env x = ((c', false), x')) :
    NvdEffect env elem (c, x.2) (c', x'.2) := by
  cases hr : readCve elem with
  | none =>
      rw [processOneCve, hr, Prog.eval_pure] at h
      cases h
      exact .skipped _ _ (Or.inl hr)
  | some r =>
      obtain ⟨i, hf, n, he⟩ | ⟨n, he⟩ | ⟨n, now, st, fatal, x₁, hm, he⟩ :=
        processOneCve_cases env hr c x <;> rw [he] at h <;> cases h
      · exact .skipped _ _ (Or.inr ⟨i, hf⟩)
      · obtain ⟨c₁, hsteps, hc⟩ := processCpeMatches_steps hm
        rw [hc]
        exact .ingested c hr (cveUpsert_eq hr now x.2) hsteps

/-- The records of `cve_cpe_matches` that a record of the feed brings: the
accepted entries within the budget. -/
def cpeRecords (elem : Json) : List CpeRecord :=
  ((cpeEntries elem).take nvdMaxCpePerCve).filterMap acceptCpe

/-- The tables after one record: as before, or upserted with some of its
entries. Without a failing bind nothing is left out. -/
theorem processOneCve_tables {elem : Json} {c c' : NvdCounts} {x x' : ℕ × Tables}
    (h : (processOneCve elem c).eval env x = ((c', false), x')) :
    (x'.2 = x.2 ∧ ((∀ n, env.fault n (.bind .cveUpsert) = false) → readCve elem = none)) ∨
    (∃ r now rs, readCve elem = some r ∧ rs.Sublist (cpeRecords elem) ∧
      x'.2 = insertCpes r.cveId rs (cveUpserted r now x.2) ∧
      ((∀ n, env.fault n (.bind .cpeInsert) = false) → rs = cpeRecords elem)) := by
  cases hr : readCve elem with
  | none =>
      rw [processOneCve, hr, Prog.eval_pure] at h
      cases h
      exact Or.inl ⟨rfl, fun _ => rfl⟩
  | some r =>
      obtain ⟨i, hf, n, he⟩ | ⟨n, he⟩ | ⟨n, now, st, fatal, x₁, hm, he⟩ :=
        processOneCve_cases env hr c x <;> rw [he] at h <;> cases h
      · exact Or.inl ⟨rfl, fun hno => by simp [hno] at hf⟩
      · obtain ⟨rs, hsub, htab, hall⟩ := processCpeMatches_tables hm
        exact Or.inr ⟨r, now, rs, rfl, hsub, htab, hall⟩

end Cytadel.Db
