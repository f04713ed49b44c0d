import Cytadel.Lib.Course
import Cytadel.Proofs.PageTables
import Cytadel.Proofs.RecordTables

/-!
# What an ingest keeps under a schedule

Which calls an ingest makes hangs on the schedule and on the document, not on
the tables: no record that is read is refused by a constraint. So the course
of an ingest can be read off without running it. It answers OK exactly where
the course ends, and then it has written, record by record, what the course
kept: a record whose own bind failed is left out, or left at its placeholder.
-/

namespace Cytadel.Db

open Cytadel Lib

variable {C ρ α β : Type} {env : Env Call Bytes}

/-! ## The courses -/

def prepares (fault : ℕ → Call → Bool) : List Stmt → Course Unit
  | [] => pure ()
  | st :: rest => do
      Course.must fault (.prepare st)
      prepares fault rest

/-- An entry is inserted, or left out. -/
def cpeCourse (fault : ℕ → Call → Bool) (q : CpeRecord) : Course (Option CpeRecord) := do
  if ← Course.statement fault (.bind .cpeInsert) (.step .cpeInsert) 11 then pure (some q)
  else pure none

/-- What is read off an element of the NVD feed: the record and its entries. -/
abbrev CveItem := CveRecord × List CpeRecord

def readCveItem (elem : Json) : Option CveItem :=
  (readCve elem).map fun r => (r, cpeRecords elem)

/-- A record is upserted and some of its entries are inserted, or all of it is
left out. -/
def cveCourse (fault : ℕ → Call → Bool) (i : CveItem) : Course (Option CveItem) := do
  if ← Course.statement fault (.bind .cveUpsert) (.step .cveUpsert) 11 then
    let cpes ← Course.walk (cpeCourse fault) i.2
    pure (some (i.1, cpes))
  else pure none

/-- A KEV or EPSS record is left out, or its placeholder is written; then the
row is, or it is left at the placeholder. -/
def recordCourse (fault : ℕ → Call → Bool) (st : Stmt) (binds : ℕ) (a : α) :
    Course (Option (α × Bool)) := do
  Course.must fault .timestamp
  if ← Course.statement fault (.bind .placeholder) (.step .placeholder) 3 then
    let written ← Course.statement fault (.bind st) (.step st) binds
    pure (some (a, written))
  else pure none

namespace FeedSpec

/-- The records of a document that are looked at and read. -/
def items (f : FeedSpec C) (w : World) (read : Json → Option α) (bytes : Bytes) : List α :=
  (((f.records (w.parse bytes)).getD []).take f.maxRecords).filterMap read

/-- The transaction around the records. -/
def course (f : FeedSpec C) (fault : ℕ → Call → Bool) (records : Course (List β)) :
    Course (List β) := do
  Course.must fault .begin
  prepares fault f.stmts
  let kept ← records
  if ← Course.statement fault (.bind .syncState) (.step .syncState) f.syncBinds then
    Course.must fault .commit
    pure kept
  else failure

/-- What an ingest keeps of the records of a document, when it ends at all. -/
def kept (f : FeedSpec C) (w : World) (read : Json → Option α)
    (one : α → Course (Option β)) (bytes : Bytes) (s : Session Tables ρ) : Option (List β) :=
  if bytes.length > f.maxBytes ∨ w.env.fault s.calls .parse = true ∨ s.txn ≠ none ∨
      f.records (w.parse bytes) = none then none
  else
    (f.course w.env.fault (Course.walk one (f.items w read bytes)) (s.calls + 1)).map (·.1)

end FeedSpec

/-! ## The NVD records -/

/-- A record and its entries, written at some time. -/
def CveWritten (i : CveItem) (d d' : Tables) : Prop :=
  ∃ now, d' = d.apply [(i.1.cveId, i.1.row now)] (i.2.map fun q => (i.1.cveId, q))

theorem cpeInsert_eq_apply {cveId now : Bytes} {q : CpeRecord} {d : Tables}
    (hfk : (d.cves cveId).isSome = true) (hcheck : ∀ id, (q.row cveId id).check = true) :
    cpeInsert cveId q now d = some (d.apply [] [(cveId, q)]) := by
  have hne : d.cves cveId ≠ none := Option.isSome_iff_ne_none.mp hfk
  simp only [cpeInsert, hcheck, Tables.apply, List.foldl_cons, List.foldl_nil, addNew,
    CpeItem.build, Bool.not_true, Bool.false_eq_true, if_false]
  split
  · next hmem => simp only [hmem, if_true]
  · next hnew => simp [hnew, hne]

theorem processOneCpeMatch_follows {cveId : Bytes} {m : Json} {q : CpeRecord}
    (hm : readCpeMatch m = some q) (c : NvdCounts) {x : ℕ × Tables}
    (hfk : (x.2.cves cveId).isSome = true) :
    FollowsAt env (processOneCpeMatch cveId m c) (cpeCourse env.fault q)
      (fun o d => d = x.2.apply [] (o.toList.map fun q => (cveId, q))) x := by
  have hins : ∀ now, cpeInsert cveId q now x.2 = some (x.2.apply [] [(cveId, q)]) := fun now =>
    cpeInsert_eq_apply hfk (readCpeMatch_check hm cveId)
  rw [processOneCpeMatch, hm, cpeCourse]
  refine .statement (fun now => by rw [hins]; rfl) rfl (fun now n d hd => ?_) fun n => ?_
  · rw [hins, Option.some.injEq] at hd
    exact .pure hd.symm
  · exact .pure rfl

/-- The entries within the budget, one after the other. -/
theorem processCpeMatches_follows {cveId : Bytes} (ms : List Json) (budget : ℕ) (c : NvdCounts)
    (x : ℕ × Tables) (hfk : (x.2.cves cveId).isSome = true) :
    FollowsAt env (processCpeMatches cveId ms (budget, c))
      (Course.walk (cpeCourse env.fault) ((ms.take budget).filterMap acceptCpe))
      (fun qs d => d = x.2.apply [] (qs.map fun q => (cveId, q))) x := by
  induction ms generalizing budget c x with
  | nil =>
      rw [List.take_nil]
      exact .pure rfl
  | cons m ms ih =>
      cases budget with
      | zero =>
          have hrest := ih 0 c.skipCpe x hfk
          rw [List.take_zero] at hrest ⊢
          exact hrest
      | succ budget =>
          have hskip := ih budget c.skipCpe x hfk
          rw [List.take_succ_cons, List.filterMap_cons, acceptCpe, processCpeMatches]
          cases hobj : m.isObject with
          | false => exact hskip
          | true =>
              simp only [Bool.not_true, Bool.false_eq_true, if_false, if_true]
              cases hm : readCpeMatch m with
              | none =>
                  rw [processOneCpeMatch, hm]
                  exact hskip
              | some q =>
                  refine (processOneCpeMatch_follows hm c hfk).andThen (fun _ _ => rfl) ?_
                  intro o r n d hd
                  have hfk' : (d.cves cveId).isSome = true := by rwa [hd]
                  refine (ih budget r.1 (n, d) hfk').keep fun qs d' hd' => ?_
                  rw [hd', hd, Tables.apply_apply, List.map_append]
                  rfl

theorem processOneCve_follows {elem : Json} {i : CveItem} (hi : readCveItem elem = some i)
    (c : NvdCounts) (x : ℕ × Tables) :
    FollowsAt env (processOneCve elem c) (cveCourse env.fault i)
      (fun o d => Steps CveWritten o.toList x.2 d) x := by
  obtain ⟨r, hr, rfl⟩ := Option.map_eq_some_iff.mp hi
  rw [processOneCve, hr, cveCourse]
  refine .statement (fun now => by rw [cveUpsert_eq hr]; rfl) rfl (fun now n d hd => ?_)
    fun n => .pure (.nil _)
  rw [cveUpsert_eq hr, Option.some.injEq] at hd
  subst hd
  have hfk : ((cveUpserted r now x.2).cves r.cveId).isSome = true := by simp [cveUpserted]
  have hentries : FollowsAt env _ (Course.walk (cpeCourse env.fault) _) _ _ :=
    processCpeMatches_follows (cpeEntries elem) nvdMaxCpePerCve c.ingestCve
      (n, cveUpserted r now x.2) hfk
  have hwritten : ∀ qs d, d = (cveUpserted r now x.2).apply [] (qs.map fun q => (r.cveId, q)) →
      Steps CveWritten [(r, qs)] x.2 d := by
    rintro qs d rfl
    refine .cons ⟨now, ?_⟩ (.nil _)
    rw [cveUpserted_eq, Tables.apply_apply]
    rfl
  simp only
  cases hconf : jsonGetArray (jsonGetItem (some elem) (ascii "cve")) (ascii "configurations") with
  | none =>
      rw [cpeRecords, cpeEntries, hconf]
      exact .pure (hwritten [] _ rfl)
  | some configs =>
      rw [cpeEntries, hconf] at hentries
      rw [cpeRecords, cpeEntries, hconf]
      refine .result (.of_eval (processConfigurations_eq _ _ _ _) ?_) fun _ => rfl
      exact hentries.keep hwritten

/-! ## The KEV and EPSS records -/

theorem processRecord_follows {read : Reader} {item : Json → Option α} {idOf : α → Bytes}
    {up : α → Bytes → Tables → Option Tables} (had : read.Admitted)
    (hread : ∀ e, read e = (item e).map fun a => (idOf a, up a)) {st : Stmt} {binds : ℕ}
    {e : Json} {a : α} (ha : item e = some a) (c : RecordCounts) (x : ℕ × Tables) :
    FollowsAt env (processRecord read st binds e c) (recordCourse env.fault st binds a)
      (fun o d => Steps (RecordWritten idOf up) o.toList x.2 d) x := by
  have hr : read e = some (idOf a, up a) := by rw [hread, ha, Option.map_some]
  rw [processRecord, hr]
  simp only [writeWithPlaceholder]
  refine .timestamp rfl fun nowTs n => ?_
  refine .statement (fun now => by rw [insertPlaceholder_eq]; rfl) rfl (fun now n d hd => ?_)
    fun n => .pure (.nil _)
  rw [insertPlaceholder_eq, Option.some.injEq] at hd
  subst hd
  refine .statement_keep (fun now' => ?_) rfl rfl (fun now' d hd => ?_) ?_
  · exact had e _ _ hr now' _ (withPlaceholder_isSome _ _ _ _)
  · exact .cons ⟨nowTs, now, now', hd⟩ (.nil _)
  · exact .cons ⟨nowTs, now, rfl⟩ (.nil _)

/-! ## One document -/

theorem prepareStatements_follows (env : Env Call Bytes) (sts : List Stmt) (x : ℕ × Tables) :
    match prepares env.fault sts x.1 with
    | none => ((prepareStatements sts).eval env x).1 = false
    | some p => (prepareStatements sts).eval env x = (true, p.2, x.2) := by
  induction sts generalizing x with
  | nil => rfl
  | cons st rest ih =>
      rw [prepares, Course.bind_apply, Course.must, prepareStatements, Prog.eval_bind,
        Prog.eval_attempt]
      cases env.fault x.1 (.prepare st) with
      | true => rfl
      | false => exact ih (x.1 + 1, x.2)

namespace FeedSpec

variable {f : FeedSpec C} {read : Json → Option α} {one : α → Course (Option β)}
  {R : β → Tables → Tables → Prop}

/-- An element that is not read is passed over, and one that is goes as its
course does. -/
structure FollowsRecords (f : FeedSpec C) (env : Env Call Bytes) (read : Json → Option α)
    (one : α → Course (Option β)) (R : β → Tables → Tables → Prop) : Prop where
  unread : ∀ e c, read e = none → ∃ c', f.processOne e c = pure (c', false)
  read : ∀ e a c x, read e = some a →
    FollowsAt env (f.processOne e c) (one a) (fun o d => Steps R o.toList x.2 d) x

/-- The loop keeps what the walk over the records keeps. -/
theorem ingestRecords_follows (hf : f.FollowsRecords env read one R) (elems : List Json) (m : ℕ)
    (c : C) (x : ℕ × Tables) :
    FollowsAt env (f.ingestRecords elems m c)
      (Course.walk one ((elems.take m).filterMap read)) (fun bs d => Steps R bs x.2 d) x := by
  induction elems generalizing m c x with
  | nil =>
      rw [List.take_nil]
      exact .pure (.nil _)
  | cons e es ih =>
      cases m with
      | zero => exact .pure (.nil _)
      | succ m =>
          rw [List.take_succ_cons, List.filterMap_cons, ingestRecords]
          cases he : read e with
          | none =>
              obtain ⟨c', hc⟩ := hf.unread e c he
              rw [hc]
              exact ih m c' x
          | some a =>
              refine (hf.read e a c x he).andThen (fun _ hr => hr) fun o r n d hone => ?_
              exact (ih m r.1 (n, d)).keep fun bs d' hrest => hone.append hrest

theorem updateSyncState_follows (env : Env Call Bytes)
    (hsync : ∀ n now d, (f.syncUpdate n now d).isSome = true) (c : C) (x : ℕ × Tables) :
    match Course.statement env.fault (.bind .syncState) (.step .syncState) f.syncBinds x.1 with
    | none => ((f.updateSyncState c).eval env x).1 = false
    | some (false, _) => ((f.updateSyncState c).eval env x).1 = false
    | some (true, n) => ∃ now d, (f.updateSyncState c).eval env x = (true, n, d) ∧
        f.syncUpdate (f.seen c) now x.2 = some d := by
  obtain ⟨ok, n, htries, heval⟩ := Prog.eval_attemptAll env (.bind .syncState) f.syncBinds x
  rw [Course.statement, Course.bind_apply, htries, updateSyncState, Prog.eval_bind, heval]
  cases ok with
  | false => rfl
  | true =>
      simp only [Option.bind_some, if_true, Course.bind_apply, Course.must, Prog.eval_bind]
      obtain ⟨hfault, hs⟩ | ⟨-, hn, -⟩ | ⟨hfault, d, hd, hs⟩ :=
        Prog.exec_cases env (.step .syncState) (f.syncUpdate (f.seen c)) (n, x.2)
      · simp only at hfault
        rw [hs, hfault]
        rfl
      · have hsome := hsync (f.seen c) (env.clock n) x.2
        rw [hn] at hsome
        cases hsome
      · simp only at hfault
        rw [hs, hfault]
        exact ⟨_, d, rfl, hd⟩

/-- What an ingest needs before its transaction is open. -/
theorem ingest_status_ne_ok {w : World} {bytes : Bytes} {s : Session Tables ρ}
    (h : bytes.length > f.maxBytes ∨ w.env.fault s.calls .parse = true ∨ s.txn ≠ none ∨
      f.records (w.parse bytes) = none ∨ w.env.fault (s.calls + 1) .begin = true) :
    (f.ingest w bytes s).status ≠ .ok := by
  obtain ⟨hst, -⟩ | ⟨-, elems, start, looped, synced, hok⟩ := f.ingest_cases w bytes s
  · exact hst
  · rcases h with h | h | h | h | h
    · exact absurd h hok.fits
    · rw [hok.noParseFault] at h
      cases h
    · exact absurd hok.closed h
    · rw [hok.parsed] at h
      cases h
    · rw [hok.noBeginFault] at h
      cases h

/-- An ingest that has no course does not answer OK. One that has a course
answers OK, and the durable tables are those before it with what was kept
written to them, and the sync update. -/
theorem ingest_kept {w : World} (hf : f.FollowsRecords w.env read one R)
    (hsync : ∀ n now d, (f.syncUpdate n now d).isSome = true) (bytes : Bytes)
    (s : Session Tables ρ) :
    match f.kept w read one bytes s with
    | none => (f.ingest w bytes s).status ≠ .ok
    | some kept => (f.ingest w bytes s).status = .ok ∧ ∃ n now d, Steps R kept s.committed d ∧
        f.syncUpdate n now d = some (f.ingest w bytes s).session.committed := by
  rw [kept]
  by_cases hpre : bytes.length > f.maxBytes ∨ w.env.fault s.calls .parse = true ∨ s.txn ≠ none ∨
      f.records (w.parse bytes) = none
  · rw [if_pos hpre]
    exact ingest_status_ne_ok (hpre.imp_right (.imp_right (.imp_right .inl)))
  rw [if_neg hpre]
  by_cases hbegin : w.env.fault (s.calls + 1) .begin = true
  · rw [course, Course.bind_apply, Course.must, if_pos hbegin]
    exact ingest_status_ne_ok (.inr (.inr (.inr (.inr hbegin))))
  simp only [not_or, not_not, Bool.not_eq_true] at hpre hbegin
  obtain ⟨hlen, hparse, hclosed, hrec⟩ := hpre
  obtain ⟨elems, hparsed⟩ := Option.ne_none_iff_exists'.mp hrec
  rw [items, hparsed, Option.getD_some, course, Course.bind_apply, Course.must, hbegin]
  rw [ingest_eq hlen hparse hparsed hclosed hbegin]
  simp only [Bool.false_eq_true, if_false, Option.bind_some, Course.bind_apply]
  have hprep := prepareStatements_follows w.env f.stmts (s.calls + 2, s.committed)
  simp only at hprep
  cases hp : prepares w.env.fault f.stmts (s.calls + 1 + 1) with
  | none =>
      rw [hp] at hprep
      simp [hprep]
  | some prepared =>
      rw [hp] at hprep
      have hloop := ingestRecords_follows hf elems f.maxRecords f.zero
        (prepared.2, s.committed)
      rw [FollowsAt] at hloop
      simp only [hprep, Option.bind_some, Bool.not_true, Bool.false_eq_true, if_false]
      simp only at hloop
      cases hl : Course.walk one ((elems.take f.maxRecords).filterMap read) prepared.2 with
      | none =>
          rw [hl] at hloop
          simp [hloop]
      | some looped =>
          rw [hl] at hloop
          obtain ⟨c, d, heval, hsteps⟩ := hloop
          have hsyncs := updateSyncState_follows w.env hsync c (looped.2, d)
          simp only [heval, Option.bind_some, Bool.false_eq_true, if_false]
          simp only at hsyncs
          cases hs : Course.statement w.env.fault (.bind .syncState) (.step .syncState)
              f.syncBinds looped.2 with
          | none =>
              rw [hs] at hsyncs
              simp [hsyncs]
          | some synced =>
              obtain ⟨ok, n⟩ := synced
              rw [hs] at hsyncs
              cases ok with
              | false =>
                  have hstop : (failure : Course (List β)) n = none := rfl
                  simp only at hsyncs
                  simp [hsyncs, hstop]
              | true =>
                  obtain ⟨now, d', heval', hd'⟩ := hsyncs
                  simp only [heval', if_true, Course.bind_apply, Course.must, Bool.not_true,
                    Bool.false_eq_true, if_false, Option.bind_some]
                  cases hcommit : w.env.fault n .commit with
                  | true => simp
                  | false => exact ⟨rfl, f.seen c, now, d, hsteps, hd'⟩

/-- An ingest whose document is read, without failures, keeps every record. -/
theorem kept_faultless {w : World} {g : α → β}
    (hone : ∀ a n, ∃ n', one a n = some (some (g a), n')) {bytes : Bytes} {s : Session Tables ρ}
    (hlen : ¬ bytes.length > f.maxBytes) (hclosed : s.txn = none)
    (hrec : f.records (w.parse bytes) ≠ none) :
    f.kept w.faultless read one bytes s = some ((f.items w read bytes).map g) := by
  have hprep : ∀ sts n, ∃ n', prepares (fun _ _ => false) sts n = some ((), n') := by
    intro sts
    induction sts with
    | nil => exact fun n => ⟨n, rfl⟩
    | cons st rest ih => exact fun n => ih (n + 1)
  obtain ⟨n₁, hp⟩ := hprep f.stmts (s.calls + 1 + 1)
  obtain ⟨n₂, hw⟩ := Course.walk_all hone (f.items w read bytes) n₁
  have hcourse : f.course (fun _ _ => false) (Course.walk one (f.items w read bytes))
      (s.calls + 1) = some ((f.items w read bytes).map g, n₂ + f.syncBinds + 1 + 1) := by
    rw [course, Course.bind_apply, Course.must, if_neg Bool.false_ne_true, Option.bind_some,
      Course.bind_apply, hp, Option.bind_some, Course.bind_apply, hw, Option.bind_some,
      Course.bind_apply, Course.statement_faultless]
    rfl
  rw [kept, if_neg]
  · exact congrArg (Option.map Prod.fst) hcourse
  · simp [hlen, hclosed, hrec]

/-- A document that can be read and meets no failure is ingested. -/
theorem ingest_faultless_ok {w : World} {g : α → β}
    (hf : f.FollowsRecords w.faultless.env read one R)
    (hone : ∀ a n, ∃ n', one a n = some (some (g a), n'))
    (hsync : ∀ n now d, (f.syncUpdate n now d).isSome = true) {bytes : Bytes}
    {s : Session Tables ρ} (hlen : ¬ bytes.length > f.maxBytes) (hclosed : s.txn = none)
    (hrec : f.records (w.parse bytes) ≠ none) : (f.ingest w.faultless bytes s).status = .ok := by
  have hrun := ingest_kept hf hsync bytes s
  rw [kept_faultless hone hlen hclosed hrec] at hrun
  exact hrun.1

/-- What an ingest that ends has before its transaction. -/
theorem of_kept {w : World} {bytes : Bytes} {s : Session Tables ρ} {kept : List β}
    (h : f.kept w read one bytes s = some kept) :
    ¬ bytes.length > f.maxBytes ∧ s.txn = none ∧ f.records (w.parse bytes) ≠ none := by
  rw [FeedSpec.kept] at h
  split at h
  · cases h
  · next hpre =>
      simp only [not_or, not_not] at hpre
      exact ⟨hpre.1, hpre.2.2⟩

end FeedSpec

/-! ## The feeds -/

theorem nvdFeed_follows (env : Env Call Bytes) (endDate : Bytes) (complete : Bool) :
    (nvdFeed endDate complete).FollowsRecords env readCveItem (cveCourse env.fault)
      CveWritten where
  unread e c he := by
    refine ⟨c.skipCve, ?_⟩
    change processOneCve e c = _
    rw [processOneCve, Option.map_eq_none_iff.mp he]
  read e i c x hi := processOneCve_follows hi c x

/-- An element of the KEV array, as far as it is read. -/
def kevItem (e : Json) : Option KevRecord := if e.isObject then readKev e else none

def epssItem (w : World) (e : Json) : Option EpssRecord := if e.isObject then readEpss w e else none

theorem kevReader_eq (e : Json) :
    kevReader e = (kevItem e).map fun r => (r.cveId, kevUpsert r) := by
  rw [kevReader, kevItem]
  split <;> rfl

theorem epssReader_eq (w : World) (e : Json) :
    epssReader w e = (epssItem w e).map fun r => (r.cveId, epssUpsert r) := by
  rw [epssReader, epssItem]
  split <;> rfl

theorem processRecord_unread {read : Reader} {item : Json → Option α} {idOf : α → Bytes}
    {up : α → Bytes → Tables → Option Tables}
    (hread : ∀ e, read e = (item e).map fun a => (idOf a, up a)) (st : Stmt) (binds : ℕ)
    {e : Json} (he : item e = none) (c : RecordCounts) :
    processRecord read st binds e c = pure (c.skip, false) := by
  rw [processRecord, hread, he]
  rfl

theorem kevFeed_follows (env : Env Call Bytes) (complete : Bool) :
    (kevFeed complete).FollowsRecords env kevItem (recordCourse env.fault .kevUpsert 9)
      (RecordWritten KevRecord.cveId kevUpsert) where
  unread e c he := by
    rw [kevFeed_processOne]
    exact ⟨c.skip, processRecord_unread kevReader_eq _ _ he c⟩
  read e i c x hi := by
    rw [kevFeed_processOne]
    exact processRecord_follows kevReader_admitted kevReader_eq hi c x

theorem epssFeed_follows (env : Env Call Bytes) (w : World) (complete : Bool) :
    (epssFeed w complete).FollowsRecords env (epssItem w) (recordCourse env.fault .epssUpsert 4)
      (RecordWritten EpssRecord.cveId epssUpsert) where
  unread e c he := by
    rw [epssFeed_processOne]
    exact ⟨c.skip, processRecord_unread (epssReader_eq w) _ _ he c⟩
  read e i c x hi := by
    rw [epssFeed_processOne]
    exact processRecord_follows (epssReader_admitted w) (epssReader_eq w) hi c x

theorem cveCourse_faultless (i : CveItem) (n : ℕ) :
    ∃ n', cveCourse (fun _ _ => false) i n = some (some i, n') := by
  have hone : ∀ q n, ∃ n', cpeCourse (fun _ _ => false) q n = some (some q, n') := by
    intro q n
    refine ⟨n + 11 + 1, ?_⟩
    rw [cpeCourse, Course.bind_apply, Course.statement_faultless]
    rfl
  obtain ⟨n', hw⟩ := Course.walk_all hone i.2 (n + 11 + 1)
  refine ⟨n', ?_⟩
  rw [cveCourse, Course.bind_apply, Course.statement_faultless, Option.bind_some, if_pos rfl,
    Course.bind_apply, hw, List.map_id']
  rfl

theorem recordCourse_faultless (st : Stmt) (binds : ℕ) (a : α) (n : ℕ) :
    ∃ n', recordCourse (fun _ _ => false) st binds a n = some (some (a, true), n') := by
  refine ⟨n + 1 + 3 + 1 + binds + 1, ?_⟩
  rw [recordCourse, Course.bind_apply, Course.must, if_neg Bool.false_ne_true, Option.bind_some,
    Course.bind_apply, Course.statement_faultless, Option.bind_some, if_pos rfl,
    Course.bind_apply, Course.statement_faultless]
  rfl

end Cytadel.Db
