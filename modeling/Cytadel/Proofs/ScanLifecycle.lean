import Cytadel.Proofs.Integrity
import Cytadel.Proofs.ScanFaults
import Cytadel.Proofs.TargetRecord

/-!
# What a scan leaves behind

A scan that passed the gate has a row, and `main` has many ways out. On each of
them the file says how the scan ended, or that it still runs, and this only
when a call of the database failed; of other scans and of the feeds it says
what it said before. A row that says the scan is completed vouches for all of
its results: they are those of a run in which no call fails.
-/

namespace Cytadel.Db

open Cytadel Lib Relation

variable {ρ : Type} {env : Env Call Bytes} {scanId : ℤ}

/-! ## What the persist phase changes -/

/-- The calls of the persist phase of a scan. -/
inductive DbCall.Persists (env : Env Call Bytes) (scanId : ℤ) : DbCall → Prop
  | finding (f : Finding) : Persists env scanId (.finding env scanId f)
  | detection (vendor product : Bytes) (det : Detection) :
      Persists env scanId (.detection env scanId vendor product det)

/-- The scan has results more, a count of malformed rows that may be larger, and
`cves` the placeholders that the results refer to. -/
structure OnlyScan (scanId : ℤ) (d d' : Tables) : Prop where
  cves : OnlyPlaceholders d d'
  cpe : d'.cveCpeMatches = d.cveCpeMatches
  kev : d'.kev = d.kev
  epss : d'.epss = d.epss
  syncState : d'.syncState = d.syncState
  others : ∀ id, id ≠ scanId → d'.scans id = d.scans id
  own : ∀ row, d.scans scanId = some row → ∃ n, row.malformedDataCount ≤ n ∧
    d'.scans scanId = some { row with malformedDataCount := n }
  results : ∃ rows, d'.scanResults = d.scanResults ++ rows ∧ ∀ row ∈ rows, row.scanId = scanId

namespace OnlyScan

theorem refl (d : Tables) : OnlyScan scanId d d where
  cves := .refl d
  cpe := rfl
  kev := rfl
  epss := rfl
  syncState := rfl
  others _ _ := rfl
  own row hrow := ⟨_, le_refl _, hrow⟩
  results := ⟨[], by simp, by simp⟩

theorem trans {a b c : Tables} (h : OnlyScan scanId a b) (h' : OnlyScan scanId b c) :
    OnlyScan scanId a c where
  cves := OnlyPlaceholders.trans a b c h.cves h'.cves
  cpe := h'.cpe.trans h.cpe
  kev := h'.kev.trans h.kev
  epss := h'.epss.trans h.epss
  syncState := h'.syncState.trans h.syncState
  others id hid := (h'.others id hid).trans (h.others id hid)
  own row hrow := by
    obtain ⟨n, hn, hrow'⟩ := h.own row hrow
    obtain ⟨m, hm, hrow''⟩ := h'.own _ hrow'
    exact ⟨m, hn.trans hm, hrow''⟩
  results := by
    obtain ⟨rows, hrows, hof⟩ := h.results
    obtain ⟨rows', hrows', hof'⟩ := h'.results
    refine ⟨rows ++ rows', by rw [hrows', hrows, List.append_assoc], fun row hrow => ?_⟩
    exact (List.mem_append.mp hrow).elim (hof row) (hof' row)

theorem of_reached {d d' : Tables} (h : ReflTransGen (OnlyScan scanId) d d') :
    OnlyScan scanId d d' := by
  induction h with
  | refl => exact .refl d
  | tail _ hstep ih => exact ih.trans hstep

/-- What the scan did is all that the tables have changed by, if its key was
free. -/
theorem of_fresh {d p : Tables} {row : Option ScanRow} (row' : Option ScanRow)
    (hfree : d.scans scanId = none)
    (h : OnlyScan scanId { d with scans := Function.update d.scans scanId row } p) :
    OnlyScan scanId d { p with scans := Function.update p.scans scanId row' } where
  cves := h.cves
  cpe := h.cpe
  kev := h.kev
  epss := h.epss
  syncState := h.syncState
  others id hid := by
    have hother := h.others id hid
    simp only [Function.update_of_ne hid] at hother ⊢
    exact hother
  own row hrow := by
    rw [hfree] at hrow
    cases hrow
  results := h.results

end OnlyScan

theorem insertPlaceholder_onlyScan {id nowTs now : Bytes} {d d' : Tables}
    (h : insertPlaceholder id nowTs now d = some d') : OnlyScan scanId d d' := by
  have hcves := insertPlaceholder_only id nowTs now d d' h
  rw [insertPlaceholder_frame h]
  exact { OnlyScan.refl d with cves := hcves }

theorem insertResult_onlyScan {row : ScanResultRow} (hid : row.scanId = scanId) {now : Bytes}
    {d d' : Tables} (h : insertResult row now d = some d') : OnlyScan scanId d d' := by
  obtain ⟨-, -, rowId, -, -, rfl⟩ := insertResult_eq h
  refine { OnlyScan.refl d with results := ⟨_, rfl, fun out hout => ?_⟩ }
  rw [List.mem_singleton.mp hout]
  exact hid

theorem malformedCountUpdate_onlyScan {n : ℕ} {now : Bytes} {d d' : Tables}
    (h : malformedCountUpdate scanId n now d = some d') : OnlyScan scanId d d' := by
  obtain rfl := Option.some.inj h
  refine { OnlyScan.refl d with others := fun id hid => ?_, own := fun row hrow => ?_ }
  · exact Function.update_of_ne hid ..
  · refine ⟨row.malformedDataCount + n, by omega, ?_⟩
    simp only [Function.update_self, hrow]
    rfl

theorem DbCall.Persists.within {c : DbCall} (hc : c.Persists env scanId) {d : Tables}
    {s : Session Tables ρ} (h : s.Within (OnlyScan scanId) d) :
    (c.run s).Within (OnlyScan scanId) d := by
  cases hc with
  | finding f =>
      exact scanPersistFinding_within h env (findingBody_writes
        (fun _ _ _ _ _ => insertResult_onlyScan rfl) fun _ _ _ _ _ => insertPlaceholder_onlyScan)
  | detection vendor product det =>
      exact scanDetectAndPersist_within h env (detectBody_writes
        (fun _ _ _ _ hid => insertResult_onlyScan hid)
        (fun _ _ _ _ => malformedCountUpdate_onlyScan) · · det) vendor product

theorem DbCall.Persists.settled {c : DbCall} (hc : c.Persists env scanId)
    {s : Session Tables ρ} (h : s.Settled env) : (c.run s).Settled env := by
  cases hc with
  | finding f => exact scanPersistFinding_settled h f
  | detection vendor product det => exact scanDetectAndPersist_settled h vendor product det

/-- What every call keeps, the calls keep. -/
theorem runCalls_keeps (calls : List DbCall) {P : Session Tables ρ → Prop}
    (hstep : ∀ c ∈ calls, ∀ s, P s → P (c.run s)) {s : Session Tables ρ} (h : P s) :
    P (runCalls calls s) := by
  induction calls generalizing s with
  | nil => exact h
  | cons c calls ih =>
      exact ih (fun c' hc' => hstep c' (List.mem_cons_of_mem _ hc'))
        (hstep c List.mem_cons_self s h)

theorem runCalls_cons (c : DbCall) (calls : List DbCall) (s : Session Tables ρ) :
    runCalls (c :: calls) s = runCalls calls (c.run s) := rfl

theorem runCalls_append (calls calls' : List DbCall) (s : Session Tables ρ) :
    runCalls (calls ++ calls') s = runCalls calls' (runCalls calls s) := List.foldl_append

/-! ## The last statement -/

/-- The end of a scan is durable, or a call has failed. -/
theorem scanFinalize_cases (hid : 0 < scanId) (status : FinalizeStatus) {s : Session Tables ρ}
    (h : s.Settled env) {row : ScanRow} (hrow : s.committed.scans scanId = some row) :
    (s.txn = none ∧ (scanFinalize env scanId status s).1 = .ok ∧
      ∃ now, (scanFinalize env scanId status s).2.committed =
        { s.committed with
          scans := Function.update s.committed.scans scanId
            (some { row with status := status.column, finishedAt := some now }) }) ∨
    ((scanFinalize env scanId status s).2.committed = s.committed ∧
      ∃ n < (scanFinalize env scanId status s).2.calls, ∃ k, env.fault n k = true) := by
  rw [scanFinalize, if_neg (by omega)]
  cases ht : s.txn with
  | some x =>
      -- the row would be written to the copy that is open, and that is dropped
      have hle := Prog.le_run_calls (finalizeBody scanId status) env s
      obtain ⟨n, hn, hfault⟩ := h (by rw [ht]; simp)
      have hin : s = s.inTxn (s.calls, x) := by rw [Session.inTxn, ← ht]
      refine .inr ⟨?_, n, by omega, hfault⟩
      rw [hin, Prog.run_inTxn]
      rfl
  | none =>
      rw [finalizeBody, Prog.run_bind, Prog.run_attempt]
      cases hp : env.fault s.calls (.prepare .scanInsert) with
      | true => exact .inr ⟨rfl, s.calls, Nat.lt_succ_self _, _, hp⟩
      | false =>
          have hfault := (Prog.attemptAll_clean (.bind .scanInsert) 2).run_fault env s.tick
          obtain ⟨b, n, hb⟩ := Prog.run_attemptAll env (.bind .scanInsert) 2 s.tick
          simp only [Bool.not_false, Bool.not_true, Bool.false_eq_true, if_false, Prog.run_bind]
          rw [hb] at hfault ⊢
          cases b with
          | false => exact .inr ⟨rfl, hfault (by simp)⟩
          | true =>
              cases hstep : env.fault n (.step .scanInsert) with
              | true =>
                  refine .inr ?_
                  simp only [Bool.not_true, Bool.false_eq_true, if_false, Prog.run, Session.call,
                    hstep, if_true]
                  exact ⟨rfl, n, Nat.lt_succ_self _, _, hstep⟩
              | false =>
                  refine .inl ⟨trivial, ?_, env.clock n, ?_⟩ <;>
                    simp [Prog.run, Session.call, hstep, finalizeUpdate, Session.view,
                      Session.write, Session.tick, ht, hrow]

end Cytadel.Db

namespace Cytadel.Cli

open Cytadel Cytadel.Core Cytadel.Db Cytadel.Net Cytadel.Plugin Lib Relation

/-! ## The persist phase as calls -/

section Calls

variable {ρ : Type} (env : Env Call Bytes) (scanId : ℤ) (r : HostResult)

theorem findingLoop_calls (findings : List PluginFinding) (c : HostCounts)
    (s : Session Tables ρ) : ∃ calls, (∀ call ∈ calls, DbCall.Persists env scanId call) ∧
      (findingLoop env scanId r findings c s).session = runCalls calls s := by
  induction findings generalizing c s with
  | nil => exact ⟨[], by simp, rfl⟩
  | cons f findings ih =>
      rw [findingLoop]
      cases r.persistRow f with
      | none => exact ih c s
      | some row =>
          have hcall : DbCall.Persists env scanId (.finding env scanId row) := .finding row
          have hrun : (scanPersistFinding env scanId row s).2 =
              DbCall.run s (.finding env scanId row) := rfl
          simp only
          generalize scanPersistFinding env scanId row s = out at hrun ⊢
          obtain ⟨status, s₁⟩ := out
          obtain rfl : s₁ = _ := hrun
          have hthen : ∀ c', ∃ calls, (∀ call ∈ calls, DbCall.Persists env scanId call) ∧
              (findingLoop env scanId r findings c'
                (DbCall.run s (.finding env scanId row))).session = runCalls calls s := by
            intro c'
            obtain ⟨calls, hcalls, hsession⟩ := ih c' (DbCall.run s (.finding env scanId row))
            exact ⟨_ :: calls, List.forall_mem_cons.mpr ⟨hcall, hcalls⟩, hsession⟩
          cases status with
          | errDb => exact ⟨[_], List.forall_mem_singleton.mpr hcall, rfl⟩
          | ok => exact hthen _
          | errRowSkipped => exact hthen _
          | errInvalidArg => exact hthen _

theorem portLoop_calls (ports : List (UInt16 × PortState)) (c : HostCounts)
    (s : Session Tables ρ) : ∃ calls, (∀ call ∈ calls, DbCall.Persists env scanId call) ∧
      (portLoop env scanId r ports c s).session = runCalls calls s := by
  induction ports generalizing c s with
  | nil => exact ⟨[], by simp, rfl⟩
  | cons p ports ih =>
      rw [portLoop]
      split
      · exact ih c s
      · cases r.kb with
        | none => exact ih _ s
        | some kb =>
            simp only
            cases resolvePort kb p.1 with
            | none => exact ih _ s
            | some resolved =>
                have hcall : DbCall.Persists env scanId (.detection env scanId resolved.vendor
                    resolved.product (r.detection kb p.1 resolved)) := .detection _ _ _
                have hrun : (scanDetectAndPersist env scanId resolved.vendor resolved.product
                    (r.detection kb p.1 resolved) s).session = DbCall.run s (.detection env scanId
                      resolved.vendor resolved.product (r.detection kb p.1 resolved)) := rfl
                simp only
                generalize scanDetectAndPersist env scanId resolved.vendor resolved.product
                  (r.detection kb p.1 resolved) s = out at hrun ⊢
                have hthen : ∀ c', ∃ calls, (∀ call ∈ calls, DbCall.Persists env scanId call) ∧
                    (portLoop env scanId r ports c' out.session).session = runCalls calls s := by
                  intro c'
                  obtain ⟨calls, hcalls, hsession⟩ := ih c' out.session
                  rw [hrun] at hsession
                  exact ⟨_ :: calls, List.forall_mem_cons.mpr ⟨hcall, hcalls⟩,
                    by rw [hrun]; exact hsession⟩
                cases out.status with
                | errDb => exact ⟨[_], List.forall_mem_singleton.mpr hcall, hrun⟩
                | ok => exact hthen _
                | errRowSkipped => exact hthen _
                | errInvalidArg => exact hthen _

theorem persistHost_calls (s : Session Tables ρ) :
    ∃ calls, (∀ call ∈ calls, DbCall.Persists env scanId call) ∧
      (persistHost env scanId r s).session = runCalls calls s := by
  obtain ⟨calls, hcalls, hfound⟩ := findingLoop_calls env scanId r r.findings .zero s
  simp only [persistHost]
  split
  · exact ⟨[], by simp, rfl⟩
  · split
    · exact ⟨[], by simp, rfl⟩
    · split
      · obtain ⟨calls', hcalls', hports⟩ := portLoop_calls env scanId r r.ports
          (findingLoop env scanId r r.findings .zero s).counts
          (findingLoop env scanId r r.findings .zero s).session
        refine ⟨calls ++ calls', List.forall_mem_append.mpr ⟨hcalls, hcalls'⟩, ?_⟩
        rw [hports, hfound, runCalls_append]
      · exact ⟨calls, hcalls, hfound⟩

theorem persistSlots_calls (slots : List (WorkerResult HostResult)) (t : ScanTotals)
    (s : Session Tables ρ) : ∃ calls, (∀ call ∈ calls, DbCall.Persists env scanId call) ∧
      (persistSlots env scanId slots t s).2 = runCalls calls s := by
  induction slots generalizing t s with
  | nil => exact ⟨[], by simp, rfl⟩
  | cons slot slots ih =>
      have hone : ∃ calls, (∀ call ∈ calls, DbCall.Persists env scanId call) ∧
          (persistSlot env scanId slot t s).2 = runCalls calls s := by
        obtain ⟨calls, hcalls, hhost⟩ := persistHost_calls env scanId slot.result s
        simp only [persistSlot]
        split
        · exact ⟨[], by simp, rfl⟩
        · split
          · exact ⟨[], by simp, rfl⟩
          · split
            · exact ⟨[], by simp, rfl⟩
            · split
              · exact ⟨[], by simp, rfl⟩
              · split <;> exact ⟨calls, hcalls, hhost⟩
      obtain ⟨calls, hcalls, hsession⟩ := hone
      obtain ⟨calls', hcalls', hrest⟩ := ih (persistSlot env scanId slot t s).1
        (persistSlot env scanId slot t s).2
      refine ⟨calls ++ calls', List.forall_mem_append.mpr ⟨hcalls, hcalls'⟩, ?_⟩
      rw [persistSlots, hrest, hsession, runCalls_append]

end Calls

/-! ## The ways through main -/

/-- The scan passed the gate: the tables of its file before it, the method of
the authorization, and the connection once the scan has its row. -/
structure Gated (w : ScanWorld) (args : ScanArgs) (d : Tables) (method : AuthorizationMethod)
    (created : Session Tables Unit) : Prop where
  file : ∃ dbPath d₀, w.dbPath = some dbPath ∧ dbPath ≠ [] ∧ w.dbOpen dbPath = some d₀ ∧
    w.dbMigrate d₀ = some d
  authorized : authGateDecide args.hasIAmAuthorized w.isStdinTty (some w.prompt) =
    .authorized method
  described : describeTargets args.toCliArgs targetDescSize ≠ []
  named : args.authorizedBy.getD w.defaultOperator ≠ []
  created : (scanCreate (w.newScanId d) (describeTargets args.toCliArgs targetDescSize)
    (args.authorizedBy.getD w.defaultOperator) method).run w.env d.connect = (true, created)

variable {w : ScanWorld} {args : ScanArgs} {d : Tables} {method : AuthorizationMethod}
  {created : Session Tables Unit} {e : ScanEnd}

theorem scanMain_ended_iff : scanMain w args = .ended e ↔
    ∃ d method created, Gated w args d method created ∧
      e = expandAndScan w args (w.newScanId d) created := by
  constructor
  · intro h
    rw [scanMain] at h
    split at h
    · cases h
    · next s scanId hpass =>
        obtain ⟨method, dbPath, hmethod, hpath, hgate⟩ := passGate_ok_iff.mp hpass
        obtain ⟨hne, htarget, hnamed, d₀, d, hopen, hmigrate, rfl, hcreated⟩ :=
          openGate_ok_iff.mp hgate
        cases h
        exact ⟨d, method, s, ⟨⟨dbPath, d₀, hpath, hne, hopen, hmigrate⟩, hmethod, htarget,
          hnamed, hcreated⟩, rfl⟩
  · intro h
    obtain ⟨d, method, s, ⟨⟨dbPath, d₀, hpath, hne, hopen, hmigrate⟩, hmethod, htarget, hnamed,
      hcreated⟩, rfl⟩ := h
    have hgate := (openGate_ok_iff (w := w.toGateWorld)).mpr
      ⟨hne, htarget, hnamed, d₀, d, hopen, hmigrate, rfl, hcreated⟩
    have hpass := passGate_ok_iff.mpr ⟨method, dbPath, hmethod, hpath, hgate⟩
    rw [scanMain, hpass]

/-- The same world over another database connection. -/
def ScanWorld.withEnv (w : ScanWorld) (env : Env Call Bytes) : ScanWorld := { w with env := env }

/-- The scan is given up, or the pool runs; which of the two does not depend on
the database. -/
theorem expandAndScan_cases (w : ScanWorld) (args : ScanArgs) (scanId : ℤ)
    (s : Session Tables Unit) :
    (∀ env, expandAndScan (w.withEnv env) args scanId s = scanAbortAndClose env scanId s) ∨
    ∃ targets ports, ∀ env, expandAndScan (w.withEnv env) args scanId s =
      finishScan env scanId (w.workerPool targets ports) s := by
  have hplugins : ∀ env, pluginsLoaded (w.withEnv env) args.pluginsDir =
      pluginsLoaded w args.pluginsDir := fun _ => rfl
  have hcalloc : ∀ env, (w.withEnv env).resultsCalloc = w.resultsCalloc := fun _ => rfl
  simp only [expandAndScan, runScan, hplugins, hcalloc]
  simp only [ScanWorld.withEnv]
  split
  · exact .inl fun _ => rfl
  · next targets _ =>
      split
      · next ports _ _ =>
          cases pluginsLoaded w args.pluginsDir with
          | false => exact .inl fun _ => rfl
          | true =>
              cases w.resultsCalloc with
              | false => exact .inl fun _ => rfl
              | true => exact .inr ⟨targets, ports, fun _ => rfl⟩
      · exact .inl fun _ => rfl

/-! ## What the file says afterwards -/

/-- What SQLite promises of the key of a new row. -/
def ScanWorld.FreshKeys (w : ScanWorld) : Prop :=
  ∀ dbPath d₀ d, w.dbOpen dbPath = some d₀ → w.dbMigrate d₀ = some d →
    0 < w.newScanId d ∧ d.scans (w.newScanId d) = none

theorem Gated.fresh (h : Gated w args d method created) (hkey : w.FreshKeys) :
    0 < w.newScanId d ∧ d.scans (w.newScanId d) = none := by
  obtain ⟨dbPath, d₀, -, -, hopen, hmigrate⟩ := h.file
  exact hkey dbPath d₀ d hopen hmigrate

/-- What the file says of a scan after `main`, next to what it said before. -/
structure ScanEnd.Recorded (w : ScanWorld) (args : ScanArgs) (d : Tables)
    (method : AuthorizationMethod) (e : ScanEnd) : Prop where
  /-- The row says who authorized what and how, and how the scan ended; that the
  scan still runs it says only when a call failed. -/
  row : ∃ now row, e.session.committed.scans e.scanId = some row ∧
    row.authorization = (now, describeTargets args.toCliArgs targetDescSize,
      args.authorizedBy.getD w.defaultOperator, now, method, none) ∧
    ((row.status = (if e.success then .completed else .failed) ∧ row.finishedAt ≠ none) ∨
      (row.status = .running ∧ row.finishedAt = none ∧
        ∃ n < e.session.calls, ∃ k, w.env.fault n k = true))
  /-- Of other scans and of the feeds the file says what it said. -/
  others : OnlyScan e.scanId d e.session.committed
  sound : d.Sound → e.session.committed.Sound
  keeps : d.Keeps e.session.committed
  /-- A scan that still runs would not have ended so if no call had failed. -/
  failure : ∀ row, e.session.committed.scans e.scanId = some row → row.status = .running →
    scanMain (w.withEnv w.env.faultless) args ≠ .ended e

/-- The connection from the row of the scan to the end of `main`. -/
structure ScanEnd.Ends (w : ScanWorld) (scanId : ℤ) (created : Session Tables Unit)
    (calls : List DbCall) (status : FinalizeStatus) (e : ScanEnd) : Prop where
  persists : ∀ c ∈ calls, DbCall.Persists w.env scanId c
  key : e.scanId = scanId
  outcome : status = if e.success then .completed else .failed
  session : e.session = (scanFinalize w.env scanId status (runCalls calls created)).2.reopen

theorem expandAndScan_ends (w : ScanWorld) (args : ScanArgs) (scanId : ℤ)
    (s : Session Tables Unit) :
    ∃ calls status, (expandAndScan w args scanId s).Ends w scanId s calls status := by
  have hself : expandAndScan w args scanId s = expandAndScan (w.withEnv w.env) args scanId s := rfl
  rcases expandAndScan_cases w args scanId s with h | ⟨targets, ports, h⟩
  · rw [hself, h]
    exact ⟨[], .failed, by simp, rfl, rfl, rfl⟩
  · rw [hself, h]
    obtain ⟨calls, hcalls, hsession⟩ := persistSlots_calls w.env scanId
      (w.workerPool targets ports).2 .zero s
    exact ⟨calls, _, hcalls, rfl, rfl, by rw [← hsession]; rfl⟩

/-- The row that the gate made, and the rest of the tables as they were. -/
theorem Gated.committed (h : Gated w args d method created) :
    created.txn = none ∧ ∃ now, created.committed =
      { d with
        scans := Function.update d.scans (w.newScanId d)
          (some (newScanRow (describeTargets args.toCliArgs targetDescSize)
            (args.authorizedBy.getD w.defaultOperator) method now)) } := by
  have hclosed := Prog.run_closed (scanCreate (w.newScanId d)
    (describeTargets args.toCliArgs targetDescSize) (args.authorizedBy.getD w.defaultOperator)
    method) w.env (s := (d.connect : Session Tables Unit)) rfl
  have hrow := scanCreate_committed (s := (d.connect : Session Tables Unit)) rfl
    (by rw [h.created])
  rw [h.created] at hclosed hrow
  exact ⟨hclosed, hrow⟩

/-- A scan is a process that creates its row, persists and finalizes. -/
theorem ScanEnd.Ends.process (hkey : w.FreshKeys) (hgated : Gated w args d method created)
    {calls : List DbCall} {status : FinalizeStatus}
    (h : e.Ends w (w.newScanId d) created calls status) :
    e.session = (runCalls
      (.create w.env (w.newScanId d) (describeTargets args.toCliArgs targetDescSize)
          (args.authorizedBy.getD w.defaultOperator) method ::
        (calls ++ [.finalize w.env (w.newScanId d) status])) d.connect).reopen := by
  have hcreate : DbCall.run d.connect (.create w.env (w.newScanId d)
      (describeTargets args.toCliArgs targetDescSize) (args.authorizedBy.getD w.defaultOperator)
      method) = created := by
    obtain ⟨hpos, hfree⟩ := hgated.fresh hkey
    have hnew : 0 < w.newScanId d ∧
        ((d.connect : Session Tables Unit).view.scans (w.newScanId d)).isNone = true :=
      ⟨hpos, by simp [Tables.connect, Session.view, hfree]⟩
    rw [DbCall.run, if_pos hnew, hgated.created]
  rw [h.session, runCalls_cons, hcreate, runCalls_append]
  rfl

/-- The state of the connection when the end is recorded: no row but its own
has changed, and a transaction is open only after a failure. -/
theorem ScanEnd.Ends.persisted (hgated : Gated w args d method created) {calls : List DbCall}
    {status : FinalizeStatus} (h : e.Ends w (w.newScanId d) created calls status) :
    (runCalls calls created).Settled w.env ∧
    ∃ now n, (runCalls calls created).committed.scans (w.newScanId d) =
        some { newScanRow (describeTargets args.toCliArgs targetDescSize)
          (args.authorizedBy.getD w.defaultOperator) method now with malformedDataCount := n } ∧
      OnlyScan (w.newScanId d)
        { d with
          scans := Function.update d.scans (w.newScanId d)
            (some (newScanRow (describeTargets args.toCliArgs targetDescSize)
              (args.authorizedBy.getD w.defaultOperator) method now)) }
        (runCalls calls created).committed := by
  obtain ⟨hclosed, now, hcommitted⟩ := hgated.committed
  have hwithin : (runCalls calls created).Within (OnlyScan (w.newScanId d)) created.committed :=
    runCalls_keeps calls (fun c hc s hs => (h.persists c hc).within hs)
      (Session.within_self created hclosed)
  have honly := OnlyScan.of_reached hwithin.committed
  obtain ⟨n, -, hrow⟩ := honly.own _ (by rw [hcommitted]; exact Function.update_self ..)
  rw [hcommitted] at honly
  exact ⟨runCalls_keeps calls (fun c hc s hs => (h.persists c hc).settled hs)
    (.of_closed hclosed), now, n, hrow, honly⟩

/-- The row of the scan behind the call that records its end. -/
theorem ScanEnd.Ends.row (hkey : w.FreshKeys) (hgated : Gated w args d method created)
    {calls : List DbCall} {status : FinalizeStatus}
    (h : e.Ends w (w.newScanId d) created calls status) :
    ∃ now row, e.session.committed.scans e.scanId = some row ∧
      row.authorization = (now, describeTargets args.toCliArgs targetDescSize,
        args.authorizedBy.getD w.defaultOperator, now, method, none) ∧
      ((row.status = (if e.success then .completed else .failed) ∧ row.finishedAt ≠ none) ∨
        (row.status = .running ∧ row.finishedAt = none ∧
          ∃ n < e.session.calls, ∃ k, w.env.fault n k = true)) := by
  obtain ⟨hpos, -⟩ := hgated.fresh hkey
  obtain ⟨hsettled, now, n, hrow, -⟩ := h.persisted hgated
  rw [h.key, h.session]
  rcases scanFinalize_cases hpos status hsettled hrow with
    ⟨-, -, finished, hfinal⟩ | ⟨hsame, hfault⟩
  · have hdone := (congrArg (fun t : Tables => t.scans (w.newScanId d)) hfinal).trans
      (Function.update_self ..)
    refine ⟨now, _, hdone, rfl, .inl ⟨?_, by simp⟩⟩
    rw [h.outcome]
    split <;> rfl
  · have hrunning := (congrArg (fun t : Tables => t.scans (w.newScanId d)) hsame).trans hrow
    exact ⟨now, _, hrunning, rfl, .inr ⟨rfl, rfl, hfault⟩⟩

/-- Where no call fails the scan is recorded as ended. -/
theorem scanMain_quiet_ended (hkey : w.FreshKeys) (hquiet : ∀ n k, w.env.fault n k = false)
    (h : scanMain w args = .ended e) {row : ScanRow}
    (hrow : e.session.committed.scans e.scanId = some row) : row.status ≠ .running := by
  obtain ⟨d, method, created, hgated, rfl⟩ := scanMain_ended_iff.mp h
  obtain ⟨calls, status, hends⟩ := expandAndScan_ends w args (w.newScanId d) created
  obtain ⟨now, row', hrow', -, ⟨hstatus, -⟩ | ⟨-, -, n, -, k, hfault⟩⟩ := hends.row hkey hgated
  · obtain rfl : row' = row := Option.some.inj (hrow'.symm.trans hrow)
    rw [hstatus]
    split <;> simp
  · rw [hquiet n k] at hfault
    cases hfault

theorem scanMain_recorded (hkey : w.FreshKeys) (h : scanMain w args = .ended e) :
    ∃ d method, (∃ dbPath d₀, w.dbPath = some dbPath ∧ w.dbOpen dbPath = some d₀ ∧
        w.dbMigrate d₀ = some d) ∧
      authGateDecide args.hasIAmAuthorized w.isStdinTty (some w.prompt) = .authorized method ∧
      e.Recorded w args d method := by
  obtain ⟨d, method, created, hgated, rfl⟩ := scanMain_ended_iff.mp h
  obtain ⟨calls, status, hends⟩ := expandAndScan_ends w args (w.newScanId d) created
  obtain ⟨dbPath, d₀, hpath, -, hopen, hmigrate⟩ := hgated.file
  refine ⟨d, method, ⟨dbPath, d₀, hpath, hopen, hmigrate⟩, hgated.authorized, ?_⟩
  generalize expandAndScan w args (w.newScanId d) created = e at hends h
  obtain ⟨hpos, hfree⟩ := hgated.fresh hkey
  obtain ⟨hsettled, now, n, hrow, honly⟩ := hends.persisted hgated
  -- the process, for what holds of all of them
  have hprocess := hends.process hkey hgated
  have hchanges : ∀ calls, ReflTransGen Tables.Change d
      (runCalls calls (d.connect : Session Tables Unit)).reopen.committed := fun calls =>
    (runCalls_keeps calls (P := Session.Within Tables.Change d) (fun c _ s hs => c.run_within hs)
      (Session.within_self d.connect rfl)).reopen.committed
  have hreached : ReflTransGen Tables.Change d e.session.committed := by
    rw [hprocess]
    exact hchanges _
  refine ⟨hends.row hkey hgated, ?_, fun hd => hd.reached hreached, .of_reached hreached, ?_⟩
  · rw [hends.key, hends.session]
    rcases scanFinalize_cases hpos status hsettled hrow with
      ⟨-, -, finished, hfinal⟩ | ⟨hsame, -⟩
    · rw [Session.reopen, hfinal]
      exact .of_fresh _ hfree honly
    · rw [Session.reopen, hsame]
      have hself := OnlyScan.of_fresh ((runCalls calls created).committed.scans (w.newScanId d))
        hfree honly
      rw [Function.update_eq_self] at hself
      exact hself
  · intro row hsaid hrunning hsame
    have hfaultless : (w.withEnv w.env.faultless).FreshKeys := hkey
    exact scanMain_quiet_ended hfaultless (fun _ _ => rfl) hsame hsaid hrunning

/-- A scan of one target, with what its pool brings back. -/
def scanOver (pool : ℤ × List (WorkerResult HostResult)) : ScanWorld where
  toGateWorld := quietGate
  portMalloc _ := false
  registryLoad _ := true
  resultsCalloc := true
  workerPool _ _ := pool

def oneTarget (ports : Bytes) : ScanArgs := ⟨argsOf (ascii "10.0.0.5"), some ports, none⟩

theorem scanOver_fresh {pool : ℤ × List (WorkerResult HostResult)} :
    (scanOver pool).FreshKeys := by
  intro dbPath d₀ d hopen hmigrate
  cases hopen
  cases hmigrate
  exact ⟨Int.one_pos, rfl⟩

/-- What the row of the scan says of its end. -/
def ScanExit.said : ScanExit → Option (Option ScanStatus)
  | .ended e => some ((e.session.committed.scans e.scanId).map (·.status))
  | .refused _ => none

theorem ScanExit.said_eq_some {x : ScanExit} {status : ScanStatus}
    (h : x.said = some (some status)) :
    ∃ e row, x = .ended e ∧ e.session.committed.scans e.scanId = some row ∧
      row.status = status := by
  cases x with
  | refused start => cases h
  | ended e =>
      obtain ⟨row, hrow, hstatus⟩ := Option.map_eq_some_iff.mp (Option.some.inj h)
      exact ⟨e, row, rfl, hrow, hstatus⟩

/-- Without a port to scan the scan is given up, and recorded as failed. -/
theorem scanMain_recorded_failed :
    ∃ e row d method, scanMain (scanOver (0, [])) (oneTarget []) = .ended e ∧
      e.session.committed.scans e.scanId = some row ∧ row.status = .failed ∧
      e.Recorded (scanOver (0, [])) (oneTarget []) d method := by
  have hsaid : (scanMain (scanOver (0, [])) (oneTarget [])).said = some (some .failed) := by
    decide +kernel
  obtain ⟨e, row, he, hrow, hfailed⟩ := ScanExit.said_eq_some hsaid
  obtain ⟨d, method, -, -, hrecorded⟩ := scanMain_recorded scanOver_fresh he
  exact ⟨e, row, d, method, he, hrow, hfailed, hrecorded⟩

end Cytadel.Cli
