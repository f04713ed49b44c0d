import Cytadel.Proofs.FindingsKept
import Cytadel.Proofs.PortUnion
import Cytadel.Proofs.ScanLifecycle

/-!
# A completed scan is complete

The persisters answer ERR_DB to whatever fails, the loop over the hosts stops
at it, and then the scan is recorded as failed. So a row that says the scan is
completed vouches for all of its results: they are those of a run in which no
call fails, and there every host that is up has a row for each finding that is
taken and one for each CVE on which the version matcher has a verdict.
-/

namespace Cytadel.Cli

open Cytadel Cytadel.Core Cytadel.Db Cytadel.Net Cytadel.Plugin Lib Relation

variable {w : ScanWorld} {args : ScanArgs} {d : Tables} {method : AuthorizationMethod}
  {created : Session Tables Unit} {e : ScanEnd}

/-! ## The run without a failure -/

/-- The end of `main` is that of a run in which no call fails, if the persist
phase met no ERR_DB and the end was recorded. -/
theorem finishScan_faultless {env : Env Call Bytes} {scanId : ℤ}
    {pool : ℤ × List (WorkerResult HostResult)} {s : Session Tables Unit} (hs : s.txn = none)
    (hpool : pool.1 = 0) (hdb : (persistSlots env scanId pool.2 .zero s).1.dbOk = true)
    (hclosed : (persistSlots env scanId pool.2 .zero s).2.txn = none)
    (hend : (scanFinalize env scanId .completed
      (persistSlots env scanId pool.2 .zero s).2).1 = .ok) :
    finishScan env.faultless scanId pool s = finishScan env scanId pool s := by
  have hslots := persistSlots_faultless (t := .zero) pool.2 rfl hdb
  rw [Session.reopen_eq hs, Session.reopen_eq hclosed] at hslots
  have hfinal : ∀ t : Session Tables Unit, (scanFinalize env scanId .completed t).1 = .ok →
      scanFinalize env.faultless scanId .completed t = scanFinalize env scanId .completed t := by
    intro t ht
    rw [scanFinalize] at ht ⊢
    rw [scanFinalize]
    split
    · rfl
    · next hid =>
        rw [if_neg hid] at ht
        exact (finalizeBody_strict scanId .completed).run_faultless env t (by rw [ht]; simp)
  rw [finishScan, finishScan, hslots]
  simp only [hpool, hdb, decide_true, Bool.and_self, if_true, hfinal _ hend]

theorem Gated.faultless (h : Gated w args d method created) :
    Gated (w.withEnv w.env.faultless) args d method created where
  file := h.file
  authorized := h.authorized
  described := h.described
  named := h.named
  created := by
    have hstrict := (scanCreate_strict (w.newScanId d)
      (describeTargets args.toCliArgs targetDescSize)
      (args.authorizedBy.getD w.defaultOperator) method).run_faultless w.env
      (d.connect : Session Tables Unit) (by rw [h.created]; simp)
    exact hstrict.trans h.created

/-- What the row says once `main` is over, and that it says so durably. -/
theorem ScanEnd.Ends.row_cases (hpos : 0 < w.newScanId d) (hgated : Gated w args d method created)
    {calls : List DbCall} {status : FinalizeStatus}
    (h : e.Ends w (w.newScanId d) created calls status) {row : ScanRow}
    (hrow : e.session.committed.scans e.scanId = some row) :
    (row.status = status.column ∧ (runCalls calls created).txn = none ∧
      (scanFinalize w.env (w.newScanId d) status (runCalls calls created)).1 = .ok) ∨
    row.status = .running := by
  obtain ⟨hsettled, now, n, hrunning, -⟩ := h.persisted hgated
  rw [h.key, h.session] at hrow
  rcases scanFinalize_cases hpos status hsettled hrunning with
    ⟨hclosed, hok, finished, hfinal⟩ | ⟨hsame, -⟩
  · have hdone := (congrArg (fun t : Tables => t.scans (w.newScanId d)) hfinal).trans
      (Function.update_self ..)
    obtain rfl := Option.some.inj (hrow.symm.trans hdone)
    exact .inl ⟨rfl, hclosed, hok⟩
  · have hsaid := (congrArg (fun t : Tables => t.scans (w.newScanId d)) hsame).trans hrunning
    obtain rfl := Option.some.inj (hrow.symm.trans hsaid)
    exact .inr rfl

/-- Where the row says that the scan is completed, every result that the run
without any failure writes is in the file, and no other: it is that run. -/
theorem scanMain_completed (hkey : w.FreshKeys) (h : scanMain w args = .ended e) {row : ScanRow}
    (hrow : e.session.committed.scans e.scanId = some row) (hdone : row.status = .completed) :
    e.success = true ∧ scanMain (w.withEnv w.env.faultless) args = .ended e := by
  obtain ⟨d, method, created, hgated, he⟩ := scanMain_ended_iff.mp h
  obtain ⟨hcreated, -⟩ := hgated.committed
  have hpos := (hgated.fresh hkey).1
  have hself : e = expandAndScan (w.withEnv w.env) args (w.newScanId d) created := he
  rcases expandAndScan_cases w args (w.newScanId d) created with habort | ⟨targets, ports, hfinish⟩
  · -- a scan that is given up is not completed
    exfalso
    have hends : e.Ends w (w.newScanId d) created [] .failed := by
      rw [hself, habort]
      exact ⟨by simp, rfl, rfl, rfl⟩
    rcases hends.row_cases hpos hgated hrow with ⟨hfailed, -⟩ | hrunning
    · rw [hfailed] at hdone
      cases hdone
    · rw [hrunning] at hdone
      cases hdone
  · rw [hfinish] at hself
    generalize w.workerPool targets ports = pool at hfinish hself
    obtain ⟨calls, hcalls, hsession⟩ := persistSlots_calls w.env (w.newScanId d) pool.2 .zero
      created
    have hends : e.Ends w (w.newScanId d) created calls
        (if decide (pool.1 = 0) && (persistSlots w.env (w.newScanId d) pool.2 .zero created).1.dbOk
          then .completed else .failed) := by
      rw [hself]
      exact ⟨hcalls, rfl, rfl, by rw [← hsession]; rfl⟩
    rcases hends.row_cases hpos hgated hrow with ⟨hstatus, hclosed, hok⟩ | hrunning
    · rw [hdone] at hstatus
      split at hstatus
      · next hgood =>
          rw [if_pos hgood] at hok
          rw [← hsession] at hclosed hok
          rw [Bool.and_eq_true, decide_eq_true_iff] at hgood
          have hfaultless := finishScan_faultless hcreated hgood.1 hgood.2 hclosed hok
          refine ⟨?_, scanMain_ended_iff.mpr ⟨d, method, created, hgated.faultless, ?_⟩⟩
          · rw [hself, finishScan, hgood.1, hgood.2]
            rfl
          · rw [hself, ← hfaultless]
            exact (hfinish w.env.faultless).symm
      · cases hstatus
    · rw [hrunning] at hdone
      cases hdone

theorem expandAndScan_ok {scanId : ℤ} {s : Session Tables Unit} {targets : List Target}
    {ports : PortList}
    (htargets : targetListParse w.net 256 args.targetSpec args.targetsFile = .ok targets)
    (hports : portRangeRead w.portMalloc 256
      (some (args.portSpec.getD defaultPortSpec)) = .ok ports)
    (hplugins : pluginsLoaded w args.pluginsDir = true) (hcalloc : w.resultsCalloc = true) :
    expandAndScan w args scanId s = finishScan w.env scanId (w.workerPool targets ports) s := by
  simp only [expandAndScan, htargets, runScan, portRangeParse, hports, hplugins, hcalloc,
    Bool.not_true, Bool.false_eq_true, if_false]

/-- A host with one finding. -/
def onePool : ℤ × List (WorkerResult HostResult) :=
  (0, [⟨findingHost [ascii "CVE-2013-2566"], 0⟩])

theorem httpsPort_read : ∃ ports, portRangeRead (fun _ => false) 256 (some (ascii "443")) =
    .ok ports := by
  have hitem : PortItem (ascii "443") (443, 443) :=
    .single ⟨⟨forall_mem_of_all (by decide), by decide, by decide, by decide⟩, by decide, by decide⟩
  refine ⟨_, portRangeRead_ok_iff.mpr ⟨ascii "443", [⟨443, 443, by decide, by decide, by decide⟩],
    rfl, ⟨by decide, by decide, by decide, by decide, forall_mem_of_all (by decide), ?_⟩, rfl⟩⟩
  have hsplit : (ascii "443").splitOn 0x2C = [ascii "443"] := by decide
  rw [hsplit]
  exact .cons hitem .nil

/-- The same scan on another file. -/
def scanFrom (d : Tables) (pool : ℤ × List (WorkerResult HostResult)) : ScanWorld :=
  { scanOver pool with dbOpen := fun _ => some d }

/-- The connection with the row of the scan. -/
def createdIn (d : Tables) : Bool × Session Tables Unit :=
  (scanCreate 1 (ascii "10.0.0.5") (ascii "operator") .flag).run quietEnv d.connect

theorem scanFrom_ended {d : Tables} {pool : ℤ × List (WorkerResult HostResult)}
    (hcreated : (createdIn d).1 = true) :
    scanMain (scanFrom d pool) (oneTarget (ascii "443")) =
      .ended (finishScan quietEnv 1 pool (createdIn d).2) := by
  obtain ⟨ports, hports⟩ := httpsPort_read
  have hnamed : ascii "operator" ≠ [] := by decide
  have hgated : Gated (scanFrom d pool) (oneTarget (ascii "443")) d .flag (createdIn d).2 :=
    ⟨⟨ascii "/tmp/vuln.db", d, rfl, by decide, rfl, rfl⟩, rfl, by decide, hnamed,
      Prod.ext hcreated rfl⟩
  obtain ⟨targets, htargets⟩ : ∃ targets, targetListParse quietGate.net 256
      (some (ascii "10.0.0.5")) none = .ok targets := by
    have hsome : (targetListParse quietGate.net 256 (some (ascii "10.0.0.5")) none).isOk := by
      decide +kernel
    cases hparse : targetListParse quietGate.net 256 (some (ascii "10.0.0.5")) none with
    | ok targets => exact ⟨targets, rfl⟩
    | error e =>
        rw [hparse] at hsome
        cases hsome
  have hrun : expandAndScan (scanFrom d pool) (oneTarget (ascii "443")) 1 (createdIn d).2 =
      finishScan quietEnv 1 pool (createdIn d).2 :=
    expandAndScan_ok htargets hports rfl rfl
  exact scanMain_ended_iff.mpr ⟨d, .flag, _, hgated, hrun.symm⟩

theorem onePool_said :
    (scanMain (scanOver onePool) (oneTarget (ascii "443"))).said = some (some .completed) := by
  have hsame : scanOver onePool = scanFrom Tables.seeded onePool := rfl
  rw [hsame, scanFrom_ended rfl]
  decide +kernel

/-- Its scan is completed. -/
theorem scanMain_completed_one :
    ∃ e, scanMain (scanOver onePool) (oneTarget (ascii "443")) = .ended e ∧ e.success = true ∧
      scanMain ((scanOver onePool).withEnv quietEnv.faultless) (oneTarget (ascii "443")) =
        .ended e := by
  obtain ⟨e, row, he, hrow, hdone⟩ := ScanExit.said_eq_some onePool_said
  obtain ⟨hsuccess, hquiet⟩ := scanMain_completed scanOver_fresh he hrow hdone
  exact ⟨e, he, hsuccess, hquiet⟩

/-! ## The rows of the hosts -/

/-- The slots whose host is persisted. -/
def isPersisted (slot : WorkerResult HostResult) : Bool :=
  slot.scanRc = 0 && !slot.result.host.isEmpty && slot.result.state = .up

/-- The rows of one host: those of its findings, in order, and then those of the
version matcher. -/
def HostRows (env : Env Call Bytes) (scanId : ℤ) (cpes : List CpeRow) (r : HostResult)
    (out : List ScanResultRow) : Prop :=
  ∃ rows rest, out = rows ++ rest ∧
    List.Forall₂ (Finding.WrittenAs env scanId) (r.findings.filterMap (r.takes scanId)) rows ∧
    MatcherRows env scanId r r.ports cpes rest

/-- What the persist phase of a host leaves, when nothing fails, to that of the
next one. -/
theorem persistHost_ready {env : Env Call Bytes} (scanId : ℤ)
    (hf : ∀ n k, env.fault n k = false) (r : HostResult) {s : Session Tables Unit}
    (hs : s.txn = none) (hd : s.committed.Conforms) :
    (persistHost env scanId r s).session.txn = none ∧
      (persistHost env scanId r s).session.committed.Conforms := by
  obtain ⟨calls, hcalls, hsession⟩ := persistHost_calls env scanId r s
  rw [hsession]
  constructor
  · have hsettled : (runCalls calls s).Settled env :=
      runCalls_keeps calls (fun c hc s hs => (hcalls c hc).settled hs) (.of_closed hs)
    by_contra hopen
    obtain ⟨n, -, k, hfault⟩ := hsettled hopen
    rw [hf] at hfault
    cases hfault
  · have hwithin : (runCalls calls s).Within Tables.Change s.committed :=
      runCalls_keeps calls (P := Session.Within Tables.Change s.committed)
        (fun c _ s hs => c.run_within hs) (Session.within_self s hs)
    refine hwithin.committed.head_induction_on (motive := fun d _ => d.Conforms →
      (runCalls calls s).committed.Conforms) id (fun hstep _ ih hd => ih (hstep.conforms hd)) hd

/-- The persist phase when nothing fails: each host that is up has its rows. -/
theorem persistSlots_rows {env : Env Call Bytes} {scanId : ℤ} (hf : ∀ n k, env.fault n k = false)
    (slots : List (WorkerResult HostResult)) {t : ScanTotals} (ht : t.dbOk = true)
    {s : Session Tables Unit} (hs : s.txn = none) (hd : s.committed.Conforms)
    (hscan : (s.committed.scans scanId).isSome) :
    ∃ outs, List.Forall₂ (fun slot out =>
        HostRows env scanId s.committed.cveCpeMatches slot.result out)
        (slots.filter isPersisted) outs ∧
      (persistSlots env scanId slots t s).1.dbOk = true ∧
      (persistSlots env scanId slots t s).2.txn = none ∧
      (persistSlots env scanId slots t s).2.committed.scanResults =
        s.committed.scanResults ++ outs.flatten := by
  induction slots generalizing t s with
  | nil => exact ⟨[], .nil, ht, hs, by simp [persistSlots]⟩
  | cons slot slots ih =>
      rw [persistSlots]
      cases hslot : isPersisted slot with
      | false =>
          -- the slot only counts
          have hskip : (persistSlot env scanId slot t s).1.dbOk = true ∧
              (persistSlot env scanId slot t s).2 = s := by
            simp only [persistSlot]
            split
            · exact ⟨ht, rfl⟩
            · split
              · exact ⟨ht, rfl⟩
              · split
                · exact ⟨ht, rfl⟩
                · next hrc hhost hup => simp [isPersisted, hrc, hhost, hup] at hslot
          rw [List.filter_cons_of_neg (by simp [hslot])]
          simp only [hskip.2]
          exact ih hskip.1 hs hd hscan
      | true =>
          simp only [isPersisted, Bool.and_eq_true, decide_eq_true_iff, Bool.not_eq_true'] at hslot
          obtain ⟨⟨hrc, hhost⟩, hup⟩ := hslot
          have hne : slot.result.host ≠ [] := by
            intro hnil
            rw [hnil] at hhost
            cases hhost
          obtain ⟨rows, rest, hst, -, -, hframe, hres, hrows, hrest⟩ :=
            persistHost_rows (r := slot.result) hf hs (hd.ready hscan) (hd.scans scanId hscan)
              hup hne
          obtain ⟨hs', hd'⟩ := persistHost_ready scanId hf slot.result hs hd
          have hscan' : ((persistHost env scanId slot.result s).session.committed.scans
              scanId).isSome := by
            obtain ⟨row, hrow⟩ := Option.isSome_iff_exists.mp hscan
            obtain ⟨n, hn⟩ := hframe.scan row hrow
            rw [hn]
            rfl
          have hone : persistSlot env scanId slot t s =
              ({ t.addUp slot.result with
                  persisted := t.persisted.add (persistHost env scanId slot.result s).counts },
                (persistHost env scanId slot.result s).session) := by
            simp [persistSlot, hrc, hhost, hup, ht, hst, ScanTotals.addUp]
          obtain ⟨outs, houts, hok, hclosed, hresults⟩ :=
            ih (t := (persistSlot env scanId slot t s).1) (by rw [hone]; exact ht) hs' hd' hscan'
          rw [List.filter_cons_of_pos (by simp [isPersisted, hrc, hhost, hup])]
          rw [hframe.cpe] at houts
          rw [hone] at hok hclosed hresults ⊢
          refine ⟨(rows ++ rest) :: outs, .cons ⟨rows, rest, rfl, hrows, hrest⟩ houts, hok,
            hclosed, ?_⟩
          rw [hresults, hres, List.flatten_cons]
          simp only [List.append_assoc]

/-! ## The rows of a completed scan -/

/-- The end of a scan is not among its results. -/
theorem scanFinalize_results {env : Env Call Bytes} {scanId : ℤ} (status : FinalizeStatus)
    {s : Session Tables Unit} (hs : s.txn = none) :
    (scanFinalize env scanId status s).2.committed.scanResults = s.committed.scanResults := by
  have hwithin : (scanFinalize env scanId status s).2.Within
      (fun a b => b.scanResults = a.scanResults) s.committed := by
    refine scanFinalize_within (Session.within_self s hs) env fun now a b hab => ?_
    obtain rfl := Option.some.inj hab
    rfl
  have hreach := hwithin.committed
  generalize (scanFinalize env scanId status s).2.committed = final at hreach ⊢
  induction hreach with
  | refl => rfl
  | tail _ hstep ih => exact hstep.trans ih

/-- The results of a completed scan: every host that the pool found up has the
rows of its findings and those of the version matcher, and the file has no
others that it did not have before. -/
theorem scanMain_completed_rows (hkey : w.FreshKeys)
    (hfile : ∀ dbPath d₀ d, w.dbOpen dbPath = some d₀ → w.dbMigrate d₀ = some d → d.Conforms)
    (h : scanMain w args = .ended e) {row : ScanRow}
    (hrow : e.session.committed.scans e.scanId = some row) (hdone : row.status = .completed) :
    ∃ dbPath d₀ d pool outs, w.dbPath = some dbPath ∧ w.dbOpen dbPath = some d₀ ∧
      w.dbMigrate d₀ = some d ∧ e.pool = some pool ∧ pool.1 = 0 ∧
      List.Forall₂ (fun slot out => HostRows w.env e.scanId d.cveCpeMatches slot.result out)
        (pool.2.filter isPersisted) outs ∧
      e.session.committed.scanResults = d.scanResults ++ outs.flatten := by
  obtain ⟨hsuccess, hquiet⟩ := scanMain_completed hkey h hrow hdone
  obtain ⟨d, method, created, hgated, he⟩ := scanMain_ended_iff.mp hquiet
  obtain ⟨dbPath, d₀, hpath, -, hopen, hmigrate⟩ := hgated.file
  obtain ⟨hpos, hfree⟩ := hkey dbPath d₀ d hopen hmigrate
  rcases expandAndScan_cases w args (w.newScanId d) created with habort | ⟨targets, ports, hfinish⟩
  · -- a scan that is given up has no success
    have hfailed : e.success = false := by
      rw [he]
      exact congrArg ScanEnd.success (habort w.env.faultless)
    rw [hfailed] at hsuccess
    cases hsuccess
  · have hscan : e = finishScan w.env.faultless (w.newScanId d) (w.workerPool targets ports)
        created := he.trans (hfinish w.env.faultless)
    generalize w.workerPool targets ports = pool at hscan
    obtain ⟨hclosed, now, hcommitted⟩ := hgated.committed
    have hconforms : created.committed.Conforms := by
      have hchange : d.Change created.committed := by
        rw [hcommitted]
        exact .create hpos hfree ⟨by simp [newScanRow], le_refl _⟩
      exact hchange.conforms (hfile dbPath d₀ d hopen hmigrate)
    have hmine : (created.committed.scans (w.newScanId d)).isSome := by
      rw [hcommitted]
      simp only [ScanWorld.withEnv, Function.update_self, Option.isSome_some]
    have hquiet : ∀ n k, w.env.faultless.fault n k = false := fun _ _ => rfl
    obtain ⟨outs, houts, hdb, hopened, hresults⟩ := persistSlots_rows hquiet pool.2 (t := .zero) rfl
      hclosed hconforms hmine
    have hpool : pool.1 = 0 := by
      rw [hscan, finishScan] at hsuccess
      simpa [hdb] using hsuccess
    refine ⟨dbPath, d₀, d, pool, outs, hpath, hopen, hmigrate, by rw [hscan]; rfl, hpool, ?_, ?_⟩
    · rw [hcommitted] at houts
      rw [hscan]
      exact houts
    · rw [hcommitted] at hresults
      rw [hscan, finishScan]
      simp only [hpool, hdb, decide_true, Bool.and_self, if_true]
      exact (scanFinalize_results .completed hopened).trans hresults

/-- A file with two CVEs of one version of a web server, the second of them for
another version. -/
def webTables : Tables :=
  let row (id : ℕ) (cve version : Bytes) : CpeRow :=
    ⟨id, cve, [], ascii "a", ascii "apache", ascii "http_server", version, [], [], [], [], 1⟩
  { Tables.seeded with
    cves := fun id =>
      if id = ascii "CVE-2021-41773" ∨ id = ascii "CVE-2021-42013" then some (placeholderRow [] [])
      else none
    cveCpeMatches := [row 1 (ascii "CVE-2021-41773") (ascii "2.4.49"),
      row 2 (ascii "CVE-2021-42013") (ascii "2.4.50")] }

theorem webTables_conforms : webTables.Conforms where
  cves := by
    intro id r h
    simp only [webTables] at h
    split at h
    · cases h
      rfl
    · cases h
  cpe := by
    intro r h
    simp only [webTables, List.mem_cons, List.not_mem_nil, or_false] at h
    rcases h with rfl | rfl <;> exact ⟨rfl, rfl⟩
  kev := by
    intro id r h
    cases h
  epss := by
    intro id r h
    cases h
  scans := by
    intro id h
    cases h
  results := by
    intro r h
    cases h

/-- A host with a finding, and with a web server on its open port. -/
def webPool : ℤ × List (WorkerResult HostResult) :=
  (0, [⟨{ findingHost [ascii "CVE-2013-2566"] with
    ports := [(443, .isOpen)]
    kb := some (Kb.kbCreate.setStr .all (some (ascii "CPE/443"))
      (some (ascii "cpe:2.3:a:apache:http_server:2.4.49:*:*:*:*:*:*:*"))).2 }, 0⟩])

/-- The results are the row of the finding and one for each of the two CVEs. -/
theorem scanMain_completed_rows_web :
    ∃ e pool outs, scanMain (scanFrom webTables webPool) (oneTarget (ascii "443")) = .ended e ∧
      e.pool = some pool ∧
      List.Forall₂ (fun slot out =>
          HostRows quietEnv e.scanId webTables.cveCpeMatches slot.result out)
        (pool.2.filter isPersisted) outs ∧
      outs.flatten.map (fun r => (r.cveId, r.matchStatus)) =
        [(some (ascii "CVE-2013-2566"), .confirmed), (some (ascii "CVE-2021-41773"), .confirmed),
          (some (ascii "CVE-2021-42013"), .notAffected)] := by
  have hended : scanMain (scanFrom webTables webPool) (oneTarget (ascii "443")) =
      .ended (finishScan quietEnv 1 webPool (createdIn webTables).2) :=
    scanFrom_ended rfl
  have hsaid : (ScanExit.ended (finishScan quietEnv 1 webPool (createdIn webTables).2)).said =
      some (some .completed) := by decide +kernel
  obtain ⟨e, row, he, hrow, hdone⟩ := ScanExit.said_eq_some hsaid
  cases he
  have hkey : (scanFrom webTables webPool).FreshKeys := by
    intro dbPath d₀ d hopen hmigrate
    cases hopen
    cases hmigrate
    exact ⟨Int.one_pos, rfl⟩
  obtain ⟨_, _, d, pool, outs, -, hopen, hmigrate, hpool, -, houts, hresults⟩ :=
    scanMain_completed_rows hkey (fun _ _ _ hopen hmigrate => by
      cases hopen
      cases hmigrate
      exact webTables_conforms) hended hrow hdone
  cases hopen
  cases hmigrate
  refine ⟨_, pool, outs, hended, hpool, houts, ?_⟩
  have hrows : outs.flatten =
      (finishScan quietEnv 1 webPool (createdIn webTables).2).session.committed.scanResults := by
    rw [hresults]
    rfl
  rw [hrows]
  decide +kernel

end Cytadel.Cli
