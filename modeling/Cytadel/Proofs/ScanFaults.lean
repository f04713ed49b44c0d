import Cytadel.Cli.ScanRun
import Cytadel.Lib.Faults
import Cytadel.Proofs.ScanAtomicity

/-!
# Failures while a scan is persisted

The persisters give up at the first call that fails, and answer ERR_DB. So a
call that answers anything else met no failure, but for the rollback of a row
that a constraint refused; and what a failed rollback leaves open stops the
next call that would write. A scan that goes through its slots without ERR_DB
has therefore written, to the byte, what it writes when nothing fails.
-/

namespace Cytadel.Db

open Cytadel Lib

variable {ρ : Type}

/-! ## The statements -/

/-- No failure of the program is lost. -/
abbrev Strict {α : Type} (p : Sql α) (bad : α → Prop) : Prop := p.FailsTo bad

theorem prepareStatements_strict (sts : List Stmt) :
    Strict (prepareStatements sts) (· = false) := by
  induction sts with
  | nil => trivial
  | cons st sts ih => exact (Prog.attempt_failsTo _).guard rfl ih

theorem lookup_strict {α : Type} (st : Stmt) (f : Tables → α) : Strict (lookup st f) (· = none) :=
  (Prog.attempt_failsTo _).guard rfl (Prog.select_failsTo _ _)

theorem lookupPrepared_strict {α : Type} (st : Stmt) (f : Tables → α) :
    Strict (lookupPrepared st f) (· = none) :=
  (Prog.attempt_failsTo _).guard rfl (lookup_strict st f)

/-- A value that was read, and what is done with it. -/
theorem Strict.read {α β : Type} {p : Sql (Option α)} {f : Option α → Sql β} {bad : β → Prop}
    (hp : Strict p (· = none)) (hnone : ∃ b, f none = pure b ∧ bad b)
    (hsome : ∀ a, Strict (f (some a)) bad) : Strict (p >>= f) bad := by
  obtain ⟨b, hb, hbad⟩ := hnone
  refine Prog.FailsTo.bind _ hp (fun o ho => ?_) fun o => ?_
  · rw [ho, hb]
    exact hbad
  · cases o with
    | none =>
        rw [hb]
        trivial
    | some a => exact hsome a

/-- A statement that was stepped, and the answer to it. -/
theorem Strict.step {β : Type} {k : Call} {f : Bytes → Tables → Option Tables}
    {g : Prog.Step → Sql β} {bad : β → Prop}
    (hret : ∀ r, ∃ b, g r = pure b ∧ (r = .error → bad b)) :
    Strict (Prog.exec k f >>= g) bad := by
  refine Prog.FailsTo.bind _ (Prog.exec_failsTo _ _) (fun r hr => ?_) fun r => ?_
  · obtain ⟨b, hb, hbad⟩ := hret r
    rw [hb]
    exact hbad hr
  · obtain ⟨b, hb, -⟩ := hret r
    rw [hb]
    trivial

/-! ## A detected service -/

theorem flushGroup_strict (scanId : ℤ) (det : Detection) (g : Group) (c : PersistCounts) :
    Strict (flushGroup scanId det g c) (·.2 = true) := by
  rw [flushGroup]
  split
  · trivial
  · refine (lookup_strict _ _).read ⟨_, rfl, rfl⟩ fun severity => ?_
    refine (lookup_strict _ _).read ⟨_, rfl, rfl⟩ fun kevFlag => ?_
    refine (lookup_strict _ _).read ⟨_, rfl, rfl⟩ fun epssScore => ?_
    refine (Prog.attemptAll_failsTo_false _ _).guard rfl (Strict.step fun r => ?_)
    cases r with
    | done => exact ⟨_, rfl, fun h => by cases h⟩
    | constraint => exact ⟨_, rfl, fun _ => rfl⟩
    | error => exact ⟨_, rfl, fun _ => rfl⟩

theorem takeCandidate_strict (scanId : ℤ) (det : Detection) (row : CpeRow) (cur : Option Group)
    (c : PersistCounts) : Strict (takeCandidate scanId det row cur c) (·.2.2 = true) := by
  rw [takeCandidate]
  split
  · trivial
  · cases cur with
    | none => trivial
    | some g =>
        simp only
        split
        · trivial
        · refine Prog.FailsTo.bind _ (flushGroup_strict scanId det g c) (fun r hr => ?_) fun r => ?_
          · rw [if_pos hr]
            exact rfl
          · split <;> trivial

theorem candidateLoop_strict (scanId : ℤ) (det : Detection) (rows : List CpeRow)
    (cur : Option Group) (c : PersistCounts) :
    Strict (candidateLoop scanId det rows cur c) (·.2.2 = true) := by
  induction rows generalizing cur c with
  | nil => trivial
  | cons row rows ih =>
      rw [candidateLoop]
      refine Prog.FailsTo.bind _ (takeCandidate_strict scanId det row cur c) (fun r hr => ?_)
        fun r => ?_
      · rw [if_pos hr]
        exact hr
      · split
        · trivial
        · exact (Prog.attempt_failsTo _).guard rfl (ih _ _)

theorem updateMalformedDataCount_strict (scanId : ℤ) (n : ℕ) :
    Strict (updateMalformedDataCount scanId n) (· = false) := by
  refine (Prog.attempt_failsTo _).guard rfl ?_
  refine (Prog.attemptAll_failsTo_false _ _).guard rfl (Strict.step fun r => ⟨_, rfl, fun h => ?_⟩)
  rw [h]
  rfl

theorem detectBody_strict (scanId : ℤ) (vendor product : Bytes) (det : Detection) :
    Strict (detectBody scanId vendor product det) (·.2 = false) := by
  have hlast : ∀ cur c, Strict (flushLast scanId det cur c) (·.2 = true) := by
    intro cur c
    cases cur with
    | none => trivial
    | some g => exact flushGroup_strict scanId det g c
  refine (prepareStatements_strict _).guardNot rfl ?_
  refine (Prog.attemptAll_failsTo_false _ _).guardNot rfl ?_
  refine Strict.read (Prog.select_failsTo _ _) ⟨_, rfl, rfl⟩ fun rows => ?_
  refine Prog.FailsTo.bind _ (candidateLoop_strict scanId det rows none .zero) (fun r hr => ?_)
    fun r => ?_
  · rw [if_pos hr]
    exact rfl
  · split
    · trivial
    · refine Prog.FailsTo.bind _ (hlast _ _) (fun last hl => ?_) fun last => ?_
      · rw [if_pos hl]
        exact rfl
      · split
        · trivial
        · exact Prog.FailsTo.bind _ (updateMalformedDataCount_strict scanId _)
            (fun done hd => hd) fun done => trivial

/-! ## A finding -/

theorem findingSnapshot_strict (cveId : Option Bytes) :
    Strict (findingSnapshot cveId) (· = none) := by
  cases cveId with
  | none => trivial
  | some id =>
      refine (lookupPrepared_strict _ _).read ⟨_, rfl, rfl⟩ fun kevFlag => ?_
      exact (lookupPrepared_strict _ _).read ⟨_, rfl, rfl⟩ fun epssScore => trivial

theorem findingPlaceholder_strict (cveId : Option Bytes) :
    Strict (findingPlaceholder cveId) (· = .errDb) := by
  cases cveId with
  | none => trivial
  | some id =>
      refine Strict.read (Prog.timestamp_failsTo _) ⟨_, rfl, rfl⟩ fun nowTs => ?_
      refine (Prog.attempt_failsTo _).guardNot rfl ?_
      refine (Prog.attemptAll_failsTo_false _ _).guardNot rfl (Strict.step fun r => ?_)
      cases r with
      | done => exact ⟨_, rfl, fun h => by cases h⟩
      | constraint => exact ⟨_, rfl, fun h => by cases h⟩
      | error => exact ⟨_, rfl, fun _ => rfl⟩

theorem findingBody_strict (scanId : ℤ) (f : Finding) (snapshot : ℤ × Option ℚ) :
    Strict (findingBody scanId f snapshot) (· = .errDb) := by
  refine Prog.FailsTo.bind _ (findingPlaceholder_strict _) (fun placed hp => ?_) fun placed => ?_
  · rw [hp]
    exact rfl
  · split
    · trivial
    · refine (Prog.attempt_failsTo _).guardNot rfl ?_
      refine (Prog.attemptAll_failsTo_false _ _).guardNot rfl (Strict.step fun r => ?_)
      cases r with
      | done => exact ⟨_, rfl, fun h => by cases h⟩
      | constraint => exact ⟨_, rfl, fun h => by cases h⟩
      | error => exact ⟨_, rfl, fun _ => rfl⟩

/-! ## The row of the scan -/

theorem scanCreate_strict (scanId : ℤ) (targetSpec authorizedBy : Bytes)
    (method : AuthorizationMethod) :
    Strict (scanCreate scanId targetSpec authorizedBy method) (· = false) := by
  refine (Prog.attempt_failsTo _).guard rfl ?_
  refine (Prog.attemptAll_failsTo_false _ _).guard rfl (Strict.step fun r => ⟨_, rfl, fun h => ?_⟩)
  rw [h]
  rfl

theorem finalizeBody_strict (scanId : ℤ) (status : FinalizeStatus) :
    Strict (finalizeBody scanId status) (· = .errDb) := by
  refine (Prog.attempt_failsTo _).guardNot rfl ?_
  refine (Prog.attemptAll_failsTo_false _ _).guardNot rfl ⟨rfl, fun r => ?_⟩
  cases r <;> trivial

/-! ## The calls -/

section Calls

variable {env : Env Call Bytes} {scanId : ℤ} {s : Session Tables ρ}

/-- A finding that is not answered by ERR_DB is what it is when nothing fails,
but for a transaction that the rollback of a refused row left open. -/
theorem scanPersistFinding_faultless (env : Env Call Bytes) (scanId : ℤ) (f : Finding)
    (s : Session Tables ρ) (h : (scanPersistFinding env scanId f s).1 ≠ .errDb) :
    scanPersistFinding env.faultless scanId f s.reopen =
      ((scanPersistFinding env scanId f s).1, (scanPersistFinding env scanId f s).2.reopen) := by
  by_cases hargs : f.badArgs scanId = true
  · rw [scanPersistFinding, if_pos hargs, scanPersistFinding, if_pos hargs]
  obtain ⟨n, hn⟩ := (findingSnapshot_writes f.effectiveCveId).run_eq env s
  have hread := (findingSnapshot_strict f.effectiveCveId).run_faultless env s
  simp only [scanPersistFinding, if_neg hargs] at h ⊢
  generalize (findingSnapshot f.effectiveCveId).run env s = snapshot at h hn hread ⊢
  obtain ⟨values?, s₁⟩ := snapshot
  cases values? with
  | none => exact absurd rfl h
  | some values =>
      simp only at h ⊢
      cases hb : (s₁.begin env .begin).1 with
      | false => simp [hb] at h
      | true =>
          obtain ⟨htxn, hbegin⟩ := Session.begin_faultless hb
          have hclosed : s.txn = none := by
            obtain rfl : s₁ = { s with calls := n } := congrArg Prod.snd hn
            exact htxn
          rw [Session.reopen_eq hclosed, hread (by simp)]
          simp only [hbegin, hb, Bool.not_true, Bool.false_eq_true, if_false] at h ⊢
          have hbody := (findingBody_strict scanId f values).run_faultless env
            (s₁.begin env .begin).2
          generalize (findingBody scanId f values).run env (s₁.begin env .begin).2 = body
            at h hbody ⊢
          by_cases hok : body.1 = .ok
          · rw [hbody (by rw [hok]; simp)]
            simp only [hok, bne_self_eq_false, Bool.false_eq_true, if_false] at h ⊢
            cases hc : (body.2.commit env .commit).1 with
            | false => simp [hc] at h
            | true =>
                obtain ⟨hdone, hcommit⟩ := Session.commit_faultless hc
                simp only [hcommit, hc, Bool.not_true, Bool.false_eq_true, if_false,
                  Session.reopen_eq hdone]
          · have hne : (body.1 != .ok) = true := bne_iff_ne.mpr hok
            rw [if_pos hne] at h
            rw [hbody h, if_pos hne, if_pos hne, Session.rollback_faultless]

/-- And so is a detected service. -/
theorem scanDetectAndPersist_faultless (env : Env Call Bytes) (scanId : ℤ)
    (vendor product : Bytes) (det : Detection) (s : Session Tables ρ)
    (h : (scanDetectAndPersist env scanId vendor product det s).status ≠ .errDb) :
    scanDetectAndPersist env.faultless scanId vendor product det s.reopen =
      ⟨(scanDetectAndPersist env scanId vendor product det s).status,
        (scanDetectAndPersist env scanId vendor product det s).counts,
        (scanDetectAndPersist env scanId vendor product det s).session.reopen⟩ := by
  by_cases hargs : det.badArgs scanId = true
  · rw [scanDetectAndPersist, if_pos hargs, scanDetectAndPersist, if_pos hargs]
  simp only [scanDetectAndPersist, if_neg hargs] at h ⊢
  cases hv : lowercaseCopy vendor with
  | none => rfl
  | some vendorLc =>
      cases hp : lowercaseCopy product with
      | none => rfl
      | some productLc =>
          simp only [hv, hp] at h ⊢
          cases hb : (s.begin env .begin).1 with
          | false => simp [hb] at h
          | true =>
              obtain ⟨htxn, hbegin⟩ := Session.begin_faultless hb
              rw [Session.reopen_eq htxn]
              simp only [hbegin, hb, Bool.not_true, Bool.false_eq_true, if_false] at h ⊢
              have hbody := (detectBody_strict scanId vendorLc productLc det).run_faultless env
                (s.begin env .begin).2
              generalize (detectBody scanId vendorLc productLc det).run env
                (s.begin env .begin).2 = body at h hbody ⊢
              cases hdone : body.1.2 with
              | false => simp [hdone] at h
              | true =>
                  rw [hbody (by simp [hdone])]
                  simp only [hdone, Bool.not_true, Bool.false_eq_true, if_false] at h ⊢
                  cases hc : (body.2.commit env .commit).1 with
                  | false => simp [hc] at h
                  | true =>
                      obtain ⟨hclosed, hcommit⟩ := Session.commit_faultless hc
                      simp only [hcommit, hc, Bool.not_true, Bool.false_eq_true, if_false,
                        Session.reopen_eq hclosed]

/-- What a finding leaves open was left open by a failure. -/
theorem scanPersistFinding_settled (h : s.Settled env) (f : Finding) :
    (scanPersistFinding env scanId f s).2.Settled env := by
  rw [scanPersistFinding]
  split
  · exact h
  · obtain ⟨n, hn⟩ := (findingSnapshot_writes f.effectiveCveId).run_eq env s
    have hle := Prog.le_run_calls (findingSnapshot f.effectiveCveId) env s
    generalize (findingSnapshot f.effectiveCveId).run env s = snapshot at hn hle
    obtain ⟨values?, s₁⟩ := snapshot
    obtain rfl : s₁ = { s with calls := n } := congrArg Prod.snd hn
    have hread : Session.Settled env { s with calls := n } := h.of_eq rfl hle
    simp only
    split
    · exact hread
    · next values _ =>
        cases hb : (Session.begin env .begin { s with calls := n }).1 with
        | false =>
            simp only [Bool.not_false, if_true, Session.begin_false hb]
            exact hread.of_eq rfl (Nat.le_succ _)
        | true =>
            simp only [Bool.not_true, Bool.false_eq_true, if_false]
            split
            · exact .rollback _ _ _
            · split
              · exact .rollback _ _ _
              · next hc =>
                  exact .of_closed (Session.commit_faultless (by simpa using hc)).1

theorem scanDetectAndPersist_settled (h : s.Settled env) (vendor product : Bytes)
    (det : Detection) :
    (scanDetectAndPersist env scanId vendor product det s).session.Settled env := by
  rw [scanDetectAndPersist]
  split
  · exact h
  · split
    · simp only
      cases hb : (s.begin env .begin).1 with
      | false =>
          rw [if_pos (by rfl), Session.begin_false hb]
          exact h.of_eq rfl (Nat.le_succ _)
      | true =>
          rw [if_neg (by simp)]
          split
          · exact .rollback _ _ _
          · split
            · exact .rollback _ _ _
            · next hc => exact .of_closed (Session.commit_faultless (by simpa using hc)).1
    · exact h

end Calls

end Cytadel.Db

namespace Cytadel.Cli

open Cytadel Cytadel.Core Cytadel.Db Cytadel.Plugin Lib

variable {ρ : Type} {env : Env Call Bytes} {scanId : ℤ} {r : HostResult}

/-! ## The loops -/

theorem findingLoop_faultless (env : Env Call Bytes) (scanId : ℤ) (r : HostResult)
    (findings : List PluginFinding) (c : HostCounts) (s : Session Tables ρ)
    (h : (findingLoop env scanId r findings c s).status ≠ .errDb) :
    findingLoop env.faultless scanId r findings c s.reopen =
      ⟨(findingLoop env scanId r findings c s).status,
        (findingLoop env scanId r findings c s).counts,
        (findingLoop env scanId r findings c s).session.reopen⟩ := by
  induction findings generalizing c s with
  | nil => rfl
  | cons f findings ih =>
      rw [findingLoop] at h ⊢
      cases hrow : r.persistRow f with
      | none =>
          simp only [hrow] at h
          simp only [findingLoop, hrow]
          exact ih c _ h
      | some row =>
          have hone := scanPersistFinding_faultless env scanId row s
          simp only [hrow] at h
          simp only [findingLoop, hrow]
          generalize scanPersistFinding env scanId row s = out at h hone ⊢
          obtain ⟨status, s₁⟩ := out
          cases status with
          | errDb => exact absurd rfl h
          | ok =>
              rw [hone (by simp)]
              exact ih _ _ h
          | errRowSkipped =>
              rw [hone (by simp)]
              exact ih _ _ h
          | errInvalidArg =>
              rw [hone (by simp)]
              exact ih _ _ h

theorem portLoop_faultless (ports : List (UInt16 × PortState)) (c : HostCounts)
    {s : Session Tables ρ} (h : (portLoop env scanId r ports c s).status ≠ .errDb) :
    portLoop env.faultless scanId r ports c s.reopen =
      ⟨(portLoop env scanId r ports c s).status, (portLoop env scanId r ports c s).counts,
        (portLoop env scanId r ports c s).session.reopen⟩ := by
  induction ports generalizing c s with
  | nil => rfl
  | cons p ports ih =>
      rw [portLoop] at h ⊢
      by_cases hopen : p.2 = .isOpen
      · rw [if_neg (not_not.mpr hopen)] at h
        rw [if_neg (not_not.mpr hopen), portLoop, if_neg (not_not.mpr hopen)]
        cases hkb : r.kb with
        | none =>
            simp only [hkb] at h
            exact ih _ h
        | some kb =>
            simp only [hkb] at h ⊢
            cases hres : resolvePort kb p.1 with
            | none =>
                simp only [hres] at h
                exact ih _ h
            | some resolved =>
                simp only [hres] at h ⊢
                have hone := scanDetectAndPersist_faultless env scanId resolved.vendor
                  resolved.product (r.detection kb p.1 resolved) s
                generalize scanDetectAndPersist env scanId resolved.vendor resolved.product
                  (r.detection kb p.1 resolved) s = out at h hone ⊢
                obtain ⟨status, counts, s₁⟩ := out
                cases status with
                | errDb => exact absurd rfl h
                | ok =>
                    rw [hone (by simp)]
                    exact ih _ h
                | errRowSkipped =>
                    rw [hone (by simp)]
                    exact ih _ h
                | errInvalidArg =>
                    rw [hone (by simp)]
                    exact ih _ h
      · rw [if_pos hopen] at h
        rw [if_pos hopen, portLoop, if_pos hopen]
        exact ih c h

/-- A host that is persisted without ERR_DB is persisted as when nothing
fails. -/
theorem persistHost_faultless (env : Env Call Bytes) (scanId : ℤ) (r : HostResult)
    (s : Session Tables ρ) (h : (persistHost env scanId r s).status ≠ .errDb) :
    persistHost env.faultless scanId r s.reopen =
      ⟨(persistHost env scanId r s).status, (persistHost env scanId r s).counts,
        (persistHost env scanId r s).session.reopen⟩ := by
  by_cases hid : scanId ≤ 0
  · rw [persistHost, if_pos hid, persistHost, if_pos hid]
  by_cases hhost : r.state ≠ .up ∨ r.host = []
  · rw [persistHost, if_neg hid, if_pos hhost, persistHost, if_neg hid, if_pos hhost]
  have hfound := findingLoop_faultless env scanId r r.findings .zero s
  simp only [persistHost, if_neg hid, if_neg hhost] at h ⊢
  generalize findingLoop env scanId r r.findings .zero s = found at h hfound ⊢
  by_cases hok : found.status = .ok
  · rw [if_pos hok] at h
    rw [hfound (by rw [hok]; simp), if_pos hok, if_pos hok]
    exact portLoop_faultless r.ports found.counts h
  · rw [if_neg hok] at h
    rw [hfound h, if_neg hok, if_neg hok]

theorem persistSlot_faultless {slot : WorkerResult HostResult} {t : ScanTotals}
    {s : Session Tables ρ} (ht : t.dbOk = true)
    (h : (persistSlot env scanId slot t s).1.dbOk = true) :
    persistSlot env.faultless scanId slot t s.reopen =
      ((persistSlot env scanId slot t s).1, (persistSlot env scanId slot t s).2.reopen) := by
  simp only [persistSlot] at h ⊢
  by_cases hrc : slot.scanRc ≠ 0
  · rw [if_pos hrc, if_pos hrc]
  by_cases hempty : slot.result.host.isEmpty = true
  · rw [if_neg hrc, if_pos hempty, if_neg hrc, if_pos hempty]
  by_cases hdown : slot.result.state ≠ .up
  · rw [if_neg hrc, if_neg hempty, if_pos hdown, if_neg hrc, if_neg hempty, if_pos hdown]
  have hup : (t.addUp slot.result).dbOk = true := ht
  have hhost := persistHost_faultless env scanId slot.result s
  simp only [if_neg hrc, if_neg hempty, if_neg hdown, hup, Bool.not_true, Bool.false_eq_true,
    if_false] at h ⊢
  by_cases hdb : (persistHost env scanId slot.result s).status = .errDb
  · rw [if_pos hdb] at h
    cases h
  · rw [hhost hdb, if_neg hdb, if_neg hdb]

/-- Once the database has failed, no host is persisted, and it stays so. -/
theorem persistSlot_failed {slot : WorkerResult HostResult} {t : ScanTotals}
    {s : Session Tables ρ} (ht : t.dbOk = false) :
    (persistSlot env scanId slot t s).1.dbOk = false ∧ (persistSlot env scanId slot t s).2 = s := by
  have hup : (t.addUp slot.result).dbOk = false := ht
  simp only [persistSlot, hup, Bool.not_false, if_true]
  split
  · exact ⟨ht, rfl⟩
  · split
    · exact ⟨ht, rfl⟩
    · split <;> exact ⟨ht, rfl⟩

theorem persistSlots_failed (slots : List (WorkerResult HostResult)) {t : ScanTotals}
    {s : Session Tables ρ} (ht : t.dbOk = false) :
    (persistSlots env scanId slots t s).1.dbOk = false := by
  induction slots generalizing t s with
  | nil => exact ht
  | cons slot slots ih => exact ih (persistSlot_failed ht).1

/-- The persist phase that meets no ERR_DB is the one in which nothing fails. -/
theorem persistSlots_faultless (slots : List (WorkerResult HostResult)) {t : ScanTotals}
    {s : Session Tables ρ} (ht : t.dbOk = true)
    (h : (persistSlots env scanId slots t s).1.dbOk = true) :
    persistSlots env.faultless scanId slots t s.reopen =
      ((persistSlots env scanId slots t s).1, (persistSlots env scanId slots t s).2.reopen) := by
  induction slots generalizing t s with
  | nil => rfl
  | cons slot slots ih =>
      rw [persistSlots] at h ⊢
      cases hone : (persistSlot env scanId slot t s).1.dbOk with
      | false =>
          rw [persistSlots_failed slots hone] at h
          cases h
      | true =>
          simp only [persistSlots, persistSlot_faultless ht hone]
          exact ih hone h

end Cytadel.Cli
