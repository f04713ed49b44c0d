import Cytadel.Db.ScanPersist
import Cytadel.Lib.Writes

/-!
# A scan result is persisted as a whole or not at all

Both persisters bracket their writes by one transaction, and what a finding
reads before it is read only. So every exit but the last leaves all three
tables as they were: before `BEGIN` nothing was written, and behind it the
writes went to a copy that the rollback drops. When the rollback itself fails
the copy stays with the connection, where the next `BEGIN` is refused, so it
does not become durable later either.
-/

namespace Cytadel.Db

open Cytadel Lib

variable {ρ : Type}

/-! ## The exits of the two calls -/

theorem lookupPrepared_writes {α : Type} {R : Tables → Tables → Prop} (st : Stmt)
    (f : Tables → α) : (lookupPrepared st f).Writes R := by
  refine Prog.Writes.bind (Prog.attempt_writes _) fun ok => ?_
  cases ok with
  | false => trivial
  | true =>
      refine Prog.Writes.bind (Prog.attempt_writes _) fun ok => ?_
      cases ok with
      | false => trivial
      | true => exact Prog.select_writes _ _

theorem findingSnapshot_writes {R : Tables → Tables → Prop} (cveId : Option Bytes) :
    (findingSnapshot cveId).Writes R := by
  cases cveId with
  | none => trivial
  | some id =>
      refine Prog.Writes.bind (lookupPrepared_writes _ _) fun o => ?_
      cases o with
      | none => trivial
      | some kevFlag =>
          refine Prog.Writes.bind (lookupPrepared_writes _ _) fun o => ?_
          cases o <;> trivial

/-- A finding ends with the durable tables as they were, or with what its
transaction made of them. -/
theorem scanPersistFinding_cases (env : Env Call Bytes) (scanId : ℤ) (f : Finding)
    (s : Session Tables ρ) :
    ((scanPersistFinding env scanId f s).1 ≠ .ok ∧
      s.Kept env .rollback (scanPersistFinding env scanId f s).2) ∨
    ((scanPersistFinding env scanId f s).1 = .ok ∧ s.txn = none ∧
      ∃ values n x, (findingBody scanId f values).eval env (n, s.committed) = (.ok, x) ∧
        (scanPersistFinding env scanId f s).2 = s.durable (x.1 + 1, x.2)) := by
  rw [scanPersistFinding]
  split
  · exact Or.inl ⟨by simp, .of_calls env _ s _⟩
  · obtain ⟨n, hn⟩ := (findingSnapshot_writes f.effectiveCveId).run_eq env s
    generalize (findingSnapshot f.effectiveCveId).run env s = snapshot at hn
    obtain ⟨values?, s₁⟩ := snapshot
    obtain rfl : s₁ = { s with calls := n } := congrArg Prod.snd hn
    cases values? with
    | none => exact Or.inl ⟨by simp, .of_calls env _ s n⟩
    | some values =>
        simp only
        obtain hbegin | ⟨-, htxn, hbegin⟩ :=
          Session.begin_cases env Call.begin { s with calls := n }
        · rw [hbegin]
          exact Or.inl ⟨by simp, .of_calls env _ s _⟩
        · simp only [hbegin, Prog.run_inTxn, Session.commit_inTxn, Bool.not_true,
            Bool.false_eq_true, if_false]
          obtain ⟨⟨status, x⟩, hbody⟩ : ∃ r,
              (findingBody scanId f values).eval env (n + 1, s.committed) = r := ⟨_, rfl⟩
          simp only [hbody]
          have hkept : ∀ y, s.Kept env .rollback ((s.inTxn y).rollback env Call.rollback) :=
            Session.rollback_kept env _ htxn
          split
          · next hst => exact Or.inl ⟨by simpa using hst, hkept x⟩
          · next hst =>
              cases hf : env.fault x.1 .commit with
              | true => exact Or.inl ⟨by simp, hkept (x.1 + 1, x.2)⟩
              | false =>
                  have hok : status = .ok := by simpa using hst
                  exact Or.inr ⟨by simp, htxn, values, n + 1, x, by rw [hbody, hok], rfl⟩

theorem lowercaseCopy_eq {src lc : Bytes} (h : lowercaseCopy src = some lc) :
    lc = src.map toLowerAscii := by
  rw [lowercaseCopy] at h
  split at h
  · cases h
  · exact (Option.some.inj h).symm

/-- A detected service ends in the same two ways. -/
theorem scanDetectAndPersist_cases (env : Env Call Bytes) (scanId : ℤ) (vendor product : Bytes)
    (det : Detection) (s : Session Tables ρ) :
    ((scanDetectAndPersist env scanId vendor product det s).status ≠ .ok ∧
      s.Kept env .rollback (scanDetectAndPersist env scanId vendor product det s).session) ∨
    ((scanDetectAndPersist env scanId vendor product det s).status = .ok ∧ s.txn = none ∧
      ∃ x, (detectBody scanId (vendor.map toLowerAscii) (product.map toLowerAscii) det).eval env
          (s.calls + 1, s.committed) =
            (((scanDetectAndPersist env scanId vendor product det s).counts, true), x) ∧
        (scanDetectAndPersist env scanId vendor product det s).session =
          s.durable (x.1 + 1, x.2)) := by
  have hstart : s.Kept env .rollback s := .of_calls env _ s s.calls
  rw [scanDetectAndPersist]
  split
  · exact Or.inl ⟨by simp, hstart⟩
  · cases hv : lowercaseCopy vendor with
    | none => exact Or.inl ⟨by simp, hstart⟩
    | some vendorLc =>
        cases hp : lowercaseCopy product with
        | none => exact Or.inl ⟨by simp, hstart⟩
        | some productLc =>
            obtain rfl := lowercaseCopy_eq hv
            obtain rfl := lowercaseCopy_eq hp
            simp only
            obtain hbegin | ⟨-, htxn, hbegin⟩ := Session.begin_cases env Call.begin s
            · rw [hbegin]
              exact Or.inl ⟨by simp, .of_calls env _ s _⟩
            · simp only [hbegin, Bool.not_true, Bool.false_eq_true, if_false, Prog.run_inTxn,
                Session.commit_inTxn]
              obtain ⟨⟨⟨c, done⟩, x⟩, hbody⟩ : ∃ r, (detectBody scanId
                  (vendor.map toLowerAscii) (product.map toLowerAscii) det).eval env
                    (s.calls + 1, s.committed) = r := ⟨_, rfl⟩
              simp only [hbody]
              have hkept : ∀ y, s.Kept env .rollback ((s.inTxn y).rollback env Call.rollback) :=
                Session.rollback_kept env _ htxn
              cases done with
              | false => exact Or.inl ⟨by simp, hkept x⟩
              | true =>
                  cases hf : env.fault x.1 .commit with
                  | true => exact Or.inl ⟨by simp, hkept (x.1 + 1, x.2)⟩
                  | false => exact Or.inr ⟨rfl, htxn, x, rfl, rfl⟩

/-! ## What the transactions write -/

section

variable {R : Tables → Tables → Prop} {scanId : ℤ}
  (hinsert : ∀ row now d d', row.scanId = scanId → insertResult row now d = some d' → R d d')

include hinsert in
theorem flushGroup_writes (det : Detection) (g : Group) (c : PersistCounts) :
    (flushGroup scanId det g c).Writes R := by
  have hlookup : ∀ {α : Type} (st : Stmt) (f : Tables → α), (lookup st f).Writes R := by
    intro α st f
    refine Prog.Writes.bind (Prog.attempt_writes _) fun ok => ?_
    cases ok with
    | false => trivial
    | true => exact Prog.select_writes _ _
  rw [flushGroup]
  split
  · trivial
  · refine Prog.Writes.bind (hlookup _ _) fun severity => ?_
    cases severity with
    | none => trivial
    | some severity =>
        refine Prog.Writes.bind (hlookup _ _) fun kevFlag => ?_
        cases kevFlag with
        | none => trivial
        | some kevFlag =>
            refine Prog.Writes.bind (hlookup _ _) fun epssScore => ?_
            cases epssScore with
            | none => trivial
            | some epssScore =>
                refine Prog.Writes.bind (Prog.attemptAll_writes _ _) fun ok => ?_
                cases ok with
                | false => trivial
                | true =>
                    refine Prog.Writes.bind
                      (Prog.exec_writes fun now d d' h => hinsert _ now d d' rfl h) fun step => ?_
                    cases step <;> trivial

include hinsert in
theorem candidateLoop_writes (det : Detection) (rows : List CpeRow) (cur : Option Group)
    (c : PersistCounts) : (candidateLoop scanId det rows cur c).Writes R := by
  induction rows generalizing cur c with
  | nil => trivial
  | cons row rows ih =>
      have htake : (takeCandidate scanId det row cur c).Writes R := by
        rw [takeCandidate]
        split
        · trivial
        · cases cur with
          | none => trivial
          | some g =>
              simp only
              split
              · trivial
              · refine Prog.Writes.bind (flushGroup_writes hinsert det g c) fun r => ?_
                split <;> trivial
      rw [candidateLoop]
      refine Prog.Writes.bind htake fun r => ?_
      split
      · trivial
      · refine Prog.Writes.bind (Prog.attempt_writes _) fun ok => ?_
        cases ok with
        | false => trivial
        | true => exact ih _ _

theorem prepareStatements_writes (sts : List Stmt) : (prepareStatements sts).Writes R := by
  induction sts with
  | nil => trivial
  | cons st sts ih =>
      refine Prog.Writes.bind (Prog.attempt_writes _) fun ok => ?_
      cases ok with
      | false => trivial
      | true => exact ih

include hinsert in
theorem detectBody_writes
    (hcount : ∀ n now d d', malformedCountUpdate scanId n now d = some d' → R d d')
    (vendor product : Bytes) (det : Detection) :
    (detectBody scanId vendor product det).Writes R := by
  have hflush : ∀ cur c, (flushLast scanId det cur c).Writes R := by
    intro cur c
    cases cur with
    | none => trivial
    | some g => exact flushGroup_writes hinsert det g c
  have hmalformed : ∀ n, (updateMalformedDataCount scanId n).Writes R := by
    intro n
    refine Prog.Writes.bind (Prog.attempt_writes _) fun ok => ?_
    cases ok with
    | false => trivial
    | true =>
        refine Prog.Writes.bind (Prog.attemptAll_writes _ _) fun ok => ?_
        cases ok with
        | false => trivial
        | true => exact Prog.Writes.bind (Prog.exec_writes (hcount n)) fun _ => trivial
  refine Prog.Writes.bind (prepareStatements_writes _) fun ok => ?_
  split
  · trivial
  · refine Prog.Writes.bind (Prog.attemptAll_writes _ _) fun ok => ?_
    split
    · trivial
    · refine Prog.Writes.bind (Prog.select_writes _ _) fun rows => ?_
      cases rows with
      | none => trivial
      | some rows =>
          refine Prog.Writes.bind (candidateLoop_writes hinsert det rows none .zero) fun r => ?_
          split
          · trivial
          · refine Prog.Writes.bind (hflush _ _) fun last => ?_
            split
            · trivial
            · exact Prog.Writes.bind (hmalformed _) fun _ => trivial

theorem findingBody_writes {f : Finding}
    (hrow : ∀ kevFlag epssScore now d d',
      insertResult (f.resultRow scanId kevFlag epssScore) now d = some d' → R d d')
    (hplace : ∀ id nowTs now d d', insertPlaceholder id nowTs now d = some d' → R d d')
    (snapshot : ℤ × Option ℚ) : (findingBody scanId f snapshot).Writes R := by
  have hplaced : ∀ cveId, (findingPlaceholder cveId).Writes R := by
    intro cveId
    cases cveId with
    | none => trivial
    | some id =>
        refine Prog.Writes.bind (Prog.timestamp_writes _) fun o => ?_
        cases o with
        | none => trivial
        | some nowTs =>
            refine Prog.Writes.bind (Prog.attempt_writes _) fun ok => ?_
            split
            · trivial
            · refine Prog.Writes.bind (Prog.attemptAll_writes _ _) fun ok => ?_
              split
              · trivial
              · refine Prog.Writes.bind (Prog.exec_writes (hplace id nowTs)) fun step => ?_
                cases step <;> trivial
  refine Prog.Writes.bind (hplaced _) fun placed => ?_
  split
  · trivial
  · refine Prog.Writes.bind (Prog.attempt_writes _) fun ok => ?_
    split
    · trivial
    · refine Prog.Writes.bind (Prog.attemptAll_writes _ _) fun ok => ?_
      split
      · trivial
      · refine Prog.Writes.bind (Prog.exec_writes (hrow snapshot.1 snapshot.2)) fun step => ?_
        cases step <;> trivial

end

/-! ## All or nothing -/

/-- The durable tables changed in one commit if the call answered OK, and
otherwise not at all; then the connection too still sees what it saw, unless
a rollback failed. -/
def PersistAtomic (env : Env Call Bytes) (s : Session Tables ρ) (status : PersistStatus)
    (s' : Session Tables ρ) : Prop :=
  (status = .ok → s.txn = none ∧ s'.txn = none ∧
    s'.log = s.log ++ [.commit s.committed s'.committed]) ∧
  (status ≠ .ok → s'.committed = s.committed ∧ s'.log = s.log ∧
    ((∀ n, env.fault n .rollback = false) → s'.txn = s.txn ∧ s'.view = s.view))

theorem kept_persistAtomic {env : Env Call Bytes} {s s' : Session Tables ρ}
    {status : PersistStatus} (hst : status ≠ .ok) (h : s.Kept env .rollback s') :
    PersistAtomic env s status s' := by
  refine ⟨fun hok => absurd hok hst, fun _ => ⟨h.committed, h.log, fun hroll => ⟨?_, h.view hroll⟩⟩⟩
  rcases h.txn with ht | ⟨-, n, hn⟩
  · exact ht
  · rw [hroll n] at hn
    cases hn

theorem durable_persistAtomic {env : Env Call Bytes} {s : Session Tables ρ}
    {status : PersistStatus} (hst : status = .ok) (hs : s.txn = none) (x : ℕ × Tables) :
    PersistAtomic env s status (s.durable x) :=
  ⟨fun _ => ⟨hs, rfl, rfl⟩, fun h => absurd hst h⟩

/-- Atomicity of the two persisters, for every argument, every state of the
connection and every schedule of failures. -/
theorem scan_persist_all_or_nothing (env : Env Call Bytes) (scanId : ℤ) (s : Session Tables ρ) :
    (∀ vendor product det,
      PersistAtomic env s (scanDetectAndPersist env scanId vendor product det s).status
        (scanDetectAndPersist env scanId vendor product det s).session) ∧
    (∀ f, PersistAtomic env s (scanPersistFinding env scanId f s).1
      (scanPersistFinding env scanId f s).2) := by
  constructor
  · intro vendor product det
    rcases scanDetectAndPersist_cases env scanId vendor product det s with
      ⟨hst, hkept⟩ | ⟨hst, htxn, x, -, hs⟩
    · exact kept_persistAtomic hst hkept
    · rw [hs]
      exact durable_persistAtomic hst htxn _
  · intro f
    rcases scanPersistFinding_cases env scanId f s with ⟨hst, hkept⟩ | ⟨hst, htxn, _, _, x, -, hs⟩
    · exact kept_persistAtomic hst hkept
    · rw [hs]
      exact durable_persistAtomic hst htxn _

end Cytadel.Db
