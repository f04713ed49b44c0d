import Cytadel.Proofs.FindingsKept
import Cytadel.Proofs.ScanVerdicts

/-!
# Every open port is accounted for

The loop over the ports absorbs an argument error of
`cytadel_scan_detect_and_persist` without a count, so an open port could be
neither attempted nor unresolvable. It never is: what the resolver lets through
passes every check of the persister, whatever the knowledge base holds. So in
every run that answers OK the resolved ports are handed on one by one, the
others are counted, and the rows that came on top are counted where they were
written.
-/

namespace Cytadel.Cli

open Cytadel Cytadel.Kb Cytadel.Db Cytadel.Plugin Lib

variable {ρ : Type} {env : Env Call Bytes} {scanId : ℤ} {r : HostResult}

/-- The plugin id of the version matcher. -/
def versionMatcher : Bytes := ascii "cpe_version_match"

/-! ## What is handed on -/

/-- The arguments of a call of `cytadel_scan_detect_and_persist`. -/
structure HandOver where
  vendor : Bytes
  product : Bytes
  det : Detection

/-- What has to be handed on for a port: nothing, unless it is open and its CPE
resolves. -/
def HostResult.handOver (r : HostResult) (p : UInt16 × PortState) : Option HandOver :=
  if p.2 = .isOpen then
    r.kb.bind fun kb => (resolvePort kb p.1).map fun resolved =>
      ⟨resolved.vendor, resolved.product, r.detection kb p.1 resolved⟩
  else none

/-- The resolver and the persister draw the same lines. -/
theorem resolvePort_fits {kb : Kb} {port : UInt16} {resolved : ResolvedService}
    (h : resolvePort kb port = some resolved) :
    (lowercaseCopy resolved.vendor).isSome ∧ (lowercaseCopy resolved.product).isSome ∧
      resolved.version ≠ [] := by
  have hfits : ∀ src : Bytes, src.length ≠ 0 → src.length ≤ 256 → (lowercaseCopy src).isSome := by
    intro src hne hle
    have hempty : src.isEmpty = false := by
      cases src with
      | nil => exact absurd rfl hne
      | cons c src => rfl
    rw [lowercaseCopy, hempty, if_neg (by simp; omega)]
    rfl
  simp only [resolvePort] at h
  split at h
  · cases h
  · split at h
    · split at h
      · split at h
        · cases h
        · split at h
          · cases h
          · next hlens =>
              cases h
              simp only [not_or, Nat.not_lt] at hlens
              obtain ⟨hvne, hvle, hpne, hple, hver⟩ := hlens
              refine ⟨hfits _ hvne (by omega), hfits _ hpne (by omega), ?_⟩
              exact fun hnil => hver (by simpa using hnil)
      · cases h
    · cases h

theorem handOver_eq_some {p : UInt16 × PortState} {call : HandOver} :
    r.handOver p = some call ↔ p.2 = .isOpen ∧ ∃ kb resolved, r.kb = some kb ∧
      resolvePort kb p.1 = some resolved ∧
      call = ⟨resolved.vendor, resolved.product, r.detection kb p.1 resolved⟩ := by
  rw [HostResult.handOver]
  split
  · next hopen =>
      simp only [Option.bind_eq_some_iff, Option.map_eq_some_iff, hopen, true_and]
      constructor
      · rintro ⟨kb, hkb, resolved, hres, rfl⟩
        exact ⟨kb, resolved, hkb, hres, rfl⟩
      · rintro ⟨kb, resolved, hkb, hres, rfl⟩
        exact ⟨kb, hkb, resolved, hres, rfl⟩
  · next hopen =>
      constructor
      · intro h
        cases h
      · rintro ⟨h, -⟩
        exact absurd h hopen

/-- What is handed on passes the checks. -/
theorem handOver_takes (hpos : 0 < scanId) (hhost : r.host ≠ []) {p : UInt16 × PortState}
    {call : HandOver} (h : r.handOver p = some call) :
    call.det.Takes scanId call.vendor call.product := by
  obtain ⟨-, kb, resolved, -, hres, rfl⟩ := handOver_eq_some.mp h
  obtain ⟨hvendor, hproduct, -⟩ := resolvePort_fits hres
  refine ⟨?_, hvendor, hproduct⟩
  have hport := p.1.toNat_lt
  have h₁ : decide (scanId ≤ 0) = false := decide_eq_false (by omega)
  have h₂ : r.host.isEmpty = false := by simpa using hhost
  have h₃ : decide ((p.1.toNat : ℤ) < 0 ∨ (p.1.toNat : ℤ) > 65535) = false :=
    decide_eq_false (by omega)
  show (decide (scanId ≤ 0) || r.host.isEmpty || versionMatcher.isEmpty ||
    decide ((p.1.toNat : ℤ) < 0 ∨ (p.1.toNat : ℤ) > 65535)) = false
  rw [h₁, h₂, h₃]
  rfl

/-! ## What a call writes -/

/-- A relation that a call keeps: rows of this plugin came on top. -/
def Adds (pluginId : Bytes) (d d' : Tables) : Prop :=
  ∃ rows, d'.scanResults = d.scanResults ++ rows ∧ ∀ row ∈ rows, row.pluginId = pluginId

theorem Adds.refl {pluginId : Bytes} (d : Tables) : Adds pluginId d d := ⟨[], by simp, by simp⟩

theorem Adds.trans {pluginId : Bytes} (a b c : Tables) (h : Adds pluginId a b)
    (h' : Adds pluginId b c) : Adds pluginId a c := by
  obtain ⟨rows, hrows, hid⟩ := h
  obtain ⟨rows', hrows', hid'⟩ := h'
  refine ⟨rows ++ rows', by rw [hrows', hrows, List.append_assoc], ?_⟩
  exact List.forall_mem_append.mpr ⟨hid, hid'⟩

theorem insertPlaceholder_results {cveId nowTs now : Bytes} {d d' : Tables}
    (h : insertPlaceholder cveId nowTs now d = some d') : d'.scanResults = d.scanResults := by
  rw [insertPlaceholder_frame h]

/-- A finding is written under its own plugin id, if it is written. -/
theorem scanPersistFinding_adds (env : Env Call Bytes) (scanId : ℤ) (f : Finding)
    (s : Session Tables ρ) :
    Adds f.pluginId s.committed (scanPersistFinding env scanId f s).2.committed := by
  obtain ⟨-, hkept⟩ | ⟨-, -, values, n, x, hbody, hs⟩ := scanPersistFinding_cases env scanId f s
  · rw [hkept.committed]
    exact .refl _
  · have hwrites : (findingBody scanId f values).Writes (Adds f.pluginId) := by
      refine findingBody_writes (fun kevFlag epssScore now d d' h => ?_)
        (fun _ _ _ _ _ h => ⟨[], by simp [insertPlaceholder_results h], by simp⟩) values
      obtain ⟨-, -, id, -, -, rfl⟩ := insertResult_eq h
      exact ⟨_, rfl, fun row hrow => by rw [List.mem_singleton.mp hrow]; rfl⟩
    have hadds := hwrites.eval .refl .trans env (n, s.committed)
    rw [hbody] at hadds
    rw [hs]
    exact hadds

/-- Arguments that pass the checks are tried: only the database can fail. -/
theorem scanDetectAndPersist_takes {vendor product : Bytes} {det : Detection}
    (h : det.Takes scanId vendor product) (env : Env Call Bytes) (s : Session Tables ρ) :
    (scanDetectAndPersist env scanId vendor product det s).status = .ok ∨
      (scanDetectAndPersist env scanId vendor product det s).status = .errDb := by
  obtain ⟨hargs, hvendor, hproduct⟩ := h
  obtain ⟨vendorLc, hv⟩ := Option.isSome_iff_exists.mp hvendor
  obtain ⟨productLc, hp⟩ := Option.isSome_iff_exists.mp hproduct
  rw [scanDetectAndPersist, hargs, if_neg Bool.false_ne_true, hv, hp]
  simp only
  split
  · exact .inr rfl
  · split
    · exact .inr rfl
    · split
      · exact .inr rfl
      · exact .inl rfl

/-- A detection that was persisted is written under its own plugin id, port and
host, and counts its rows. -/
theorem scanDetectAndPersist_rows {vendor product : Bytes} {det : Detection}
    {s : Session Tables ρ}
    (hok : (scanDetectAndPersist env scanId vendor product det s).status = .ok) :
    ∃ rows, (scanDetectAndPersist env scanId vendor product det s).session.committed.scanResults =
        s.committed.scanResults ++ rows ∧
      (scanDetectAndPersist env scanId vendor product det s).counts.rowsInserted = rows.length ∧
      ∀ row ∈ rows, row.pluginId = det.pluginId ∧ row.port = det.port := by
  obtain ⟨hfail, -⟩ | ⟨-, -, x, hbody, hsession⟩ :=
    scanDetectAndPersist_cases env scanId vendor product det s
  · exact absurd hok hfail
  obtain ⟨n, cur, c₁, y₁, y₂, hloop, hlast, hup⟩ := detectBody_stages hbody
  obtain ⟨gs, hsteps⟩ := candidateLoop_flushes hloop
  obtain ⟨rows, htab, hrows, hcount, -⟩ := steps_flush (hsteps.append (flushLast_steps hlast))
  refine ⟨rows, ?_, by simpa [PersistCounts.zero] using hcount, ?_⟩
  · rw [hsession]
    show x.2.scanResults = _
    simp only [malformedCountUpdate, Option.some.injEq] at hup
    rw [← hup]
    show y₂.2.scanResults = _
    rw [htab]
  · intro row hrow
    obtain ⟨g, -, status, id, now, -, -, rfl⟩ := forall₂_writtenAs_mem hrows hrow
    exact ⟨rfl, rfl⟩

/-! ## The loops -/

/-- A number has no letters. -/
theorem letter_not_mem_decimalInt (i : ℤ) : 0x63 ∉ decimalInt i := by
  have hdecimal : ∀ n, 0x63 ∉ decimal n := by
    intro n hm
    obtain ⟨c, hc, heq⟩ := List.mem_map.mp hm
    have hdigit := Nat.isDigit_of_mem_toDigits (by decide) (by decide) hc
    simp only [Char.isDigit, Bool.and_eq_true, decide_eq_true_eq] at hdigit
    have hlo : 48 ≤ c.toNat := hdigit.1
    have hhi : c.toNat ≤ 57 := hdigit.2
    have hval := congrArg UInt8.toNat heq
    rw [UInt8.toNat_ofNat'] at hval
    have h63 : (0x63 : UInt8).toNat = 99 := rfl
    omega
  cases i with
  | ofNat n => exact hdecimal n
  | negSucc n =>
      rw [decimalInt, List.mem_cons, not_or]
      exact ⟨by decide, hdecimal _⟩

/-- A finding has the number of its script for its plugin id. -/
theorem persistRow_pluginId {f : PluginFinding} {row : Finding}
    (h : r.persistRow f = some row) : row.pluginId ≠ versionMatcher := by
  have hnumber : ∃ i, row.pluginId = decimalInt i := by
    simp only [HostResult.persistRow] at h
    split at h
    · cases h
    · split at h
      · cases h
      · split at h
        · cases h
        · split at h
          · cases h
          · cases h
            exact ⟨_, rfl⟩
  obtain ⟨i, hi⟩ := hnumber
  intro heq
  refine letter_not_mem_decimalInt i ?_
  rw [← hi, heq]
  decide

/-- A call that was made and answered OK. -/
def HandedOver (env : Env Call Bytes) (scanId : ℤ) (call : HandOver) (s s' : Session Tables ρ) :
    Prop :=
  (scanDetectAndPersist env scanId call.vendor call.product call.det s).status = .ok ∧
    (scanDetectAndPersist env scanId call.vendor call.product call.det s).session = s'

/-- What the loop over these ports has done, from these counts on, if it ends
well. -/
structure PortsDone (env : Env Call Bytes) (scanId : ℤ) (r : HostResult)
    (ports : List (UInt16 × PortState)) (c : HostCounts) (s : Session Tables ρ)
    (out : HostPersist ρ) : Prop where
  handed : Steps (HandedOver env scanId) (ports.filterMap r.handOver) s out.session
  attempted : out.counts.detectionsAttempted =
    c.detectionsAttempted + (ports.filterMap r.handOver).length
  counted : ports.countP (fun p => p.2 = .isOpen) + c.unresolvableServices =
    (ports.filterMap r.handOver).length + out.counts.unresolvableServices
  rows : ∃ rows, out.session.committed.scanResults = s.committed.scanResults ++ rows ∧
    out.counts.rowsInserted = c.rowsInserted + rows.length ∧
    ∀ row ∈ rows, row.pluginId = versionMatcher ∧
      ∃ p ∈ ports, (r.handOver p).isSome ∧ row.port = p.1.toNat

namespace PortsDone

variable {p : UInt16 × PortState} {ports : List (UInt16 × PortState)} {c : HostCounts}
  {s : Session Tables ρ} {out : HostPersist ρ}

theorem nil (c : HostCounts) (s : Session Tables ρ) :
    PortsDone env scanId r [] c s ⟨.ok, c, s⟩ where
  handed := .nil s
  attempted := rfl
  counted := by simp
  rows := ⟨[], by simp, rfl, by simp⟩

/-- A port that nothing is handed on for: it is not open, or it is counted. -/
theorem skip {n : ℕ} (hp : r.handOver p = none)
    (hn : (if p.2 = .isOpen then 1 else 0) + c.unresolvableServices = n)
    (h : PortsDone env scanId r ports { c with unresolvableServices := n } s out) :
    PortsDone env scanId r (p :: ports) c s out where
  handed := by
    rw [List.filterMap_cons_none hp]
    exact h.handed
  attempted := by
    rw [List.filterMap_cons_none hp]
    exact h.attempted
  counted := by
    have hcounted := h.counted
    simp only at hcounted
    rw [List.filterMap_cons_none hp, List.countP_cons]
    simp only [decide_eq_true_eq]
    omega
  rows := by
    obtain ⟨rows, hrows, hcount, hids⟩ := h.rows
    refine ⟨rows, hrows, hcount, fun row hrow => ?_⟩
    obtain ⟨hid, p', hp', hrest⟩ := hids row hrow
    exact ⟨hid, p', List.mem_cons_of_mem _ hp', hrest⟩

/-- A port that is handed on. -/
theorem hand {call : HandOver} {s₁ : Session Tables ρ} {rows : List ScanResultRow} {m : ℕ}
    (hp : r.handOver p = some call) (hcall : HandedOver env scanId call s s₁)
    (hrows : s₁.committed.scanResults = s.committed.scanResults ++ rows)
    (hids : ∀ row ∈ rows, row.pluginId = versionMatcher ∧ row.port = p.1.toNat)
    (h : PortsDone env scanId r ports
      { c with
        detectionsAttempted := c.detectionsAttempted + 1
        rowsInserted := c.rowsInserted + rows.length
        malformedEvents := m } s₁ out) :
    PortsDone env scanId r (p :: ports) c s out where
  handed := by
    rw [List.filterMap_cons_some hp]
    exact .cons hcall h.handed
  attempted := by
    have hattempted := h.attempted
    simp only at hattempted
    rw [List.filterMap_cons_some hp, List.length_cons]
    omega
  counted := by
    have hopen := (handOver_eq_some.mp hp).1
    have hcounted := h.counted
    simp only at hcounted
    rw [List.filterMap_cons_some hp, List.countP_cons, List.length_cons, if_pos (by simpa)]
    omega
  rows := by
    obtain ⟨rows', hrows', hcount, hids'⟩ := h.rows
    refine ⟨rows ++ rows', by rw [hrows', hrows, List.append_assoc], ?_, ?_⟩
    · rw [hcount, List.length_append]
      exact Nat.add_assoc _ _ _
    · intro row hrow
      rcases List.mem_append.mp hrow with hrow | hrow
      · obtain ⟨hid, hport⟩ := hids row hrow
        exact ⟨hid, p, List.mem_cons_self, by rw [hp]; rfl, hport⟩
      · obtain ⟨hid, p', hp', hrest⟩ := hids' row hrow
        exact ⟨hid, p', List.mem_cons_of_mem _ hp', hrest⟩

end PortsDone

/-- The loop over the ports, turn by turn. -/
theorem portLoop_done (hpos : 0 < scanId) (hhost : r.host ≠ [])
    (ports : List (UInt16 × PortState)) (c : HostCounts) (s : Session Tables ρ)
    (hok : (portLoop env scanId r ports c s).status = .ok) :
    PortsDone env scanId r ports c s (portLoop env scanId r ports c s) := by
  induction ports generalizing c s with
  | nil => exact .nil c s
  | cons p ports ih =>
      rw [portLoop] at hok ⊢
      split at hok
      · next hclosed =>
          have hp : r.handOver p = none := by rw [HostResult.handOver, if_neg hclosed]
          rw [if_pos hclosed]
          exact .skip hp (by rw [if_neg hclosed, Nat.zero_add]) (ih c s hok)
      · next hopen =>
          rw [if_neg hopen]
          rw [not_not] at hopen
          cases hkb : r.kb with
          | none =>
              have hp : r.handOver p = none := by
                rw [HostResult.handOver, if_pos hopen, hkb]
                rfl
              rw [hkb] at hok
              exact .skip hp (by rw [if_pos hopen, Nat.add_comm]) (ih _ s hok)
          | some kb =>
              rw [hkb] at hok
              simp only at hok ⊢
              cases hres : resolvePort kb p.1 with
              | none =>
                  have hp : r.handOver p = none := by
                    rw [HostResult.handOver, if_pos hopen, hkb, Option.bind_some, hres]
                    rfl
                  rw [hres] at hok
                  exact .skip hp (by rw [if_pos hopen, Nat.add_comm]) (ih _ s hok)
              | some resolved =>
                  have hp := handOver_eq_some.mpr ⟨hopen, kb, resolved, hkb, hres, rfl⟩
                  have htakes := handOver_takes hpos hhost hp
                  rw [hres] at hok
                  simp only at hok ⊢
                  obtain hst | hst := scanDetectAndPersist_takes htakes env s
                  · obtain ⟨rows, hrows, hcount, hids⟩ := scanDetectAndPersist_rows hst
                    simp only [hst, hcount] at hok ⊢
                    exact .hand hp ⟨hst, rfl⟩ hrows hids (ih _ _ hok)
                  · simp only [hst] at hok
                    cases hok

/-- The loop over the findings touches none of the counts of the ports, and
writes no row of the version matcher. -/
theorem findingLoop_adds (env : Env Call Bytes) (scanId : ℤ) (r : HostResult)
    (findings : List PluginFinding) (c : HostCounts) (s : Session Tables ρ) :
    (findingLoop env scanId r findings c s).counts.detectionsAttempted = c.detectionsAttempted ∧
    (findingLoop env scanId r findings c s).counts.unresolvableServices =
      c.unresolvableServices ∧
    (findingLoop env scanId r findings c s).counts.rowsInserted = c.rowsInserted ∧
    ∃ rows, (findingLoop env scanId r findings c s).session.committed.scanResults =
        s.committed.scanResults ++ rows ∧
      ∀ row ∈ rows, row.pluginId ≠ versionMatcher := by
  induction findings generalizing c s with
  | nil => exact ⟨rfl, rfl, rfl, [], by simp [findingLoop], by simp⟩
  | cons f findings ih =>
      rw [findingLoop]
      cases hrow : r.persistRow f with
      | none => exact ih c s
      | some row =>
          obtain ⟨rows, hrows, hids⟩ := scanPersistFinding_adds env scanId row s
          have hother := persistRow_pluginId hrow
          simp only
          generalize scanPersistFinding env scanId row s = out at hrows ⊢
          obtain ⟨status, s₁⟩ := out
          -- whatever is counted for this finding, the others come on top of its row
          have hthen : ∀ c', c'.detectionsAttempted = c.detectionsAttempted →
              c'.unresolvableServices = c.unresolvableServices →
              c'.rowsInserted = c.rowsInserted →
              (findingLoop env scanId r findings c' s₁).counts.detectionsAttempted =
                c.detectionsAttempted ∧
              (findingLoop env scanId r findings c' s₁).counts.unresolvableServices =
                c.unresolvableServices ∧
              (findingLoop env scanId r findings c' s₁).counts.rowsInserted = c.rowsInserted ∧
              ∃ rows, (findingLoop env scanId r findings c' s₁).session.committed.scanResults =
                  s.committed.scanResults ++ rows ∧
                ∀ row ∈ rows, row.pluginId ≠ versionMatcher := by
            intro c' hd hu hr
            obtain ⟨hd', hu', hr', rows', hrows', hids'⟩ := ih c' s₁
            refine ⟨hd'.trans hd, hu'.trans hu, hr'.trans hr, rows ++ rows', ?_, ?_⟩
            · rw [hrows', hrows, List.append_assoc]
            · refine List.forall_mem_append.mpr ⟨fun x hx => ?_, hids'⟩
              rw [hids x hx]
              exact hother
          cases status with
          | errDb =>
              refine ⟨rfl, rfl, rfl, rows, hrows, fun x hx => ?_⟩
              rw [hids x hx]
              exact hother
          | ok => exact hthen _ rfl rfl rfl
          | errRowSkipped => exact hthen _ rfl rfl rfl
          | errInvalidArg => exact hthen _ rfl rfl rfl

/-! ## A host -/

/-- Every open port of the host is handed on once or counted as unresolvable,
and the rows of the version matcher that came on top are those of the ports that
were handed on. -/
structure PortsAccounted (env : Env Call Bytes) (scanId : ℤ) (r : HostResult)
    (s : Session Tables ρ) (out : HostPersist ρ) : Prop where
  counted : r.ports.countP (fun p => p.2 = .isOpen) =
    out.counts.detectionsAttempted + out.counts.unresolvableServices
  /-- The calls, in order, behind those for the findings. -/
  handed : Steps (HandedOver env scanId) (r.ports.filterMap r.handOver)
    (findingLoop env scanId r r.findings .zero s).session out.session
  attempted : out.counts.detectionsAttempted = (r.ports.filterMap r.handOver).length
  accepted : ∀ call ∈ r.ports.filterMap r.handOver,
    call.det.Takes scanId call.vendor call.product
  rows : ∃ rows, out.session.committed.scanResults = s.committed.scanResults ++ rows ∧
    out.counts.rowsInserted = rows.countP (fun row => row.pluginId = versionMatcher) ∧
    ∀ port : UInt16, (∀ kb, r.kb = some kb → resolvePort kb port = none) →
      ∀ row ∈ rows, row.pluginId = versionMatcher → row.port ≠ port.toNat

/-- The rows of the two loops, one behind the other. -/
theorem PortsDone.accounted {s : Session Tables ρ} {first out : HostPersist ρ}
    (hpos : 0 < scanId) (hhost : r.host ≠ [])
    (hfirst : findingLoop env scanId r r.findings .zero s = first)
    (h : PortsDone env scanId r r.ports first.counts first.session out) :
    PortsAccounted env scanId r s out := by
  obtain ⟨hd, hu, hr, found, hfound, hother⟩ :=
    findingLoop_adds env scanId r r.findings .zero s
  rw [hfirst] at hd hu hr hfound
  replace hd : first.counts.detectionsAttempted = 0 := hd
  replace hu : first.counts.unresolvableServices = 0 := hu
  replace hr : first.counts.rowsInserted = 0 := hr
  obtain ⟨hhanded, hattempted, hcounted, rows, hrows, hcount, hids⟩ := h
  refine ⟨by omega, by rwa [hfirst], by omega, ?_, found ++ rows, ?_, ?_, ?_⟩
  · intro call hcall
    obtain ⟨p, -, hp⟩ := List.mem_filterMap.mp hcall
    exact handOver_takes hpos hhost hp
  · rw [hrows, hfound, List.append_assoc]
  · have hnone : found.countP (fun row => row.pluginId = versionMatcher) = 0 :=
      List.countP_eq_zero.mpr fun row hrow => by simpa using hother row hrow
    have hall : rows.countP (fun row => row.pluginId = versionMatcher) = rows.length :=
      List.countP_eq_length.mpr fun row hrow => by simpa using (hids row hrow).1
    rw [hcount, hr, List.countP_append, hnone, hall]
  · intro port hunresolved row hrow hid hport
    rcases List.mem_append.mp hrow with hrow | hrow
    · exact hother row hrow hid
    · obtain ⟨-, p, -, hp, hrowport⟩ := hids row hrow
      obtain ⟨call, hp⟩ := Option.isSome_iff_exists.mp hp
      obtain ⟨-, kb, resolved, hkb, hres, -⟩ := handOver_eq_some.mp hp
      have hsame : p.1 = port := by
        refine UInt16.toNat_inj.mp ?_
        omega
      rw [← hsame] at hunresolved
      rw [hunresolved kb hkb] at hres
      cases hres

theorem persistHost_ports {s : Session Tables ρ}
    (hok : (persistHost env scanId r s).status = .ok) :
    PortsAccounted env scanId r s (persistHost env scanId r s) := by
  rw [persistHost] at hok ⊢
  split at hok
  · cases hok
  · next hpos =>
      split at hok
      · cases hok
      · next hup =>
          obtain ⟨-, hhost⟩ := not_or.mp hup
          rw [if_neg hpos, if_neg hup]
          simp only at hok ⊢
          split at hok
          · next hfindings =>
              rw [if_pos hfindings]
              exact (portLoop_done (not_le.mp hpos) hhost _ _ _ hok).accounted
                (not_le.mp hpos) hhost rfl
          · next hfindings => exact absurd hok hfindings

/-- A host with a web server that is known and two services that are not. -/
def webHost : HostResult where
  host := ascii "10.0.0.5"
  state := .up
  ports := [(80, .isOpen), (22, .isOpen), (443, .closed)]
  kb := some (kbCreate.setStr .all (some (ascii "CPE/80"))
    (some (ascii "cpe:2.3:a:apache:http_server:2.4.49:*:*:*:*:*:*:*"))).2
  findings := []

theorem persistHost_ports_web :
    PortsAccounted quietEnv 1 webHost (oneScan.connect : Session Tables Unit)
      (persistHost quietEnv 1 webHost oneScan.connect) ∧
    (webHost.ports.filterMap webHost.handOver).map HandOver.product = [ascii "http_server"] := by
  have hquiet : ∀ n k, quietEnv.fault n k = false := fun _ _ => rfl
  have hready : Ready 1 oneScan := oneScan_conforms.ready rfl
  obtain ⟨rows, rest, hok, -⟩ := persistHost_rows (r := webHost)
    (s := (oneScan.connect : Session Tables Unit)) hquiet rfl hready (by decide) rfl (by decide)
  exact ⟨persistHost_ports hok, by decide +kernel⟩

end Cytadel.Cli
