import Cytadel.Lib.Steps
import Cytadel.Lib.Tickets
import Cytadel.Core.WorkerPool

/-!
# Every target is scanned once

The cursor of the pool hands out tickets: an index belongs to the thread whose
fetch-and-add returned it until the thread has stored the return code of the
scan. A thread leaves its loop with an index that is not below the count, so
from then on every index below it has been drawn, and once all threads have
left none is held any more.
-/

namespace Cytadel.Core

open Lib

variable {Target Ports Opts Net R : Type} {n : ℕ}
variable {hostScan : Target → Option Ports → Option Opts → Net → R × ℤ}
variable {s s' : Pool Target Ports Opts R n}

/-! ## What a turn can do -/

/-- The turns of the parent and of the threads. -/
inductive Turn (hostScan : Target → Option Ports → Option Opts → Net → R × ℤ)
    (s : Pool Target Ports Opts R n) : Pool Target Ports Opts R n → Prop
  | createFails {t : ℕ} : s.parent = .creating t →
      Turn hostScan s { s with createFailed := true, parent := .joining 0 }
  | creates {t : ℕ} : s.parent = .creating t →
      Turn hostScan s { s.setWorker t .ready with
        created := s.created + 1
        parent := if t + 1 < s.workerCount then .creating (t + 1) else .joining 0 }
  | joins {t i : ℕ} : s.parent = .joining t → t < s.created → s.threads t = some (.exited i) →
      s.joined t = false →
      Turn hostScan s
        { s with joined := Function.update s.joined t true, parent := .joining (t + 1) }
  | joinFails {t : ℕ} : s.parent = .joining t → t < s.created →
      s.threads t = none ∨ s.joined t = true →
      Turn hostScan s { s with joinFailed := true, parent := .joining (t + 1) }
  | finishes {t : ℕ} : s.parent = .joining t → ¬ t < s.created →
      Turn hostScan s
        { s with parent := .returned (if s.createFailed || s.joinFailed then -1 else 0) }
  | claims {w : ℕ} : s.threads w = some .ready →
      Turn hostScan s { s.setWorker w (.claimed s.ctx.nextIndex) with
        ctx.nextIndex := s.ctx.nextIndex + 1 }
  | leaves {w i : ℕ} : s.threads w = some (.claimed i) → n ≤ i →
      Turn hostScan s (s.setWorker w (.exited i))
  | scans {w : ℕ} {i : Fin n} {targets : Fin n → Target} {old : WorkerResult R} {net : Net}
      {result : R} {rc : ℤ} : s.threads w = some (.claimed i) → s.ctx.targets = some targets →
      s.slot i = some old → hostScan (targets i) s.ctx.ports s.ctx.opts net = (result, rc) →
      Turn hostScan s (((s.setSlot i { old with result }).setWorker w
        (.scanned i rc)).record (.scan w i result rc))
  | stores {w : ℕ} {i : Fin n} {rc : ℤ} {old : WorkerResult R} :
      s.threads w = some (.scanned i rc) → s.slot i = some old →
      Turn hostScan s (((s.setSlot i { old with scanRc := rc }).setWorker w .ready).record
        (.store w i rc))

theorem parentStep_turn {a : Action Net} (h : parentStep s a = some s') : Turn hostScan s s' := by
  cases a with
  | create rc =>
      simp only [parentStep] at h
      split at h
      · next t hp =>
          cases h
          rw [pthreadCreate]
          split
          · exact .createFails hp
          · exact .creates hp
      · cases h
  | join =>
      simp only [parentStep] at h
      split at h
      · next t hp =>
          split at h
          · next ht =>
              rw [pthreadJoin] at h
              split at h
              · next hw =>
                  cases h
                  simpa using Turn.joinFails hp ht (.inl hw)
              · next i hw =>
                  cases hj : s.joined t with
                  | true =>
                      rw [hj] at h
                      cases h
                      simpa using Turn.joinFails hp ht (.inr hj)
                  | false =>
                      rw [hj] at h
                      cases h
                      simpa using Turn.joins hp ht hw hj
              · cases h
          · cases h
      · cases h
  | finish =>
      simp only [parentStep] at h
      split at h
      · next t hp =>
          split at h
          · cases h
          · next ht =>
              cases h
              exact .finishes hp ht
      · cases h
  | claim w => cases h
  | leave w => cases h
  | hostScan w net => cases h
  | store w => cases h

theorem threadStep_turn {a : Action Net} (h : threadStep hostScan s a = some s') :
    Turn hostScan s s' := by
  cases a with
  | create rc => cases h
  | join => cases h
  | finish => cases h
  | claim w =>
      simp only [threadStep] at h
      split at h
      · next hw =>
          cases h
          exact .claims hw
      · cases h
  | leave w =>
      simp only [threadStep] at h
      split at h
      · next i hw =>
          split at h
          · next hi =>
              cases h
              exact .leaves hw hi
          · cases h
      · cases h
  | hostScan w net =>
      simp only [threadStep] at h
      split at h
      · next i hw =>
          split at h
          · next hi =>
              simp only [Option.bind_eq_bind, Option.bind_eq_some_iff, Option.some.injEq] at h
              obtain ⟨targets, ht, old, hold, rfl⟩ := h
              exact .scans (i := ⟨i, hi⟩) hw ht hold rfl
          · cases h
      · cases h
  | store w =>
      simp only [threadStep] at h
      split at h
      · next i rc hw =>
          simp only [Option.bind_eq_bind, Option.bind_eq_some_iff, Option.some.injEq] at h
          obtain ⟨old, hold, rfl⟩ := h
          exact .stores hw hold
      · cases h

theorem poolStep_turn {a : Action Net} (h : poolStep hostScan a s = some s') :
    Turn hostScan s s' := by
  rw [poolStep] at h
  rcases Option.or_eq_some_iff.mp h with h | ⟨-, h⟩
  · exact parentStep_turn h
  · exact threadStep_turn h

/-! ## The parent and its threads -/

/-- What the parent has got at, for each place it stands at. -/
def Parent.Reached (s : Pool Target Ports Opts R n) : Parent → Prop
  | .creating t => t = s.created ∧ (∀ w, s.joined w = false) ∧ s.createFailed = false
  | .joining t => (∀ w, s.joined w = true ↔ w < t) ∧ t ≤ s.created ∧
      (s.createFailed = false → 0 < s.created)
  | .returned rc => (∀ w < s.created, s.joined w = true) ∧ (rc = 0 → n = 0 ∨ 0 < s.created)

structure Joinable (s : Pool Target Ports Opts R n) : Prop where
  created : ∀ w, s.threads w ≠ none ↔ w < s.created
  exited : ∀ w i, s.threads w = some (.exited i) → n ≤ i
  joined : ∀ w, s.joined w = true → ∃ i, s.threads w = some (.exited i)
  reached : s.parent.Reached s

theorem joinable_start (targets : Option (Fin n → Target)) (ports : Option Ports)
    (opts : Option Opts) (maxWorkers : ℤ) (outResults : Option (Fin n → WorkerResult R))
    (calloc : Bool) :
    Joinable (workerPoolRun targets ports opts maxWorkers outResults calloc) where
  created := by simp [workerPoolRun]
  exited := by simp [workerPoolRun]
  joined := by simp [workerPoolRun]
  reached := by
    simp only [workerPoolRun]
    split
    · next hn => exact ⟨by simp, fun _ => .inl hn⟩
    · split
      · exact ⟨by simp, fun h => absurd h (by decide)⟩
      · split
        · exact ⟨by simp, fun h => absurd h (by decide)⟩
        · exact ⟨rfl, fun _ => rfl, rfl⟩

/-- A thread that is in its loop goes on to another place. -/
theorem Joinable.setWorker (h : Joinable s) {w : ℕ} {k k' : Worker n}
    (hw : s.threads w = some k) (hk : ∀ i, k ≠ .exited i)
    (hthreads : s'.threads = Function.update s.threads w (some k'))
    (hk' : ∀ i, k' = .exited i → n ≤ i) (hcreated : s'.created = s.created)
    (hjoined : s'.joined = s.joined) (hparent : s'.parent = s.parent)
    (hfailed : s'.createFailed = s.createFailed) : Joinable s' where
  created v := by
    rw [hthreads, hcreated, ← h.created v]
    by_cases hv : v = w
    · subst hv
      simp [hw]
    · rw [Function.update_of_ne hv]
  exited v i hv := by
    rw [hthreads] at hv
    by_cases hvw : v = w
    · subst hvw
      rw [Function.update_self, Option.some.injEq] at hv
      exact hk' i hv
    · rw [Function.update_of_ne hvw] at hv
      exact h.exited v i hv
  joined v hv := by
    rw [hjoined] at hv
    obtain ⟨i, hi⟩ := h.joined v hv
    have hvw : v ≠ w := by
      rintro rfl
      rw [hw, Option.some.injEq] at hi
      exact hk i hi
    exact ⟨i, by rw [hthreads, Function.update_of_ne hvw, hi]⟩
  reached := by
    have := h.reached
    rw [hparent]
    cases hp : s.parent <;> rw [hp] at this <;>
      simpa only [Parent.Reached, hcreated, hjoined, hfailed] using this

theorem Joinable.turn (h : Joinable s) (ht : Turn hostScan s s') : Joinable s' := by
  have hreached := h.reached
  cases ht with
  | createFails hp =>
      rw [hp] at hreached
      obtain ⟨rfl, hj, -⟩ := hreached
      refine ⟨h.created, h.exited, h.joined, ?_, Nat.zero_le _, by simp⟩
      intro w
      simp [hj]
  | @creates t hp =>
      rw [hp] at hreached
      obtain ⟨rfl, hj, hfailed⟩ := hreached
      refine ⟨fun w => ?_, fun w i hw => ?_, fun w hw => ?_, ?_⟩
      · show Function.update s.threads s.created (some .ready) w ≠ none ↔ w < s.created + 1
        by_cases hw : w = s.created
        · subst hw
          simp
        · rw [Function.update_of_ne hw, h.created w]
          omega
      · simp only [Pool.setWorker, Function.update_apply] at hw
        split at hw
        · cases hw
        · exact h.exited w i hw
      · have : s.joined w = true := hw
        rw [hj] at this
        cases this
      · show Parent.Reached _ (if _ then _ else _)
        split
        · exact ⟨rfl, hj, hfailed⟩
        · refine ⟨fun w => ?_, Nat.zero_le _, fun _ => Nat.succ_pos _⟩
          show s.joined w = true ↔ w < 0
          simp [hj]
  | @joins t i hp hlt hw hj =>
      rw [hp] at hreached
      obtain ⟨hjoined, -, hpos⟩ := hreached
      refine ⟨h.created, h.exited, fun v hv => ?_, fun v => ?_, hlt, hpos⟩
      · by_cases hvt : v = t
        · exact ⟨i, hvt ▸ hw⟩
        · simp only [Function.update_of_ne hvt] at hv
          exact h.joined v hv
      · show Function.update s.joined t true v = true ↔ v < t + 1
        by_cases hvt : v = t
        · subst hvt
          simp
        · rw [Function.update_of_ne hvt, hjoined v]
          omega
  | @joinFails t hp hlt hw =>
      -- the thread is there, and no join has taken it
      rw [hp] at hreached
      rcases hw with hw | hw
      · exact absurd hw ((h.created t).mpr hlt)
      · exact absurd ((hreached.1 t).mp hw) (Nat.lt_irrefl t)
  | @finishes t hp hlt =>
      rw [hp] at hreached
      obtain ⟨hjoined, hle, hpos⟩ := hreached
      refine ⟨h.created, h.exited, h.joined, fun w hw => (hjoined w).mpr ?_, fun hrc => ?_⟩
      · have hw' : w < s.created := hw
        omega
      · refine .inr (hpos ?_)
        by_contra hfailed
        rw [Bool.not_eq_false] at hfailed
        simp [hfailed] at hrc
  | claims hw => exact h.setWorker hw nofun rfl nofun rfl rfl rfl rfl
  | leaves hw hn =>
      refine h.setWorker hw nofun rfl (fun i hi => ?_) rfl rfl rfl rfl
      cases hi
      exact hn
  | scans hw _ _ _ => exact h.setWorker hw nofun rfl nofun rfl rfl rfl rfl
  | stores hw _ => exact h.setWorker hw nofun rfl nofun rfl rfl rfl rfl

/-! ## The cursor hands out tickets -/

/-- The index a thread has claimed and not yet done with. -/
def Worker.index : Worker n → Option ℕ
  | .ready => none
  | .claimed i => some i
  | .scanned i _ => some i
  | .exited i => some i

def Event.stored : Event R n → Option ℕ
  | .scan _ _ _ _ => none
  | .store _ i _ => some i

/-- The pool as a counter whose numbers are drawn by a claim and given back by
a store. -/
def Pool.tickets (s : Pool Target Ports Opts R n) : Tickets ℕ where
  next := s.ctx.nextIndex
  holder := fun w => (s.threads w).bind Worker.index
  returned := s.history.filterMap Event.stored

theorem holder_of_thread {w : ℕ} {k : Worker n} (h : s.threads w = some k) :
    s.tickets.holder w = k.index := by
  show (s.threads w).bind Worker.index = k.index
  rw [h]
  rfl

theorem holder_update (f : ℕ → Option (Worker n)) (w : ℕ) (k : Worker n) :
    (fun v => (Function.update f w (some k) v).bind Worker.index) =
      Function.update (fun v => (f v).bind Worker.index) w k.index := by
  funext v
  by_cases hv : v = w
  · subst hv
    simp
  · simp [Function.update_of_ne hv]

/-- A turn moves a thread that keeps its index, draws, or gives back. -/
theorem tickets_turn (hj : Joinable s) (ht : Turn hostScan s s') :
    s'.tickets = s.tickets ∨
      (∃ w, s.tickets.holder w = none ∧ s'.tickets = s.tickets.draw w) ∨
      ∃ w i, s.tickets.holder w = some i ∧ s'.tickets = s.tickets.giveBack w i := by
  have hkeep : ∀ {w : ℕ} {k : Worker n}, s.tickets.holder w = k.index →
      (fun v => (Function.update s.threads w (some k) v).bind Worker.index) =
        s.tickets.holder := by
    intro w k hk
    rw [holder_update, ← hk]
    exact Function.update_eq_self w s.tickets.holder
  cases ht with
  | createFails _ => exact .inl rfl
  | @creates t hp =>
      have hreached := hj.reached
      rw [hp] at hreached
      have hnew : s.threads t = none := by
        have := mt (hj.created t).mp (by rw [hreached.1]; exact Nat.lt_irrefl _)
        simpa using this
      refine .inl ?_
      show (⟨_, _, _⟩ : Tickets ℕ) = ⟨_, _, _⟩
      congr 1
      refine hkeep ?_
      show (s.threads t).bind Worker.index = none
      rw [hnew]
      rfl
  | joins _ _ _ _ => exact .inl rfl
  | joinFails _ _ _ => exact .inl rfl
  | finishes _ _ => exact .inl rfl
  | @claims w hw =>
      refine .inr (.inl ⟨w, holder_of_thread hw, ?_⟩)
      show (⟨_, _, _⟩ : Tickets ℕ) = ⟨_, _, _⟩
      congr 1
      exact holder_update _ _ _
  | leaves hw _ =>
      refine .inl ?_
      show (⟨_, _, _⟩ : Tickets ℕ) = ⟨_, _, _⟩
      congr 1
      exact hkeep ((holder_of_thread hw).trans rfl)
  | scans hw _ _ _ =>
      refine .inl ?_
      show (⟨_, _, _⟩ : Tickets ℕ) = ⟨_, _, _⟩
      congr 1
      · exact hkeep ((holder_of_thread hw).trans rfl)
      · simp [Pool.record, Pool.setWorker, Pool.setSlot, Event.stored]
  | @stores w i rc old hw _ =>
      refine .inr (.inr ⟨w, i, holder_of_thread hw, ?_⟩)
      show (⟨_, _, _⟩ : Tickets ℕ) = ⟨_, _, _⟩
      congr 1
      · exact holder_update _ _ _
      · simp [Pool.record, Pool.setWorker, Pool.setSlot, Pool.tickets, Event.stored]

theorem tickets_sound_turn (hj : Joinable s) (hs : s.tickets.Sound) (ht : Turn hostScan s s') :
    s'.tickets.Sound := by
  rcases tickets_turn hj ht with h | ⟨w, hw, h⟩ | ⟨w, i, hw, h⟩
  · rwa [h]
  · rw [h]
    exact hs.draw hw
  · rw [h]
    exact hs.giveBack hw

/-! ## The history of a slot -/

section Slots

variable (hostScan : Target → Option Ports → Option Opts → Net → R × ℤ)

/-- The scan of the target of an index can have come out so. -/
def Outcome (s : Pool Target Ports Opts R n) (i : Fin n) (result : R) (rc : ℤ) : Prop :=
  ∃ targets net, s.ctx.targets = some targets ∧
    hostScan (targets i) s.ctx.ports s.ctx.opts net = (result, rc)

/-- One thread has scanned the target of an index, once, and then stored the
return code, and the slot holds what the scan came to. -/
def ScannedOnce (s : Pool Target Ports Opts R n) (i : Fin n) : Prop :=
  ∃ w result rc, s.slotHistory i = [.scan w i result rc, .store w i rc] ∧
    s.slot i = some ⟨result, rc⟩ ∧ Outcome hostScan s i result rc

/-- Where the slot of an index stands. -/
inductive SlotStage (s : Pool Target Ports Opts R n) (i : Fin n) : Prop
  | untouched : s.slotHistory i = [] → (∀ w rc, s.threads w ≠ some (.scanned i rc)) →
      SlotStage s i
  | scanned {w : ℕ} {result : R} {rc old : ℤ} : s.threads w = some (.scanned i rc) →
      s.slotHistory i = [.scan w i result rc] → s.slot i = some ⟨result, old⟩ →
      Outcome hostScan s i result rc → SlotStage s i
  | stored : ScannedOnce hostScan s i → (∀ w rc, s.threads w ≠ some (.scanned i rc)) →
      SlotStage s i

variable {hostScan} {i j : Fin n}

/-- A turn that is about other indices leaves a slot where it stands. -/
theorem SlotStage.frame (h : SlotStage hostScan s i)
    (hhistory : s'.slotHistory i = s.slotHistory i) (hslot : s'.slot i = s.slot i)
    (hthreads : ∀ w rc, s'.threads w = some (.scanned i rc) ↔ s.threads w = some (.scanned i rc))
    (htargets : s'.ctx.targets = s.ctx.targets) (hports : s'.ctx.ports = s.ctx.ports)
    (hopts : s'.ctx.opts = s.ctx.opts) : SlotStage hostScan s' i := by
  have houtcome : ∀ {result rc}, Outcome hostScan s i result rc →
      Outcome hostScan s' i result rc := by
    rintro result rc ⟨targets, net, ht, ho⟩
    exact ⟨targets, net, htargets.trans ht, by rw [hports, hopts]; exact ho⟩
  cases h with
  | untouched hh hno =>
      exact .untouched (hhistory.trans hh) fun w rc hw => hno w rc ((hthreads w rc).mp hw)
  | scanned hw hh hs ho =>
      exact .scanned ((hthreads _ _).mpr hw) (hhistory.trans hh) (hslot.trans hs) (houtcome ho)
  | stored h hno =>
      obtain ⟨w, result, rc, hh, hs, ho⟩ := h
      exact .stored ⟨w, result, rc, hhistory.trans hh, hslot.trans hs, houtcome ho⟩
        fun w rc hw => hno w rc ((hthreads w rc).mp hw)

/-- A thread moves between places that are not behind the scan of this index. -/
theorem scanned_update {w : ℕ} {k : Worker n} (hw : ∀ rc, s.threads w ≠ some (.scanned i rc))
    (hk : ∀ rc, k ≠ .scanned i rc) (v : ℕ) (rc : ℤ) :
    Function.update s.threads w (some k) v = some (.scanned i rc) ↔
      s.threads v = some (.scanned i rc) := by
  by_cases hv : v = w
  · subst hv
    rw [Function.update_self, Option.some.injEq]
    exact iff_of_false (hk rc) (hw rc)
  · rw [Function.update_of_ne hv]

theorem slotHistory_record (e : Event R n) (h : e.index = i) :
    (s.record e).slotHistory i = s.slotHistory i ++ [e] := by
  simp [Pool.slotHistory, Pool.record, h]

theorem slotHistory_record_of_ne (e : Event R n) (h : e.index ≠ i) :
    (s.record e).slotHistory i = s.slotHistory i := by
  simp [Pool.slotHistory, Pool.record, h]

theorem slot_setSlot (r : WorkerResult R) :
    (s.setSlot i r).slot i = (s.slot i).map fun _ => r := by
  simp [Pool.slot, Pool.setSlot, Option.map_map, Function.comp_def]

theorem slot_setSlot_of_ne (r : WorkerResult R) (h : i ≠ j) :
    (s.setSlot j r).slot i = s.slot i := by
  simp [Pool.slot, Pool.setSlot, Option.map_map, Function.comp_def, Function.update_of_ne h]

/-- Two threads do not work on one index. -/
theorem thread_of_index (hs : s.tickets.Sound) {w v : ℕ} {k l : Worker n}
    (hw : s.threads w = some k) (hv : s.threads v = some l) {m : ℕ} (hk : k.index = some m)
    (hl : l.index = some m) : w = v :=
  hs.held_once w v m ((holder_of_thread hw).trans hk) ((holder_of_thread hv).trans hl)

/-- A stored index is held by no thread. -/
theorem not_stored_of_thread (hs : s.tickets.Sound) {w : ℕ} {k : Worker n}
    (hw : s.threads w = some k) (hk : k.index = some i.val) : ¬ ScannedOnce hostScan s i := by
  rintro ⟨v, result, rc, hh, -, -⟩
  have hmem : Event.store v i rc ∈ s.history := by
    have : Event.store v i rc ∈ s.slotHistory i := by simp [hh]
    exact List.mem_of_mem_filter this
  have hret : i.val ∈ s.tickets.returned := List.mem_filterMap.mpr ⟨_, hmem, rfl⟩
  exact hs.returned_free _ hret w ((holder_of_thread hw).trans hk)

theorem SlotStage.turn (h : SlotStage hostScan s i) (hj : Joinable s) (hs : s.tickets.Sound)
    (ht : Turn hostScan s s') : SlotStage hostScan s' i := by
  cases ht with
  | createFails _ => exact h.frame rfl rfl (fun _ _ => Iff.rfl) rfl rfl rfl
  | @creates t hp =>
      have hreached := hj.reached
      rw [hp] at hreached
      have hnew : ∀ rc, s.threads t ≠ some (.scanned i rc) := by
        intro rc hw
        have := (hj.created t).mp (by rw [hw]; exact Option.some_ne_none _)
        rw [hreached.1] at this
        exact Nat.lt_irrefl _ this
      exact h.frame rfl rfl (scanned_update hnew nofun) rfl rfl rfl
  | joins _ _ _ _ => exact h.frame rfl rfl (fun _ _ => Iff.rfl) rfl rfl rfl
  | joinFails _ _ _ => exact h.frame rfl rfl (fun _ _ => Iff.rfl) rfl rfl rfl
  | finishes _ _ => exact h.frame rfl rfl (fun _ _ => Iff.rfl) rfl rfl rfl
  | claims hw =>
      exact h.frame rfl rfl (scanned_update (by simp [hw]) nofun) rfl rfl rfl
  | leaves hw _ =>
      exact h.frame rfl rfl (scanned_update (by simp [hw]) nofun) rfl rfl rfl
  | @scans w j targets old net result rc hw htargets hold ho =>
      by_cases hij : i = j
      · subst hij
        cases h with
        | untouched hh hno =>
            have hhist : (s.record (.scan w i result rc)).slotHistory i =
                [.scan w i result rc] := by
              have := slotHistory_record (s := s) (i := i) (.scan w i result rc) rfl
              rwa [hh, List.nil_append] at this
            have hslot : (s.setSlot i { old with result }).slot i = some { old with result } := by
              rw [slot_setSlot, hold, Option.map_some]
            exact .scanned (w := w) (Function.update_self ..) hhist hslot
              ⟨targets, net, htargets, ho⟩
        | @scanned v _ _ _ hv _ _ _ =>
            obtain rfl := thread_of_index hs hw hv rfl rfl
            rw [hw] at hv
            cases hv
        | stored hstored _ => exact absurd hstored (not_stored_of_thread hs hw rfl)
      · have hno : ∀ rc', s.threads w ≠ some (.scanned i rc') := by simp [hw]
        have hk : ∀ rc', Worker.scanned j rc ≠ .scanned i rc' := by
          rintro rc' hk
          cases hk
          exact hij rfl
        have hne : (Event.scan w j result rc).index ≠ i := fun hji => hij hji.symm
        exact h.frame (slotHistory_record_of_ne (s := s) _ hne)
          (slot_setSlot_of_ne (s := s) _ hij) (scanned_update hno hk) rfl rfl rfl
  | @stores w j rc old hw hold =>
      by_cases hij : i = j
      · subst hij
        cases h with
        | untouched _ hno => exact absurd hw (hno w rc)
        | @scanned v result rc' old' hv hh hsl ho =>
            obtain rfl := thread_of_index hs hw hv rfl rfl
            rw [hw] at hv
            cases hv
            rw [hsl] at hold
            cases hold
            have hhist : (s.record (.store w i rc)).slotHistory i =
                [.scan w i result rc, .store w i rc] := by
              have := slotHistory_record (s := s) (i := i) (.store w i rc) rfl
              rwa [hh] at this
            have hslot : (s.setSlot i ⟨result, rc⟩).slot i = some ⟨result, rc⟩ := by
              rw [slot_setSlot, hsl, Option.map_some]
            refine .stored ⟨w, result, rc, hhist, hslot, ho⟩ fun v rc' hv => ?_
            -- no other thread came back from a scan of this index
            have hv' : Function.update s.threads w (some .ready) v = some (.scanned i rc') := hv
            by_cases hvw : v = w
            · subst hvw
              rw [Function.update_self] at hv'
              cases hv'
            · rw [Function.update_of_ne hvw] at hv'
              exact hvw (thread_of_index hs hv' hw rfl rfl)
        | stored _ hno => exact absurd hw (hno w rc)
      · have hno : ∀ rc', s.threads w ≠ some (.scanned i rc') := by
          intro rc' hk
          rw [hw] at hk
          cases hk
          exact hij rfl
        have hne : (Event.store (R := R) w j rc).index ≠ i := fun hji => hij hji.symm
        exact h.frame (slotHistory_record_of_ne (s := s) _ hne)
          (slot_setSlot_of_ne (s := s) _ hij) (scanned_update hno nofun) rfl rfl rfl

end Slots

/-! ## Whole runs -/

structure PoolInv (hostScan : Target → Option Ports → Option Opts → Net → R × ℤ)
    (s : Pool Target Ports Opts R n) : Prop where
  joinable : Joinable s
  tickets : s.tickets.Sound
  slots : ∀ i, SlotStage hostScan s i

theorem PoolInv.turn (h : PoolInv hostScan s) (ht : Turn hostScan s s') : PoolInv hostScan s' where
  joinable := h.joinable.turn ht
  tickets := tickets_sound_turn h.joinable h.tickets ht
  slots i := (h.slots i).turn h.joinable h.tickets ht

theorem poolInv_start (targets : Option (Fin n → Target)) (ports : Option Ports)
    (opts : Option Opts) (maxWorkers : ℤ) (outResults : Option (Fin n → WorkerResult R))
    (calloc : Bool) :
    PoolInv hostScan (workerPoolRun targets ports opts maxWorkers outResults calloc) where
  joinable := joinable_start targets ports opts maxWorkers outResults calloc
  tickets := Tickets.sound_start
  slots _ := .untouched rfl nofun

/-- A pool that has returned, and had a thread to begin with, has scanned every
target. -/
theorem PoolInv.scanned_of_returned (h : PoolInv hostScan s) {rc : ℤ}
    (hret : s.parent = .returned rc) (hpos : 0 < s.created) (i : Fin n) :
    ScannedOnce hostScan s i := by
  have hreached := h.joinable.reached
  rw [hret] at hreached
  have hexited : ∀ w k, s.threads w = some k → ∃ j, k = .exited j ∧ n ≤ j := by
    intro w k hw
    have hlt := (h.joinable.created w).mp (by rw [hw]; exact Option.some_ne_none _)
    obtain ⟨j, hj⟩ := h.joinable.joined w (hreached.1 w hlt)
    rw [hw, Option.some.injEq] at hj
    exact ⟨j, hj, h.joinable.exited w j (hw.trans (congrArg some hj))⟩
  -- the first thread left with an index that the cursor had handed out
  obtain ⟨k, hk⟩ := Option.ne_none_iff_exists'.mp ((h.joinable.created 0).mpr hpos)
  obtain ⟨j, rfl, hnj⟩ := hexited 0 k hk
  have hnext : i.val < s.tickets.next := by
    have := h.tickets.held_lt 0 j (holder_of_thread hk)
    omega
  rcases h.tickets.covered i.val hnext with hreturned | ⟨w, hw⟩
  · obtain ⟨e, he, hei⟩ := List.mem_filterMap.mp hreturned
    cases e with
    | scan v l result rc' => cases hei
    | store v l rc' =>
        simp only [Event.stored, Option.some.injEq] at hei
        obtain rfl := Fin.ext hei
        have hmem : Event.store v l rc' ∈ s.slotHistory l :=
          List.mem_filter.mpr ⟨he, by simp [Event.index]⟩
        cases h.slots l with
        | untouched hh _ => simp [hh] at hmem
        | scanned _ hh _ _ => simp [hh] at hmem
        | stored hstored _ => exact hstored
  · -- a thread that has left holds no index below the count
    obtain ⟨k, hk, hki⟩ := Option.bind_eq_some_iff.mp hw
    obtain ⟨l, rfl, hnl⟩ := hexited w k hk
    simp only [Worker.index, Option.some.injEq] at hki
    omega

/-- In whatever order the threads take their turns, and wherever the creation of
threads stops: if one was started, every target has been scanned by one thread
and its slot written once when the pool returns, and the pool reports success
only then. -/
theorem workerPool_exactly_once {targets : Option (Fin n → Target)} {ports : Option Ports}
    {opts : Option Opts} {maxWorkers : ℤ} {outResults : Option (Fin n → WorkerResult R)}
    {calloc : Bool} {actions : List (Action Net)} {s : Pool Target Ports Opts R n} {rc : ℤ}
    (hrun : Steps (fun a s t => poolStep hostScan a s = some t) actions
      (workerPoolRun targets ports opts maxWorkers outResults calloc) s)
    (hret : s.parent = .returned rc) :
    (0 < s.created → ∀ i, ScannedOnce hostScan s i) ∧
      (rc = 0 → ∀ i, ScannedOnce hostScan s i) := by
  have h : PoolInv hostScan s :=
    hrun.invariant (fun _ _ _ _ hstep hs => hs.turn (poolStep_turn hstep))
      (poolInv_start targets ports opts maxWorkers outResults calloc)
  refine ⟨fun hpos => h.scanned_of_returned hret hpos, fun hrc i => ?_⟩
  have hreached := h.joinable.reached
  rw [hret] at hreached
  rcases hreached.2 hrc with hn | hpos
  · exact absurd i.isLt (by omega)
  · exact h.scanned_of_returned hret hpos i

/-- Two targets, and a second thread that cannot be created: the first thread
scans both. -/
theorem workerPool_exactly_once_alone :
    ∃ s : Pool Bool Unit Unit Bool 2, s.parent = .returned (-1) ∧
      ∀ i, ScannedOnce (fun target _ _ (net : Bool) => (target && net, 0)) s i := by
  have hrun : ∃ s : Pool Bool Unit Unit Bool 2, s.parent = .returned (-1) ∧ 0 < s.created ∧
      Steps (fun a s t => poolStep (fun target _ _ (net : Bool) => (target && net, 0)) a s = some t)
        [.create 0, .create 11, .claim 0, .hostScan 0 true, .store 0, .claim 0, .hostScan 0 false,
          .store 0, .claim 0, .leave 0, .join, .finish]
        (workerPoolRun (some fun i => i.val = 0) (some ()) none 64 (some fun _ => ⟨false, 0⟩) true)
        s := by
    refine ⟨_, ?_, ?_, .cons rfl (.cons rfl (.cons rfl (.cons rfl (.cons rfl (.cons rfl (.cons rfl
      (.cons rfl (.cons rfl (.cons rfl (.cons rfl (.cons rfl (.nil _))))))))))))⟩
    · rfl
    · decide
  obtain ⟨s, hret, hpos, hrun⟩ := hrun
  exact ⟨s, hret, (workerPool_exactly_once hrun hret).1 hpos⟩

end Cytadel.Core
