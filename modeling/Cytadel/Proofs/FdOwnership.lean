import Cytadel.Lib.Steps
import Cytadel.Plugin.Invoke

/-!
# Who closes a descriptor owns it

A descriptor that `open_sock_tcp` got belongs to the call: to its userdata, and
to the slot of the tracker if it was registered. While both are there they
agree, as the close of the socket empties the slot first; the userdata are gone
before the tracker is swept. So whichever path closes a number, the number is
still the call's own, and in the end every slot has been emptied by one close.
-/

namespace Cytadel.Plugin

open Lib

variable {s s' : Invocation} {k l : ℕ} {fd : ℤ} {idx : Option ℕ}

/-! ## What a call owns -/

/-- What a slot of the tracker says of a call's descriptor. -/
def Registered (s : Invocation) (k : ℕ) (fd : ℤ) : Option ℕ → Prop
  | none => k ∉ s.registered
  | some i => s.registered[i]? = some k ∧ s.tracker.fds[i]? = some fd

/-- The descriptor is open, and the call's own. -/
structure Held (s : Invocation) (k : ℕ) (fd : ℤ) (idx : Option ℕ) : Prop where
  nonneg : 0 ≤ fd
  holder : s.kernel.holder fd = some (.lease k)
  registered : Registered s k fd idx

def OpenCall.Ok (s : Invocation) (k : ℕ) : OpenCall → Prop
  | .connecting fd => Held s k fd none
  | .tracked fd idx => Held s k fd idx
  | .userdata sock => sock.fd < 0 ∨ Held s k sock.fd sock.trackIdx

/-- A slot has an open descriptor of its call, or is empty after one close. -/
def SlotOk (s : Invocation) (k : ℕ) (fd : ℤ) : Prop :=
  0 ≤ fd ∧ s.kernel.holder fd = some (.lease k) ∨ fd = -1 ∧ s.kernel.timesClosed k = 1

structure Own (s : Invocation) (k : ℕ) : Prop where
  call : ∀ c, s.call k = some c → c.Ok s k
  slot : ∀ (i : ℕ) fd, s.registered[i]? = some k → s.tracker.fds[i]? = some fd → SlotOk s k fd

/-- What a step of one call leaves to another. -/
structure Apart (s s' : Invocation) (l : ℕ) : Prop where
  call : s'.call l = s.call l ∨ s'.call l = none
  holder : ∀ fd, s'.kernel.holder fd = some (.lease l) ↔ s.kernel.holder fd = some (.lease l)
  times : s'.kernel.timesClosed l = s.kernel.timesClosed l
  registered : ∀ i : ℕ, s'.registered[i]? = some l ↔ s.registered[i]? = some l
  fds : ∀ i : ℕ, s.registered[i]? = some l → s'.tracker.fds[i]? = s.tracker.fds[i]?

theorem Apart.mem_registered (h : Apart s s' l) : l ∈ s'.registered ↔ l ∈ s.registered := by
  rw [List.mem_iff_getElem?, List.mem_iff_getElem?]
  exact exists_congr h.registered

theorem Apart.held (h : Apart s s' l) (hh : Held s l fd idx) : Held s' l fd idx where
  nonneg := hh.nonneg
  holder := (h.holder fd).mpr hh.holder
  registered := by
    have hreg := hh.registered
    cases idx with
    | none => exact mt h.mem_registered.mp hreg
    | some i => exact ⟨(h.registered i).mpr hreg.1, (h.fds i hreg.1).trans hreg.2⟩

theorem Apart.own (h : Apart s s' l) (ho : Own s l) : Own s' l where
  call c hc := by
    rcases h.call with hcall | hcall
    · have hok := ho.call c (hcall ▸ hc)
      cases c with
      | connecting fd => exact h.held hok
      | tracked fd idx => exact h.held hok
      | userdata sock => exact hok.imp_right h.held
    · rw [hcall] at hc
      cases hc
  slot i fd hi hfd := by
    rw [h.registered i] at hi
    rw [h.fds i hi] at hfd
    rcases ho.slot i fd hi hfd with ⟨h0, hholder⟩ | ⟨hfd', htimes⟩
    · exact .inl ⟨h0, (h.holder fd).mpr hholder⟩
    · exact .inr ⟨hfd', h.times.trans htimes⟩

/-! ## The invariant -/

/-- The tracker has a slot for every registered call. -/
def Table (s : Invocation) : Prop :=
  s.tracker.freed = false ∧ s.tracker.count = s.registered.length ∧
    s.tracker.fds.length = s.registered.length

/-- What the end of the invocation has got at. -/
def Phase.Reached (s : Invocation) : Phase → Prop
  | .running => Table s
  | .closing => Table s
  | .sweeping i => Table s ∧ (∀ k, s.call k = none) ∧
      ∀ j < i, ∀ fd, s.tracker.fds[j]? = some fd → fd = -1
  | .ended => (∀ k, s.call k = none) ∧ ∀ k ∈ s.registered, s.kernel.timesClosed k = 1

/-- A call that has not happened yet. -/
structure Fresh (s : Invocation) (k : ℕ) : Prop where
  call : s.call k = none
  registered : k ∉ s.registered
  times : s.kernel.timesClosed k = 0
  holder : ∀ fd, s.kernel.holder fd ≠ some (.lease k)

/-- A close was for the descriptor of the call that its issuer stands for. -/
def ByOwner (s : Invocation) (c : Close ℤ ℕ Issuer) : Prop :=
  ∃ k, s.owned c.issuer = some k ∧ c.holder = some (.lease k)

structure Owned (s : Invocation) : Prop where
  sound : s.kernel.Sound
  nodup : s.registered.Nodup
  fresh : ∀ k, s.calls ≤ k → Fresh s k
  own : ∀ k, Own s k
  closes : ∀ c ∈ s.kernel.closes, ByOwner s c
  reached : s.phase.Reached s

theorem owned_invokeOne (others : ℤ → Bool) : Owned (invokeOne others) := by
  have hholder : ∀ fd k, (invokeOne others).kernel.holder fd ≠ some (.lease k) := by
    intro fd k h
    simp only [invokeOne] at h
    split at h
    · cases h
    · cases h
  refine ⟨⟨fun hm _ => absurd hm (hholder _ _), fun hm => absurd hm (hholder _ _)⟩,
    List.nodup_nil, fun k _ => ⟨rfl, List.not_mem_nil, rfl, fun fd => hholder fd k⟩,
    fun k => ⟨nofun, nofun⟩, nofun, rfl, rfl, rfl⟩

theorem Apart.fresh (h : Apart s s' l) (hf : Fresh s l) : Fresh s' l where
  call := h.call.elim (fun hc => hc.trans hf.call) id
  registered := mt h.mem_registered.mp hf.registered
  times := h.times.trans hf.times
  holder fd hfd := hf.holder fd ((h.holder fd).mp hfd)

theorem ByOwner.mono (hgrow : s.registered <+: s'.registered) {c : Close ℤ ℕ Issuer}
    (h : ByOwner s c) : ByOwner s' c := by
  obtain ⟨k, hk, hc⟩ := h
  refine ⟨k, ?_, hc⟩
  cases hi : c.issuer with
  | call j => rwa [hi] at hk
  | socket j => rwa [hi] at hk
  | slot i =>
      rw [hi] at hk
      obtain ⟨t, ht⟩ := hgrow
      show s'.registered[i]? = some k
      rw [← ht, List.getElem?_append_left (List.getElem?_eq_some_iff.mp hk).1]
      exact hk

/-- A step of one call, or of nobody here. -/
theorem Owned.step_of (h : Owned s) (hcalls : s.calls ≤ s'.calls) (hk : k < s'.calls)
    (hsound : s'.kernel.Sound) (hnodup : s'.registered.Nodup)
    (hapart : ∀ l, l ≠ k → Apart s s' l) (hown : Own s' k)
    (hgrow : s.registered <+: s'.registered)
    (hcloses : ∀ c ∈ s'.kernel.closes, c ∈ s.kernel.closes ∨ ByOwner s' c)
    (hreached : s'.phase.Reached s') : Owned s' where
  sound := hsound
  nodup := hnodup
  fresh l hl := (hapart l (by omega)).fresh (h.fresh l (by omega))
  own l := by
    by_cases hl : l = k
    · exact hl ▸ hown
    · exact (hapart l hl).own (h.own l)
  closes c hc := (hcloses c hc).elim (fun hc => (h.closes c hc).mono hgrow) id
  reached := hreached

theorem Owned.quiet (h : Owned s) (hcalls : s'.calls = s.calls) (hsound : s'.kernel.Sound)
    (hapart : ∀ l, Apart s s' l) (hregistered : s'.registered = s.registered)
    (hcloses : s'.kernel.closes = s.kernel.closes) (hreached : s'.phase.Reached s') :
    Owned s' where
  sound := hsound
  nodup := hregistered ▸ h.nodup
  fresh l hl := (hapart l).fresh (h.fresh l (hcalls ▸ hl))
  own l := (hapart l).own (h.own l)
  closes c hc := (h.closes c (hcloses ▸ hc)).mono (hregistered ▸ List.prefix_rfl)
  reached := hreached

theorem Phase.Reached.congr {p : Phase} (h : p.Reached s) (htracker : s'.tracker = s.tracker)
    (hregistered : s'.registered = s.registered) (hcall : s'.call = s.call)
    (htimes : ∀ k, s'.kernel.timesClosed k = s.kernel.timesClosed k) : p.Reached s' := by
  cases p <;>
    simpa only [Phase.Reached, Table, htracker, hregistered, hcall, htimes] using h

/-- While a call is under way or has a userdata, Lua code runs. -/
theorem Owned.live_of_call (h : Owned s) {c : OpenCall} (hc : s.call k = some c) :
    s.phase.live = true ∧ Table s ∧ k < s.calls := by
  have hlt : k < s.calls := by
    by_contra hge
    rw [(h.fresh k (by omega)).call] at hc
    cases hc
  have hreached := h.reached
  cases hp : s.phase with
  | running =>
      rw [hp] at hreached
      exact ⟨rfl, hreached, hlt⟩
  | closing =>
      rw [hp] at hreached
      exact ⟨rfl, hreached, hlt⟩
  | sweeping i =>
      rw [hp] at hreached
      rw [hreached.2.1 k] at hc
      cases hc
  | ended =>
      rw [hp] at hreached
      rw [hreached.1 k] at hc
      cases hc

theorem Table.reached (h : Table s) {p : Phase} (hp : p.live = true) : p.Reached s := by
  cases p with
  | running => exact h
  | closing => exact h
  | sweeping i => cases hp
  | ended => cases hp

/-! ## The others -/

theorem Owned.othersOpen (h : Owned s) (hfd : s.kernel.holder fd = none) :
    Owned { s with kernel := s.kernel.give fd .outside } := by
  refine h.quiet rfl h.sound.outside (fun l => ?_) rfl rfl
    (h.reached.congr rfl rfl rfl fun _ => rfl)
  exact ⟨.inl rfl, fun m => Leases.holder_update_iff (by simp [hfd]) (by simp), rfl,
    fun _ => Iff.rfl, fun _ _ => rfl⟩

theorem Owned.othersClose (h : Owned s) (hfd : s.kernel.holder fd = some .outside) :
    Owned { s with kernel := s.kernel.release fd } := by
  refine h.quiet rfl h.sound.release (fun l => ?_) rfl rfl
    (h.reached.congr rfl rfl rfl fun _ => rfl)
  exact ⟨.inl rfl, fun m => Leases.holder_update_iff (by simp [hfd]) (by simp), rfl,
    fun _ => Iff.rfl, fun _ _ => rfl⟩

/-! ## The calls -/

theorem setCall_self (c : Option OpenCall) : (s.setCall k c).call k = c := Function.update_self ..

theorem setCall_of_ne (c : Option OpenCall) (hl : l ≠ k) : (s.setCall k c).call l = s.call l :=
  Function.update_of_ne hl ..

theorem Owned.socket (h : Owned s) (hlive : s.phase.live = true) (h0 : 0 ≤ fd)
    (hfd : s.kernel.holder fd = none) :
    Owned { s.setCall s.calls (some (.connecting fd)) with
      kernel := s.kernel.give fd (.lease s.calls)
      calls := s.calls + 1 } := by
  have hnew := h.fresh s.calls (Nat.le_refl _)
  have htable : Table s := by
    have hreached := h.reached
    cases hp : s.phase <;> rw [hp] at hreached hlive
    · exact hreached
    · exact hreached
    · cases hlive
    · cases hlive
  refine h.step_of (k := s.calls) (Nat.le_succ _) (Nat.lt_succ_self _)
    (h.sound.give hnew.holder hnew.times) h.nodup (fun l hl => ?_) ?_ List.prefix_rfl
    (fun c hc => .inl hc) (Table.reached (by exact htable) hlive)
  · refine ⟨.inl (setCall_of_ne _ hl), fun m => ?_, rfl, fun _ => Iff.rfl, fun _ _ => rfl⟩
    exact Leases.holder_update_iff (by simp [hfd]) (by simpa using Ne.symm hl)
  · refine ⟨fun c hc => ?_, fun i n hi _ => ?_⟩
    · have hc' : (s.setCall s.calls (some (.connecting fd))).call s.calls = some c := hc
      rw [setCall_self, Option.some.injEq] at hc'
      subst hc'
      exact ⟨h0, Function.update_self .., hnew.registered⟩
    · exact absurd (List.mem_of_getElem? hi) hnew.registered

/-- A close of a descriptor by one call is nothing to the others. -/
theorem apart_close {issuer : Issuer} (hfd : s.kernel.holder fd = some (.lease k)) (hl : l ≠ k)
    (hkernel : s'.kernel = s.kernel.close issuer fd) (hcall : s'.call l = s.call l)
    (hregistered : s'.registered = s.registered)
    (hfds : ∀ i : ℕ, s.registered[i]? = some l → s'.tracker.fds[i]? = s.tracker.fds[i]?) :
    Apart s s' l where
  call := .inl hcall
  holder m := by
    rw [hkernel]
    refine Leases.holder_update_iff ?_ (by simp)
    rw [hfd]
    simpa using Ne.symm hl
  times := by
    rw [hkernel]
    exact Leases.timesClosed_close_of_ne hfd hl
  registered _ := by rw [hregistered]
  fds := hfds

/-- The new close is the owner's. -/
theorem closes_close {issuer : Issuer} (hfd : s.kernel.holder fd = some (.lease k))
    (howned : s'.owned issuer = some k) (hkernel : s'.kernel = s.kernel.close issuer fd) :
    ∀ c ∈ s'.kernel.closes, c ∈ s.kernel.closes ∨ ByOwner s' c := by
  intro c hc
  rw [hkernel] at hc
  rcases List.mem_append.mp hc with hc | hc
  · exact .inl hc
  · rw [List.mem_singleton] at hc
    subst hc
    exact .inr ⟨k, howned, hfd⟩

theorem Owned.connectFails (h : Owned s) (hc : s.call k = some (.connecting fd)) :
    Owned ((s.setCall k none).close (.call k) (some fd)) := by
  obtain ⟨hlive, htable, hk⟩ := h.live_of_call hc
  have hheld : Held s k fd none := (h.own k).call _ hc
  refine h.step_of (k := k) (Nat.le_refl _) hk h.sound.close h.nodup
    (fun l hl => apart_close hheld.holder hl rfl (setCall_of_ne none hl) rfl fun _ _ => rfl) ?_
    List.prefix_rfl (closes_close hheld.holder rfl rfl) (Table.reached (by exact htable) hlive)
  refine ⟨fun c hc' => ?_, fun i n hi _ => ?_⟩
  · have hnone : (s.setCall k none).call k = some c := hc'
    rw [setCall_self] at hnone
    cases hnone
  · exact absurd (List.mem_of_getElem? hi) hheld.registered

theorem Owned.newUserdata (h : Owned s) (hc : s.call k = some (.tracked fd idx))
    (raised : Bool) :
    Owned (s.setCall k (if raised then none else some (.userdata ⟨fd, idx⟩))) := by
  obtain ⟨hlive, htable, hk⟩ := h.live_of_call hc
  have hheld : Held s k fd idx := (h.own k).call _ hc
  refine h.step_of (k := k) (Nat.le_refl _) hk h.sound h.nodup
    (fun l hl => ⟨.inl (setCall_of_ne _ hl), fun _ => Iff.rfl, rfl, fun _ => Iff.rfl,
      fun _ _ => rfl⟩) ⟨fun c hc' => ?_, (h.own k).slot⟩ List.prefix_rfl (fun c hc => .inl hc)
    (Table.reached (by exact htable) hlive)
  rw [setCall_self] at hc'
  cases raised with
  | true => cases hc'
  | false =>
      cases hc'
      exact .inr ⟨hheld.nonneg, hheld.holder, hheld.registered⟩

theorem FdTracker.add_cases (t : FdTracker) (fd : ℤ) (grown : Bool) :
    t.add fd grown = (t, none) ∨ ∃ capacity,
      t.add fd grown =
        ({ t with fds := t.fds ++ [fd], count := t.count + 1, capacity }, some t.count) := by
  rw [add]
  split
  · exact .inl rfl
  · exact .inr ⟨_, rfl⟩

/-- No room in the tracker: the descriptor is the userdata's alone. -/
theorem Owned.untracked (h : Owned s) (hc : s.call k = some (.connecting fd)) :
    Owned (s.setCall k (some (.tracked fd none))) := by
  obtain ⟨hlive, htable, hk⟩ := h.live_of_call hc
  have hheld : Held s k fd none := (h.own k).call _ hc
  refine h.step_of (k := k) (Nat.le_refl _) hk h.sound h.nodup
    (fun l hl => ⟨.inl (setCall_of_ne _ hl), fun _ => Iff.rfl, rfl, fun _ => Iff.rfl,
      fun _ _ => rfl⟩) ⟨fun c hc' => ?_, (h.own k).slot⟩ List.prefix_rfl (fun c hc => .inl hc)
    (Table.reached (by exact htable) hlive)
  rw [setCall_self] at hc'
  cases hc'
  exact ⟨hheld.nonneg, hheld.holder, hheld.registered⟩

theorem getElem?_concat_iff {α : Type} {xs : List α} {x y : α} {i : ℕ} :
    (xs ++ [x])[i]? = some y ↔ xs[i]? = some y ∨ i = xs.length ∧ x = y := by
  rcases Nat.lt_trichotomy i xs.length with hi | rfl | hi
  · rw [List.getElem?_append_left hi]
    have hne : i ≠ xs.length := by omega
    simp [hne]
  · simp
  · have hnone : xs[i]? = none := List.getElem?_eq_none_iff.mpr (by omega)
    have hnone' : (xs ++ [x])[i]? = none := List.getElem?_eq_none_iff.mpr (by simp; omega)
    have hne : i ≠ xs.length := by omega
    simp [hnone, hnone', hne]

/-- The descriptor goes into a slot of its own. -/
theorem Owned.tracked (h : Owned s) (hc : s.call k = some (.connecting fd)) (capacity : ℕ) :
    Owned { s.setCall k (some (.tracked fd (some s.tracker.count))) with
      tracker := { s.tracker with
        fds := s.tracker.fds ++ [fd], count := s.tracker.count + 1, capacity }
      registered := s.registered ++ [k] } := by
  obtain ⟨hlive, ⟨hfreed, hcount, hlength⟩, hk⟩ := h.live_of_call hc
  have hheld : Held s k fd none := (h.own k).call _ hc
  have hnodup : (s.registered ++ [k]).Nodup := by
    refine List.nodup_append.mpr ⟨h.nodup, List.pairwise_singleton _ _, ?_⟩
    rintro a ha b hb rfl
    exact hheld.registered (List.mem_singleton.mp hb ▸ ha)
  refine h.step_of (k := k) (Nat.le_refl _) hk h.sound hnodup (fun l hl => ?_) ?_
    (List.prefix_append _ _) (fun c hc => .inl hc)
    (Table.reached (by exact ⟨hfreed, by simp [hcount], by simp [hlength]⟩) hlive)
  · refine ⟨.inl (setCall_of_ne _ hl), fun _ => Iff.rfl, rfl, fun i => ?_, fun i hi => ?_⟩
    · show (s.registered ++ [k])[i]? = some l ↔ _
      rw [getElem?_concat_iff]
      exact or_iff_left fun hi => hl hi.2.symm
    · have hlt := (List.getElem?_eq_some_iff.mp hi).1
      exact List.getElem?_append_left (by omega)
  · refine ⟨fun c hc' => ?_, fun i n hi hn => ?_⟩
    · have hc'' : (s.setCall k (some (.tracked fd (some s.tracker.count)))).call k = some c := hc'
      rw [setCall_self] at hc''
      cases hc''
      exact ⟨hheld.nonneg, hheld.holder, getElem?_concat_iff.mpr (.inr ⟨hcount, rfl⟩),
        getElem?_concat_iff.mpr (.inr ⟨hcount.trans hlength.symm, rfl⟩)⟩
    · -- the call had no slot before
      obtain ⟨rfl, -⟩ := (getElem?_concat_iff.mp hi).resolve_left fun hi =>
        hheld.registered (List.mem_of_getElem? hi)
      rcases getElem?_concat_iff.mp hn with hn | ⟨-, rfl⟩
      · have := (List.getElem?_eq_some_iff.mp hn).1
        omega
      · exact .inl ⟨hheld.nonneg, hheld.holder⟩

theorem Owned.track (h : Owned s) (hc : s.call k = some (.connecting fd)) (grown : Bool) :
    Owned { s.setCall k (some (.tracked fd (s.tracker.add fd grown).2)) with
      tracker := (s.tracker.add fd grown).1
      registered := s.registered ++ (s.tracker.add fd grown).2.toList.map fun _ => k } := by
  rcases s.tracker.add_cases fd grown with hadd | ⟨capacity, hadd⟩ <;> rw [hadd]
  · have hsame : s.registered ++ (none : Option ℕ).toList.map (fun _ => k) = s.registered := by
      simp
    simp only [hsame]
    exact h.untracked hc
  · exact h.tracked hc capacity

/-! ## The close of a socket -/

/-- A socket whose descriptor is held is closed for real, and its slot, if it
has one, is emptied first. -/
theorem socketClose_held (htable : Table s) {sock : Socket}
    (hheld : Held s k sock.fd sock.trackIdx) :
    socketClose s.tracker sock =
      (s.tracker.markClosed sock.trackIdx, { sock with fd := -1 }, some sock.fd) := by
  obtain ⟨hfreed, hcount, hlength⟩ := htable
  have h0 : ¬ sock.fd < 0 := by
    have := hheld.nonneg
    omega
  have hreg := hheld.registered
  rw [socketClose, if_neg h0]
  cases hidx : sock.trackIdx with
  | none => simp [FdTracker.isTracked, FdTracker.markClosed]
  | some i =>
      rw [hidx] at hreg
      have hlt := (List.getElem?_eq_some_iff.mp hreg.1).1
      have htracked : s.tracker.isTracked (some i) = true := by
        simp [FdTracker.isTracked, hcount, hlt]
      have hopen : s.tracker.isClosed (some i) = false := by
        have hlt' : ¬ i ≥ s.tracker.count := by omega
        simp [FdTracker.isClosed, hlt', hfreed, hreg.2, hheld.nonneg]
      simp [htracked, hopen]

/-- The tracker with a slot emptied. -/
structure Emptied (s : Invocation) (k : ℕ) (t : FdTracker) : Prop where
  other : ∀ l, l ≠ k → ∀ i : ℕ, s.registered[i]? = some l → t.fds[i]? = s.tracker.fds[i]?
  self : ∀ (i : ℕ) n, s.registered[i]? = some k → t.fds[i]? = some n → n = -1
  table : t.freed = false ∧ t.count = s.registered.length ∧ t.fds.length = s.registered.length

/-- The slot is the only one of its call. -/
theorem emptied_set (h : Owned s) (htable : Table s) {i : ℕ} (hi : s.registered[i]? = some k) :
    Emptied s k { s.tracker with fds := s.tracker.fds.set i (-1) } where
  other l hl j hj := by
    have hij : i ≠ j := by
      rintro rfl
      rw [hi, Option.some.injEq] at hj
      exact hl hj.symm
    exact List.getElem?_set_ne hij
  self j n hj hn := by
    have hlt := (List.getElem?_eq_some_iff.mp hi).1
    obtain rfl := (List.getElem?_inj hlt h.nodup).mp (hi.trans hj.symm)
    obtain ⟨hset, hn⟩ := List.getElem?_eq_some_iff.mp hn
    rw [List.getElem_set_self] at hn
    exact hn.symm
  table := ⟨htable.1, htable.2.1, by simp [htable.2.2]⟩

theorem emptied_markClosed (h : Owned s) (htable : Table s) (hheld : Held s k fd idx) :
    Emptied s k (s.tracker.markClosed idx) := by
  have hreg := hheld.registered
  cases idx with
  | none =>
      exact ⟨fun _ _ _ _ => rfl, fun i _ hi _ => absurd (List.mem_of_getElem? hi) hreg, htable⟩
  | some i =>
      have hlt := (List.getElem?_eq_some_iff.mp hreg.1).1
      have hlt' : ¬ i ≥ s.tracker.count := by
        have := htable.2.1
        omega
      have hmark : s.tracker.markClosed (some i) =
          { s.tracker with fds := s.tracker.fds.set i (-1) } := by
        simp [FdTracker.markClosed, htable.1, hlt']
      rw [hmark]
      exact emptied_set h htable hreg.1

theorem Owned.closeSock (h : Owned s) {sock : Socket} (hc : s.call k = some (.userdata sock)) :
    Owned ({ s.setCall k (some (.userdata (socketClose s.tracker sock).2.1)) with
      tracker := (socketClose s.tracker sock).1 }.close (.socket k)
        (socketClose s.tracker sock).2.2) := by
  obtain ⟨hlive, htable, hk⟩ := h.live_of_call hc
  rcases (h.own k).call _ hc with hclosed | hheld
  · -- closed before: nothing happens
    rw [socketClose, if_pos hclosed]
    refine h.step_of (k := k) (Nat.le_refl _) hk h.sound h.nodup
      (fun l hl => ⟨.inl (setCall_of_ne _ hl), fun _ => Iff.rfl, rfl, fun _ => Iff.rfl,
        fun _ _ => rfl⟩) ⟨fun c hc' => ?_, (h.own k).slot⟩ List.prefix_rfl (fun c hc => .inl hc)
      (Table.reached (by exact htable) hlive)
    have hc'' : (s.setCall k (some (.userdata sock))).call k = some c := hc'
    rw [setCall_self] at hc''
    cases hc''
    exact .inl hclosed
  · rw [socketClose_held htable hheld]
    have hemptied := emptied_markClosed h htable hheld
    refine h.step_of (k := k) (Nat.le_refl _) hk h.sound.close h.nodup
      (fun l hl => apart_close hheld.holder hl rfl (setCall_of_ne _ hl) rfl (hemptied.other l hl))
      ⟨fun c hc' => ?_, fun i n hi hn => ?_⟩ List.prefix_rfl (closes_close hheld.holder rfl rfl)
      (Table.reached (by exact hemptied.table) hlive)
    · have hc'' : (s.setCall k (some (.userdata { sock with fd := -1 }))).call k = some c := hc'
      rw [setCall_self] at hc''
      cases hc''
      exact .inl (show (-1 : ℤ) < 0 by decide)
    · exact .inr ⟨hemptied.self i n hi hn, h.sound.timesClosed_close_self hheld.holder⟩

/-! ## The end of the invocation -/

theorem Owned.luaClose (h : Owned s) (hp : s.phase = .running) :
    Owned { s with phase := .closing } := by
  have hreached := h.reached
  rw [hp] at hreached
  exact h.quiet rfl h.sound (fun l => ⟨.inl rfl, fun _ => Iff.rfl, rfl, fun _ => Iff.rfl,
    fun _ _ => rfl⟩) rfl rfl hreached

theorem Owned.stateClosed (h : Owned s) (hp : s.phase = .closing) :
    Owned { s with call := fun _ => none, phase := .sweeping 0 } := by
  have hreached := h.reached
  rw [hp] at hreached
  refine h.quiet rfl h.sound (fun l => ⟨.inr rfl, fun _ => Iff.rfl, rfl, fun _ => Iff.rfl,
    fun _ _ => rfl⟩) rfl rfl ⟨hreached, fun _ => rfl, ?_⟩
  intro j hj
  exact absurd hj (Nat.not_lt_zero j)

/-- One slot of the sweep: it is empty, or its descriptor is closed. -/
theorem Owned.forceClose (h : Owned s) {i : ℕ} (hp : s.phase = .sweeping i)
    (hi : i < s.tracker.count) :
    Owned ({ s with tracker := (s.tracker.forceClose i).1, phase := .sweeping (i + 1) }.close
      (.slot i) (s.tracker.forceClose i).2) := by
  have hreached := h.reached
  rw [hp] at hreached
  obtain ⟨htable, hcalls, hswept⟩ := hreached
  have hlt : i < s.registered.length := by
    have := htable.2.1
    omega
  have hlt' : i < s.tracker.fds.length := by
    have := htable.2.2
    omega
  have hk : s.registered[i]? = some s.registered[i] := List.getElem?_eq_getElem hlt
  have hfd : s.tracker.fds[i]? = some s.tracker.fds[i] := List.getElem?_eq_getElem hlt'
  generalize s.registered[i] = k at hk
  generalize s.tracker.fds[i] = fd at hfd
  rw [FdTracker.forceClose, List.getD_eq_getElem?_getD, hfd, Option.getD_some]
  rcases (h.own k).slot i fd hk hfd with ⟨h0, hholder⟩ | ⟨rfl, -⟩
  · have hemptied := emptied_set h htable hk
    have hcall : k < s.calls := by
      by_contra hge
      exact (h.fresh k (by omega)).holder fd hholder
    rw [if_pos h0]
    refine h.step_of (k := k) (Nat.le_refl _) hcall h.sound.close h.nodup
      (fun l hl => apart_close hholder hl rfl rfl rfl (hemptied.other l hl))
      ⟨fun c hc => ?_, fun j n hj hn => ?_⟩ List.prefix_rfl
      (closes_close hholder (by exact hk) rfl)
      ⟨hemptied.table, hcalls, fun j hj n hn => ?_⟩
    · exact absurd ((hcalls k).symm.trans hc) nofun
    · exact .inr ⟨hemptied.self j n hj hn, h.sound.timesClosed_close_self hholder⟩
    · by_cases hji : j = i
      · subst hji
        exact hemptied.self j n hk hn
      · have hne : i ≠ j := fun hij => hji hij.symm
        refine hswept j (by omega) n ?_
        rw [← hn]
        exact (List.getElem?_set_ne hne).symm
  · rw [if_neg (by decide)]
    refine h.quiet rfl h.sound (fun l => ⟨.inl rfl, fun _ => Iff.rfl, rfl, fun _ => Iff.rfl,
      fun _ _ => rfl⟩) rfl rfl ⟨htable, hcalls, fun j hj n hn => ?_⟩
    by_cases hji : j = i
    · subst hji
      exact Option.some.inj (hn.symm.trans hfd)
    · exact hswept j (by omega) n hn

theorem Owned.free (h : Owned s) {i : ℕ} (hp : s.phase = .sweeping i)
    (hi : ¬ (i < s.tracker.count ∧ s.tracker.freed = false)) :
    Owned { s with tracker := s.tracker.free, phase := .ended } := by
  have hreached := h.reached
  rw [hp] at hreached
  obtain ⟨htable, hcalls, hswept⟩ := hreached
  obtain ⟨hfreed, hcount, hlength⟩ := htable
  have hend : s.registered.length ≤ i := by
    by_contra hlt
    exact hi ⟨by omega, hfreed⟩
  -- every slot is behind the sweep, so every slot is empty
  have htimes : ∀ k ∈ s.registered, s.kernel.timesClosed k = 1 := by
    intro k hk
    obtain ⟨j, hj⟩ := List.mem_iff_getElem?.mp hk
    have hlt := (List.getElem?_eq_some_iff.mp hj).1
    have hfd : s.tracker.fds[j]? = some s.tracker.fds[j] :=
      List.getElem?_eq_getElem (by omega)
    have hempty := hswept j (by omega) _ hfd
    rcases (h.own k).slot j _ hj hfd with ⟨h0, -⟩ | ⟨-, htimes⟩
    · omega
    · exact htimes
  exact
    { sound := h.sound
      nodup := h.nodup
      fresh := fun k hk => ⟨(h.fresh k hk).call, (h.fresh k hk).registered, (h.fresh k hk).times,
        (h.fresh k hk).holder⟩
      own := fun k => ⟨fun c hc => absurd ((hcalls k).symm.trans hc) nofun, nofun⟩
      closes := h.closes
      reached := ⟨hcalls, htimes⟩ }

/-! ## Whole invocations -/

theorem Owned.step (h : Owned s) {a : Action} (hs : invokeStep a s = some s') : Owned s' := by
  cases a with
  | othersOpen fd =>
      simp only [invokeStep] at hs
      split at hs
      · next hfd =>
          cases hs
          exact h.othersOpen hfd
      · cases hs
  | othersClose fd =>
      simp only [invokeStep] at hs
      split at hs
      · next hfd =>
          cases hs
          exact h.othersClose hfd
      · cases hs
  | socket fd =>
      simp only [invokeStep] at hs
      split at hs
      · next hguard =>
          cases hs
          simp only [Bool.and_eq_true, decide_eq_true_eq] at hguard
          exact h.socket hguard.1.1 hguard.1.2 hguard.2
      · cases hs
  | connectFails k =>
      simp only [invokeStep] at hs
      split at hs
      · next fd hc =>
          cases hs
          exact h.connectFails hc
      · cases hs
  | track k grown =>
      simp only [invokeStep] at hs
      split at hs
      · next fd hc =>
          cases hs
          exact h.track hc grown
      · cases hs
  | newUserdata k raised =>
      simp only [invokeStep] at hs
      split at hs
      · next fd idx hc =>
          cases hs
          exact h.newUserdata hc raised
      · cases hs
  | closeSock k =>
      simp only [invokeStep] at hs
      split at hs
      · next sock hc =>
          cases hs
          exact h.closeSock hc
      · cases hs
  | luaClose =>
      simp only [invokeStep] at hs
      split at hs
      · next hp =>
          cases hs
          exact h.luaClose hp
      · cases hs
  | stateClosed =>
      simp only [invokeStep] at hs
      split at hs
      · next hguard =>
          cases hs
          exact h.stateClosed hguard.1
      · cases hs
  | forceClose =>
      simp only [invokeStep] at hs
      split at hs
      · next i hp =>
          split at hs
          · next hi =>
              cases hs
              exact h.forceClose hp hi.1
          · cases hs
      · cases hs
  | free =>
      simp only [invokeStep] at hs
      split at hs
      · next i hp =>
          split at hs
          · cases hs
          · next hi =>
              cases hs
              exact h.free hp hi
      · cases hs

/-- Whatever the order of the opens, the closes, the finalisers and the sweep,
and whatever the other threads do with the numbers in between: a close is only
issued on a number that is the issuer's own, and when the invocation has ended
every registered descriptor has been closed once. -/
theorem invoke_closes_owned {others : ℤ → Bool} {actions : List Action} {s : Invocation}
    (hrun : Steps (fun a s t => invokeStep a s = some t) actions (invokeOne others) s) :
    (∀ c ∈ s.kernel.closes, ByOwner s c) ∧
      (s.phase = .ended → ∀ k ∈ s.registered, s.kernel.timesClosed k = 1) := by
  have h : Owned s :=
    hrun.invariant (fun _ _ _ _ hstep hs => hs.step hstep) (owned_invokeOne others)
  refine ⟨h.closes, fun hp => ?_⟩
  have hreached := h.reached
  rw [hp] at hreached
  exact hreached.2

/-- Two sockets; the first is closed twice, and its number goes to the second,
which has no userdata and is left to the sweep. -/
theorem invoke_closes_owned_reused :
    ∃ s : Invocation, s.phase = .ended ∧ s.registered = [0, 1] ∧
      s.kernel.closes.map (fun c => (c.issuer, c.number)) = [(.socket 0, 3), (.slot 1, 3)] ∧
      (∀ c ∈ s.kernel.closes, ByOwner s c) ∧ ∀ k ∈ s.registered, s.kernel.timesClosed k = 1 := by
  have hrun : ∃ s : Invocation, s.phase = .ended ∧ s.registered = [0, 1] ∧
      s.kernel.closes.map (fun c => (c.issuer, c.number)) = [(.socket 0, 3), (.slot 1, 3)] ∧
      Steps (fun a s t => invokeStep a s = some t)
        [.socket 3, .track 0 true, .newUserdata 0 false, .closeSock 0, .socket 3, .track 1 true,
          .closeSock 0, .newUserdata 1 true, .luaClose, .closeSock 0, .stateClosed, .forceClose,
          .forceClose, .free]
        (invokeOne fun fd => fd = 0) s := by
    refine ⟨_, ?_, ?_, ?_, .cons rfl (.cons rfl (.cons rfl (.cons rfl (.cons rfl (.cons rfl
      (.cons rfl (.cons rfl (.cons rfl (.cons rfl (.cons rfl (.cons rfl (.cons rfl (.cons rfl
        (.nil _))))))))))))))⟩
    · rfl
    · rfl
    · rfl
  obtain ⟨s, hended, hregistered, hcloses, hrun⟩ := hrun
  obtain ⟨howner, honce⟩ := invoke_closes_owned hrun
  exact ⟨s, hended, hregistered, hcloses, howner, honce hended⟩

end Cytadel.Plugin
