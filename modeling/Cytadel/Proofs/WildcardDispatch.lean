import Mathlib.Data.List.Pairwise
import Cytadel.Net.Target
import Cytadel.Plugin.Scheduler
import Cytadel.Proofs.KbMap

/-!
# One dispatch for each port of a service

A key names a port by its digits, and different digits may spell one port. The
scheduler collects one port for each key and sorts them: a port that two keys
spell is dispatched twice. Where no two keys do that, a plugin is considered
exactly once for each port, in ascending order.
-/

namespace Cytadel.Plugin

open Cytadel Kb Net Lib

/-! ## What a dispatch should be -/

/-- The key names this port of the service. -/
structure ServiceKey (svc : Bytes) (p : ℕ) (key digits : Bytes) : Prop where
  key : key = servicesPrefix ++ svc ++ slash :: digits
  nonempty : digits ≠ []
  onlyDigits : ∀ c ∈ digits, isDigitByte c = true
  value : digitsValue digits = p
  pos : 1 ≤ p
  le : p ≤ 65535

/-- The knowledge base has a key that names this port. -/
def ServicePort (svc : Bytes) (kb : Kb) (p : ℕ) : Prop :=
  ∃ key digits, key ∈ kb.foreach.map Prod.fst ∧ ServiceKey svc p key digits

/-- No port of the service is spelled by two keys. -/
def OneSpelling (svc : Bytes) (kb : Kb) : Prop :=
  ∀ p key key' digits digits', key ∈ kb.foreach.map Prod.fst → key' ∈ kb.foreach.map Prod.fst →
    ServiceKey svc p key digits → ServiceKey svc p key' digits' → key = key'

/-- All required keys but the wildcard are there. -/
def GatesMet (keys : List Bytes) (wildcardIndex : ℕ) (kb : Kb) : Prop :=
  ∀ i key, keys[i]? = some key → i ≠ wildcardIndex → ∃ value, kb.get (some key) = .found value

/-- The ports are considered one after the other: with the gates met there is
an invocation, else a skip. -/
inductive Considered (keys : List Bytes) (wildcardIndex : ℕ) (invocations : Invocations) :
    Kb → List ℕ → List PluginResult → Kb → Prop
  | done {kb : Kb} : Considered keys wildcardIndex invocations kb [] [] kb
  | skip {kb last : Kb} {p : ℕ} {ports : List ℕ} {results : List PluginResult} :
      ¬ GatesMet keys wildcardIndex kb →
      Considered keys wildcardIndex invocations kb ports results last →
      Considered keys wildcardIndex invocations kb (p :: ports) ((p, .skipped) :: results) last
  | invoke {kb last : Kb} {p : ℕ} {ports : List ℕ} {results : List PluginResult} :
      GatesMet keys wildcardIndex kb →
      Considered keys wildcardIndex invocations (invocations.invokeOne kb p).2 ports results last →
      Considered keys wildcardIndex invocations kb (p :: ports)
        ((p, (invocations.invokeOne kb p).1) :: results) last

/-- The plugin is considered once for each port of the service, in ascending
order, and reported as skipped once if there is none. -/
def DispatchedOnce (svc : Bytes) (keys : List Bytes) (wildcardIndex : ℕ)
    (invocations : Invocations) (kb : Kb) (run : List PluginResult × Kb) : Prop :=
  ∃ ports : List ℕ, ports.Pairwise (· < ·) ∧ (∀ p, p ∈ ports ↔ ServicePort svc kb p) ∧
    (ports = [] → run = ([(-1, .skipped)], kb)) ∧
    (ports ≠ [] → Considered keys wildcardIndex invocations kb ports run.1 run.2)

/-- The knowledge bases that the engine's own writes and the plugins' calls of
`set_kb_item` lead to. -/
inductive KbReached (lua : LuaConversions) : Kb → Prop
  | create : KbReached lua kbCreate
  | probe {kb : Kb} (op : KbOp) (a : Allocs) : KbReached lua kb → KbReached lua (kb.step op a).2
  | plugin {kb : Kb} (a : Allocs) (key value : LuaValue) : KbReached lua kb →
      KbReached lua (setKbItem lua kb a key value).2

/-! ## The keys of a knowledge base -/

theorem setKbItem_step (lua : LuaConversions) (kb : Kb) (a : Allocs) (key value : LuaValue) :
    (setKbItem lua kb a key value).2 = kb ∨
      ∃ op, (setKbItem lua kb a key value).2 = (kb.step op a).2 := by
  rw [setKbItem]
  split
  · exact .inl rfl
  · next key hkey =>
      split
      · exact .inl rfl
      · next op hop =>
          refine .inr ⟨op, ?_⟩
          split
          · next h => rw [h]
          · next h => rw [h]

theorem KbReached.inv {lua : LuaConversions} {kb : Kb} (h : KbReached lua kb) :
    ∃ hist, KbInv kb (lastSet hist) := by
  induction h with
  | create => exact ⟨[], kbCreate_inv⟩
  | probe op a _ ih =>
      obtain ⟨hist, hinv⟩ := ih
      exact ⟨_, step_inv hinv op a⟩
  | plugin a key value _ ih =>
      obtain ⟨hist, hinv⟩ := ih
      rcases setKbItem_step lua _ a key value with hkb | ⟨op, hkb⟩
      · rw [hkb]
        exact ⟨hist, hinv⟩
      · rw [hkb]
        exact ⟨_, step_inv hinv op a⟩

/-- No key is visited twice. -/
theorem KbReached.keys_nodup {lua : LuaConversions} {kb : Kb} (h : KbReached lua kb) :
    (kb.foreach.map Prod.fst).Nodup := by
  obtain ⟨hist, hinv⟩ := h.inv
  exact hinv.hashed.nodup

/-! ## The port of a key -/

theorem portDigits_eq_some {digits : Bytes} {v p : ℕ} (hv : v ≤ 65535) :
    portDigits digits v = some p ↔ (∀ c ∈ digits, isDigitByte c = true) ∧
      digits.foldl (fun v c => 10 * v + (c.toNat - 0x30)) v = p ∧ p ≤ 65535 := by
  have hgrow : ∀ (ds : Bytes) (v : ℕ), v ≤ ds.foldl (fun v c => 10 * v + (c.toNat - 0x30)) v := by
    intro ds
    induction ds with
    | nil => exact fun v => Nat.le_refl v
    | cons c cs ih =>
        intro v
        rw [List.foldl_cons]
        exact Nat.le_trans (by omega) (ih _)
  induction digits generalizing v with
  | nil =>
      rw [portDigits, List.foldl_nil, Option.some.injEq]
      constructor
      · intro h
        exact ⟨fun c hc => (nomatch hc), h, h ▸ hv⟩
      · exact fun h => h.2.1
  | cons c cs ih =>
      have hdigit : (c < 0x30 || c > 0x39) = true ↔ ¬ isDigitByte c = true := by
        rw [isDigitByte, Bool.and_eq_true, decide_eq_true_iff, decide_eq_true_iff, not_and_or,
          UInt8.not_le, UInt8.not_le, Bool.or_eq_true, decide_eq_true_iff, decide_eq_true_iff]
      rw [portDigits, List.forall_mem_cons, List.foldl_cons, Nat.mul_comm 10 v]
      split
      · next hbad =>
          refine ⟨fun h => (nomatch h), fun h => ?_⟩
          exact absurd h.1.1 (hdigit.mp hbad)
      · next hgood =>
          have hc : isDigitByte c = true := by
            by_contra hc
            exact hgood (hdigit.mpr hc)
          simp only
          split
          · next hlarge =>
              refine ⟨fun h => (nomatch h), fun h => ?_⟩
              have hle := hgrow cs (v * 10 + (c.toNat - 0x30))
              omega
          · next hsmall =>
              have hnext := @ih (v * 10 + (c.toNat - 0x30)) (Nat.not_lt.mp hsmall)
              refine hnext.trans ?_
              simp only [hc, true_and]

/-- A key under a prefix. -/
theorem underPrefix_iff {front key : Bytes} (hlen : front.length < key.length) :
    key.take front.length = front ∧ key[front.length]? = some slash ↔
      key = front ++ slash :: key.drop (front.length + 1) := by
  have hhead := List.getElem?_eq_getElem hlen
  constructor
  · intro h
    obtain ⟨hfront, hslash⟩ := h
    conv_lhs => rw [← List.take_append_drop front.length key]
    rw [hfront, List.drop_eq_getElem_cons hlen]
    rw [hhead, Option.some.injEq] at hslash
    rw [hslash]
  · intro h
    rw [h]
    constructor
    · exact List.take_left
    · rw [List.getElem?_append_right (Nat.le_refl _), Nat.sub_self]
      rfl

/-- The key parts at the slash behind the service. -/
theorem collectPort_eq {svc digits : Bytes} :
    collectPort svc (servicesPrefix ++ svc ++ slash :: digits) =
      if digits.isEmpty || digits.contains slash then none
      else
        match portDigits digits 0 with
        | none => none
        | some port => if port < 1 then none else some port := by
  have hlen : (servicesPrefix ++ svc ++ slash :: digits).length =
      servicesPrefix.length + svc.length + 1 + digits.length := by
    rw [List.length_append, List.length_append, List.length_cons]
    omega
  have hfront : (servicesPrefix ++ svc).length = servicesPrefix.length + svc.length :=
    List.length_append
  have htake : (servicesPrefix ++ svc ++ slash :: digits).take servicesPrefix.length =
      servicesPrefix := by
    rw [List.append_assoc, List.take_left]
  have hsvc : ((servicesPrefix ++ svc ++ slash :: digits).drop servicesPrefix.length).take
      svc.length = svc := by
    rw [List.append_assoc, List.drop_left, List.take_left]
  have hslash : (servicesPrefix ++ svc ++ slash :: digits)[servicesPrefix.length + svc.length]? =
      some slash := by
    rw [← hfront, List.getElem?_append_right (Nat.le_refl _), Nat.sub_self]
    rfl
  have hdrop : (servicesPrefix ++ svc ++ slash :: digits).drop
      (servicesPrefix.length + svc.length + 1) = digits := by
    rw [← hfront, ← List.drop_drop, List.drop_left]
    rfl
  rw [collectPort, hlen, htake, hsvc, hslash, hdrop]
  cases digits with
  | nil => exact if_pos (Nat.le_refl _)
  | cons c cs =>
      refine (if_neg (by rw [List.length_cons]; omega)).trans ?_
      refine (if_neg (by simp)).trans ?_
      refine (if_neg (by simp)).trans ?_
      exact if_neg (by simp)

theorem collectPort_split {svc key : Bytes} {p : ℕ} (h : collectPort svc key = some p) :
    ∃ digits, key = servicesPrefix ++ svc ++ slash :: digits := by
  rw [collectPort] at h
  split at h
  · cases h
  next hlen =>
  split at h
  · cases h
  next hprefix =>
  split at h
  · cases h
  next hsvc =>
  split at h
  · cases h
  next hslash =>
  rw [bne_iff_ne, not_not] at hprefix hsvc hslash
  have hfront : key.take (servicesPrefix ++ svc).length = servicesPrefix ++ svc := by
    rw [List.length_append, List.take_add, hprefix, hsvc]
  rw [← List.length_append] at hlen hslash
  exact ⟨_, (underPrefix_iff (by omega)).mp ⟨hfront, hslash⟩⟩

theorem collectPort_eq_some {svc key : Bytes} {p : ℕ} :
    collectPort svc key = some p ↔ ∃ digits, ServiceKey svc p key digits := by
  have hslash : isDigitByte slash = false := by decide
  constructor
  · intro h
    obtain ⟨digits, rfl⟩ := collectPort_split h
    rw [collectPort_eq] at h
    split at h
    · cases h
    next hdigits =>
    split at h
    · cases h
    next port hport =>
    split at h
    · cases h
    next hpos =>
    injection h with h
    subst h
    rw [Bool.or_eq_true, not_or, List.isEmpty_iff] at hdigits
    obtain ⟨honly, hvalue, hle⟩ := (portDigits_eq_some (Nat.zero_le _)).mp hport
    exact ⟨digits, rfl, hdigits.1, honly, hvalue, Nat.not_lt.mp hpos, hle⟩
  · intro h
    obtain ⟨digits, h⟩ := h
    have hport : portDigits digits 0 = some p :=
      (portDigits_eq_some (Nat.zero_le _)).mpr ⟨h.onlyDigits, h.value, h.le⟩
    have hfree : slash ∉ digits := by
      intro hmem
      have hdigit := h.onlyDigits _ hmem
      rw [hslash] at hdigit
      cases hdigit
    rw [h.key, collectPort_eq, if_neg, hport]
    · exact if_neg (Nat.not_lt.mpr h.pos)
    · rw [Bool.or_eq_true, not_or, List.isEmpty_iff, List.contains_iff_mem]
      exact ⟨h.nonempty, hfree⟩

/-! ## The collected ports -/

/-- `collect.ports`. -/
def collectedPorts (svc : Bytes) (kb : Kb) : List ℕ :=
  kb.foreach.filterMap fun e => collectPort svc e.1

section

variable {svc : Bytes} {kb : Kb}

theorem mem_collectedPorts {p : ℕ} : p ∈ collectedPorts svc kb ↔ ServicePort svc kb p := by
  rw [collectedPorts, List.mem_filterMap]
  constructor
  · intro h
    obtain ⟨e, he, hport⟩ := h
    obtain ⟨digits, hkey⟩ := collectPort_eq_some.mp hport
    exact ⟨e.1, digits, List.mem_map_of_mem he, hkey⟩
  · intro h
    obtain ⟨key, digits, hmem, hkey⟩ := h
    obtain ⟨e, he, rfl⟩ := List.mem_map.mp hmem
    exact ⟨e, he, collectPort_eq_some.mpr ⟨digits, hkey⟩⟩

/-- Every key gives at most one port, so a port comes twice when two keys spell it. -/
theorem collectedPorts_nodup_iff (hkeys : (kb.foreach.map Prod.fst).Nodup) :
    (collectedPorts svc kb).Nodup ↔ OneSpelling svc kb := by
  have hpairs : kb.foreach.Pairwise fun e e' => e.1 ≠ e'.1 := List.pairwise_map.mp hkeys
  rw [collectedPorts, List.Nodup, List.pairwise_filterMap]
  constructor
  · intro h p key key' digits digits' hmem hmem' hkey hkey'
    obtain ⟨e, he, rfl⟩ := List.mem_map.mp hmem
    obtain ⟨e', he', rfl⟩ := List.mem_map.mp hmem'
    by_contra hne
    have hsymm : Std.Symm fun e e' : Bytes × KbValue => ∀ b, collectPort svc e.1 = some b →
        ∀ b', collectPort svc e'.1 = some b' → b ≠ b' :=
      ⟨fun e e' h b hb b' hb' => (h b' hb' b hb).symm⟩
    have hapart := h.forall he he' (fun heq => hne (congrArg Prod.fst heq))
    exact hapart p (collectPort_eq_some.mpr ⟨digits, hkey⟩) p
      (collectPort_eq_some.mpr ⟨digits', hkey'⟩) rfl
  · intro h
    refine hpairs.imp_of_mem fun {e e'} he he' hne p hp p' hp' heq => ?_
    subst heq
    obtain ⟨digits, hkey⟩ := collectPort_eq_some.mp hp
    obtain ⟨digits', hkey'⟩ := collectPort_eq_some.mp hp'
    exact hne (h p _ _ _ _ (List.mem_map_of_mem he) (List.mem_map_of_mem he') hkey hkey')

end

/-! ## The loop -/

section

variable {keys : List Bytes} {wildcardIndex : ℕ} {invocations : Invocations}

theorem exactKeyPresent_iff {kb : Kb} {key : Bytes} :
    exactKeyPresent kb key = true ↔ ∃ value, kb.get (some key) = .found value := by
  rw [exactKeyPresent]
  cases kb.get (some key) with
  | found value => exact iff_of_true rfl ⟨value, rfl⟩
  | notFound => exact iff_of_false Bool.false_ne_true fun ⟨_, h⟩ => (nomatch h)
  | invalidKey => exact iff_of_false Bool.false_ne_true fun ⟨_, h⟩ => (nomatch h)

theorem extraGatesFrom_iff {kb : Kb} {i : ℕ} :
    extraGatesFrom kb (some wildcardIndex) i keys = true ↔
      ∀ j key, keys[j]? = some key → i + j ≠ wildcardIndex →
        ∃ value, kb.get (some key) = .found value := by
  induction keys generalizing i with
  | nil =>
      rw [extraGatesFrom]
      exact iff_of_true rfl fun j key h => (nomatch h)
  | cons key keys ih =>
      have hsplit : (∀ j k, (key :: keys)[j]? = some k → i + j ≠ wildcardIndex →
          ∃ value, kb.get (some k) = .found value) ↔
            (i ≠ wildcardIndex → ∃ value, kb.get (some key) = .found value) ∧
              ∀ j k, keys[j]? = some k → i + 1 + j ≠ wildcardIndex →
                ∃ value, kb.get (some k) = .found value := by
        constructor
        · intro h
          refine ⟨h 0 key rfl, fun j k hk hne => h (j + 1) k hk ?_⟩
          omega
        · intro h j k hk hne
          cases j with
          | zero =>
              rw [List.getElem?_cons_zero, Option.some.injEq] at hk
              rw [← hk]
              exact h.1 hne
          | succ j => exact h.2 j k hk (by omega)
      rw [hsplit, ← ih, extraGatesFrom, ← exactKeyPresent_iff]
      by_cases hi : i = wildcardIndex
      · rw [if_pos (congrArg some hi)]
        exact ⟨fun h => ⟨fun hne => absurd hi hne, h⟩, fun h => h.2⟩
      · rw [if_neg fun h => hi (Option.some.inj h)]
        cases exactKeyPresent kb key with
        | true => exact ⟨fun h => ⟨fun _ => rfl, h⟩, fun h => h.2⟩
        | false =>
            exact iff_of_false Bool.false_ne_true fun h => Bool.false_ne_true (h.1 hi)

theorem extraGatesSatisfied_iff {kb : Kb} :
    extraGatesSatisfied keys kb (some wildcardIndex) = true ↔ GatesMet keys wildcardIndex kb := by
  rw [extraGatesSatisfied, extraGatesFrom_iff]
  simp only [Nat.zero_add]
  rfl

/-- The loop considers its ports one after the other. -/
theorem dispatchPorts_considered (ports : List ℕ) (kb : Kb) :
    Considered keys wildcardIndex invocations kb ports
      (dispatchPorts keys wildcardIndex invocations ports kb).1
      (dispatchPorts keys wildcardIndex invocations ports kb).2 := by
  induction ports generalizing kb with
  | nil => exact .done
  | cons port ports ih =>
      rw [dispatchPorts]
      cases hgates : extraGatesSatisfied keys kb (some wildcardIndex) with
      | false =>
          refine .skip (fun hmet => ?_) (ih kb)
          rw [extraGatesSatisfied_iff.mpr hmet] at hgates
          cases hgates
      | true => exact .invoke (extraGatesSatisfied_iff.mp hgates) (ih _)

/-- One report for each port that is considered. -/
theorem Considered.ports {kb last : Kb} {ports : List ℕ} {results : List PluginResult}
    (h : Considered keys wildcardIndex invocations kb ports results last) :
    results.map Prod.fst = ports.map fun p : ℕ => (p : ℤ) := by
  induction h with
  | done => rfl
  | skip _ _ ih => rw [List.map_cons, List.map_cons, ih]
  | invoke _ _ ih => rw [List.map_cons, List.map_cons, ih]

/-- A plugin whose service is `svc` is dispatched as it should be exactly when
no port is collected twice. -/
theorem runWildcardPlugin_iff {svc key : Bytes} {kb : Kb} (hkey : keys[wildcardIndex]? = some key)
    (hsvc : wildcardService key = svc) :
    DispatchedOnce svc keys wildcardIndex invocations kb
        (runWildcardPlugin keys wildcardIndex invocations kb) ↔
      (collectedPorts svc kb).Nodup := by
  have hperm := List.perm_insertionSort (· ≤ ·) (collectedPorts svc kb)
  have hrun : runWildcardPlugin keys wildcardIndex invocations kb =
      if (collectedPorts svc kb).isEmpty then ([(-1, .skipped)], kb)
      else dispatchPorts keys wildcardIndex invocations
        ((collectedPorts svc kb).insertionSort (· ≤ ·)) kb := by
    rw [runWildcardPlugin, hkey, Option.getD_some, hsvc]
    rfl
  rw [hrun]
  constructor
  · intro h
    obtain ⟨ports, hasc, hports, -, hmany⟩ := h
    by_cases hnone : collectedPorts svc kb = []
    · rw [hnone]
      exact List.nodup_nil
    obtain ⟨p, hp⟩ := List.exists_mem_of_ne_nil _ hnone
    have hne : ports ≠ [] := List.ne_nil_of_mem ((hports p).mpr (mem_collectedPorts.mp hp))
    have hresults := (hmany hne).ports
    rw [if_neg (by rw [List.isEmpty_iff]; exact hnone), (dispatchPorts_considered _ kb).ports]
      at hresults
    have hsame : (collectedPorts svc kb).insertionSort (· ≤ ·) = ports :=
      List.map_injective_iff.mpr Nat.cast_injective hresults
    rw [← hperm.nodup_iff, hsame]
    exact hasc.imp Nat.ne_of_lt
  · intro hnodup
    have hsorted := List.pairwise_insertionSort (· ≤ ·) (collectedPorts svc kb)
    refine ⟨(collectedPorts svc kb).insertionSort (· ≤ ·), ?_, fun p => ?_, fun hnil => ?_,
      fun hne => ?_⟩
    · exact (hsorted.and (hperm.nodup_iff.mpr hnodup)).imp fun h => Nat.lt_of_le_of_ne h.1 h.2
    · rw [hperm.mem_iff, mem_collectedPorts]
    · rw [hnil] at hperm
      rw [hperm.nil_eq.symm]
      rfl
    · rw [if_neg]
      · exact dispatchPorts_considered _ kb
      · intro hempty
        rw [List.isEmpty_iff] at hempty
        rw [hempty] at hne
        exact hne rfl

end

/-! ## Registration -/

theorem matchServiceWildcard_eq {key : Bytes} {svcLen : ℕ}
    (h : matchServiceWildcard key = .wildcard svcLen) :
    key = servicesPrefix ++ wildcardService key ++ ascii "/*" := by
  rw [matchServiceWildcard] at h
  split at h
  · cases h
  split at h
  · cases h
  next hprefix =>
  split at h
  · cases h
  next hends =>
  simp only [Bool.or_eq_true, decide_eq_true_iff, bne_iff_ne, not_or, not_not] at hprefix hends
  obtain ⟨-, htake⟩ := hprefix
  obtain ⟨⟨hlast, hlen⟩, hslash⟩ := hends
  have htail : key.drop (key.length - 2) = ascii "/*" := by
    have hlt : key.length - 2 < key.length := by omega
    have hlt' : key.length - 2 + 1 < key.length := by omega
    rw [List.getElem?_eq_getElem hlt, Option.some.injEq] at hslash
    rw [List.getLast?_eq_getElem?, List.getElem?_eq_getElem (by omega), Option.some.injEq] at hlast
    rw [List.drop_eq_getElem_cons hlt, List.drop_eq_getElem_cons hlt', hslash,
      List.drop_eq_nil_of_le (by omega)]
    have hidx : key[key.length - 2 + 1] = key[key.length - 1] := by
      congr 1
      omega
    rw [hidx, hlast]
    rfl
  have hmid : key.drop (servicesPrefix.length + (key.length - servicesPrefix.length - 2)) =
      key.drop (key.length - 2) := by
    congr 1
    omega
  calc key = key.take servicesPrefix.length ++ key.drop servicesPrefix.length :=
        (List.take_append_drop _ _).symm
    _ = servicesPrefix ++ (wildcardService key ++ (key.drop servicesPrefix.length).drop
          (key.length - servicesPrefix.length - 2)) := by
        rw [htake, wildcardService, List.take_append_drop]
    _ = servicesPrefix ++ wildcardService key ++ ascii "/*" := by
        rw [List.drop_drop, hmid, htail, List.append_assoc]

theorem validateRequiredKeysFrom_some {keys : List Bytes} {i w : ℕ} {r : Option ℕ}
    (h : validateRequiredKeysFrom i (some w) keys = .ok r) : r = some w := by
  induction keys generalizing i with
  | nil =>
      injection h with h
      exact h.symm
  | cons key keys ih =>
      rw [validateRequiredKeysFrom] at h
      split at h
      · cases h
      split at h
      · cases h
      · exact ih h
      · cases h

theorem validateRequiredKeysFrom_none {keys : List Bytes} {i idx : ℕ}
    (h : validateRequiredKeysFrom i none keys = .ok (some idx)) :
    ∃ j key svcLen, idx = i + j ∧ keys[j]? = some key ∧
      matchServiceWildcard key = .wildcard svcLen := by
  induction keys generalizing i with
  | nil => cases h
  | cons key keys ih =>
      rw [validateRequiredKeysFrom] at h
      split at h
      · cases h
      split at h
      · cases h
      · obtain ⟨j, k, svcLen, rfl, hj, hk⟩ := ih h
        exact ⟨j + 1, k, svcLen, by omega, hj, hk⟩
      · next svcLen hmatch =>
          injection validateRequiredKeysFrom_some h with hidx
          exact ⟨0, key, svcLen, hidx, rfl, hmatch⟩

/-- A plugin that is registered with a wildcard has it at that index. -/
theorem validateRequiredKeys_wildcard {keys : List Bytes} {idx : ℕ}
    (h : validateRequiredKeys keys = .ok (some idx)) :
    ∃ key, keys[idx]? = some key ∧ key = servicesPrefix ++ wildcardService key ++ ascii "/*" := by
  obtain ⟨j, key, svcLen, rfl, hj, hmatch⟩ := validateRequiredKeysFrom_none h
  rw [Nat.zero_add]
  exact ⟨key, hj, matchServiceWildcard_eq hmatch⟩

/-! ## Once for each port -/

/-- A plugin that is registered with `Services/<svc>/*` is considered once for
each port of the service exactly when no port is spelled by two keys. -/
theorem wildcardPlugin_once_iff {lua : LuaConversions} {kb : Kb} {keys : List Bytes} {idx : ℕ}
    (hkb : KbReached lua kb) (hvalid : validateRequiredKeys keys = .ok (some idx))
    (invocations : Invocations) :
    ∃ svc, keys[idx]? = some (servicesPrefix ++ svc ++ ascii "/*") ∧
      (DispatchedOnce svc keys idx invocations kb (runWildcardPlugin keys idx invocations kb) ↔
        OneSpelling svc kb) := by
  obtain ⟨key, hkey, heq⟩ := validateRequiredKeys_wildcard hvalid
  refine ⟨wildcardService key, by rw [hkey, ← heq], ?_⟩
  rw [runWildcardPlugin_iff hkey rfl, collectedPorts_nodup_iff hkb.keys_nodup]

/-- Conversions of a plugin that passes plain numbers. -/
def plainLua : LuaConversions :=
  { toInteger := fun
      | .number r => some r
      | _ => none
    numberText := decimal
    typeName := fun _ => ascii "nil" }

/-- A plugin that succeeds and writes nothing. -/
def quietPlugin : Invocations := ⟨plainLua, fun _ _ => [], fun _ _ => false⟩

/-- What the service probe writes for port 80. -/
def probedKb : Kb := (kbCreate.step (.setInt (some (ascii "Services/http/80")) 80) .all).2

/-- The same, and what `set_kb_item("Services/http/080", 80)` adds. -/
def twoSpellingsKb : Kb :=
  (setKbItem plainLua probedKb .all (.string (ascii "Services/http/080")) (.number 80)).2

theorem wildcardPlugin_once_iff_probed :
    ∃ svc, [ascii "Services/http/*"][0]? = some (servicesPrefix ++ svc ++ ascii "/*") ∧
      (DispatchedOnce svc [ascii "Services/http/*"] 0 quietPlugin probedKb
          (runWildcardPlugin [ascii "Services/http/*"] 0 quietPlugin probedKb) ↔
        OneSpelling svc probedKb) :=
  wildcardPlugin_once_iff (@KbReached.probe plainLua _ _ _ .create) rfl quietPlugin

/-- A port with two spellings is dispatched twice. -/
theorem wildcardPlugin_twice :
    KbReached plainLua twoSpellingsKb ∧
      validateRequiredKeys [ascii "Services/http/*"] = .ok (some 0) ∧
      (runWildcardPlugin [ascii "Services/http/*"] 0 quietPlugin twoSpellingsKb).1 =
        [(80, .ok), (80, .ok)] ∧
      ¬ DispatchedOnce (ascii "http") [ascii "Services/http/*"] 0 quietPlugin twoSpellingsKb
        (runWildcardPlugin [ascii "Services/http/*"] 0 quietPlugin twoSpellingsKb) := by
  have hrun : (runWildcardPlugin [ascii "Services/http/*"] 0 quietPlugin twoSpellingsKb).1 =
      [(80, .ok), (80, .ok)] := rfl
  refine ⟨.plugin _ _ _ (.probe _ _ .create), rfl, hrun, fun h => ?_⟩
  obtain ⟨ports, hasc, -, hnone, hmany⟩ := h
  by_cases hports : ports = []
  · have hskip := congrArg Prod.fst (hnone hports)
    rw [hrun] at hskip
    cases hskip
  · have hresults := (hmany hports).ports
    rw [hrun] at hresults
    have hsame : ports = [80, 80] :=
      List.map_injective_iff.mpr Nat.cast_injective hresults.symm
    rw [hsame] at hasc
    revert hasc
    decide

end Cytadel.Plugin
