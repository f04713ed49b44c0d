import Mathlib.Data.List.Lex
import Mathlib.Data.Prod.Lex
import Cytadel.Lib.Firsts
import Cytadel.Net.TargetList
import Cytadel.Proofs.CidrBlocks

/-!
# What a target list is expanded to

A token stands for the addresses of its block or for the one address of its
host, and the list is the tokens' addresses in order, without those that came
before. The expansion is stated on addresses; the dotted forms are equal
exactly when these are.
-/

namespace Cytadel.Net

open Cytadel Lib

/-- A target with its address as a number. -/
structure Entry where
  host : Bytes
  address : BitVec 32

def Entry.target (e : Entry) : Target := ⟨e.host, inetNtop e.address⟩

/-- An address of a block has no name but its dotted form. -/
def Entry.ofAddress (x : BitVec 32) : Entry := ⟨inetNtop x, x⟩

/-- The prefix length that the digits behind the slash denote. -/
structure PrefixLength (len : Bytes) (p : ℕ) : Prop where
  nonempty : len ≠ []
  short : len.length ≤ 2
  digits : ∀ c ∈ len, isDigitByte c = true
  value : digitsValue len = p
  le : p ≤ 32

/-- What one token stands for, with the answers of a resolver. -/
inductive TokenExpansion (resolve : Bytes → Except Bytes (List Address)) : Bytes → List Entry → Prop
  | block {tok addr len : Bytes} {a : BitVec 32} {p : ℕ} {xs : List (BitVec 32)} :
      trimSpaces tok = addr ++ 0x2F :: len → inetPton addr = some a → PrefixLength len p →
      Block a p xs → TokenExpansion resolve tok (xs.map Entry.ofAddress)
  | literal {tok : Bytes} {a : BitVec 32} :
      inetPton (trimSpaces tok) = some a → TokenExpansion resolve tok [⟨trimSpaces tok, a⟩]
  | name {tok : Bytes} {addrs : List Address} {a : BitVec 32} :
      0x2F ∉ trimSpaces tok → inetPton (trimSpaces tok) = none →
      resolve (trimSpaces tok) = .ok addrs →
      addrs.findSome? (fun | .inet a => some a | .inet6 => none) = some a →
      TokenExpansion resolve tok [⟨trimSpaces tok, a⟩]

/-! ## One token -/

theorem cidrParse_ok {errLen : ℕ} {buf : Bytes} {c : Cidr} (h : cidrParse errLen buf = .ok c) :
    ∃ addr len a p, buf = addr ++ 0x2F :: len ∧ inetPton addr = some a ∧ PrefixLength len p ∧
      c = cidrOf a p := by
  simp only [cidrParse] at h
  split at h
  · next addr len hsplit =>
      have hbuf : buf = addr ++ 0x2F :: len := by
        have hjoin : [0x2F].intercalate (buf.splitOn 0x2F) = buf := List.intercalate_splitOn 0x2F
        rw [← hjoin, hsplit]
        simp [List.intercalate, List.intersperse]
      split at h
      · cases h
      · split at h
        · cases h
        · next a ha =>
            split at h
            · cases h
            · next hlen =>
                split at h
                · cases h
                · next hdigits =>
                    split at h
                    · cases h
                    · next hvalue =>
                        cases h
                        simp only [Bool.or_eq_true, List.isEmpty_iff, decide_eq_true_iff,
                          not_or] at hlen
                        refine ⟨addr, len, a, digitsValue len, hbuf, ha, ?_, rfl⟩
                        exact ⟨hlen.1, by omega, by simpa using hdigits, rfl, by omega⟩
  · cases h
  · cases h

theorem Expansion.push_some {env : NetEnv} {t : Target} {st st' : Expansion}
    (h : st.push env t = some st') : st'.items = st.items ++ [t] ∧ st'.total = st.total := by
  rw [Expansion.push] at h
  split at h
  · split at h
    · cases h
    · cases h
      exact ⟨rfl, rfl⟩
  · cases h
    exact ⟨rfl, rfl⟩

theorem pushAddresses_ok {env : NetEnv} {errLen : ℕ} {buf : Bytes} {c : Cidr} {left n : ℕ}
    {st st' : Expansion} (h : pushAddresses env errLen buf c left n st = .ok st') :
    st'.items = st.items ++ (List.range' n left).map (fun k =>
        (Entry.ofAddress (c.network ||| BitVec.ofNat 32 k)).target) ∧
      st'.total = st.total := by
  induction left generalizing n st with
  | zero =>
      cases h
      exact ⟨by simp, rfl⟩
  | succ left ih =>
      rw [pushAddresses, Cidr.nthAddress] at h
      split at h
      · cases h
      · next ip hip =>
          split at h
          · cases h
          · next st₁ hpush =>
              obtain ⟨hitems, htotal⟩ := Expansion.push_some hpush
              obtain ⟨hrest, hrestTotal⟩ := ih h
              split at hip
              · cases hip
              · cases hip
                refine ⟨?_, hrestTotal.trans htotal⟩
                rw [hrest, hitems, List.append_assoc, List.range'_succ]
                rfl

theorem targetParse_ok {getaddrinfo : Bytes → Except Bytes (List Address)} {errLen : ℕ}
    {spec : Bytes} {t : Target} (h : targetParse getaddrinfo errLen spec = .ok t) :
    ∃ a, t = (Entry.mk spec a).target ∧
      (inetPton spec = some a ∨
        inetPton spec = none ∧ ∃ addrs, getaddrinfo spec = .ok addrs ∧
          addrs.findSome? (fun | .inet a => some a | .inet6 => none) = some a) := by
  simp only [targetParse] at h
  split at h
  · cases h
  · split at h
    · cases h
    · split at h
      · cases h
      · split at h
        · next a ha =>
            cases h
            exact ⟨a, rfl, .inl ha⟩
        · next hnone =>
            split at h
            · cases h
            · next addrs haddrs =>
                split at h
                · next a ha =>
                    cases h
                    exact ⟨a, rfl, .inr ⟨hnone, addrs, haddrs, ha⟩⟩
                · split at h <;> cases h

/-- An entry at the end of the array for every address that the token stands
for, while the cap holds. -/
theorem expandToken_ok {env : NetEnv} {errLen : ℕ} {tok : Bytes} {st st' : Expansion}
    (h : expandToken env errLen tok st = .ok st') :
    ∃ es, TokenExpansion (env.getaddrinfo st.calls) tok es ∧
      st'.items = st.items ++ es.map Entry.target ∧ st'.total = st.total + es.length ∧
        st'.total ≤ maxTargets := by
  simp only [expandToken] at h
  split at h
  · cases h
  · split at h
    · cases h
    · split at h
      · split at h
        · cases h
        · next c hparse =>
            obtain ⟨addr, len, a, p, hbuf, ha, hlen, rfl⟩ := cidrParse_ok hparse
            split at h
            · cases h
            · next hcap =>
                cases hpush : pushAddresses env errLen (trimSpaces tok) (cidrOf a p)
                    (cidrOf a p).hostCount 0 st with
                | error e =>
                    rw [hpush] at h
                    cases h
                | ok st₁ =>
                    rw [hpush] at h
                    cases h
                    obtain ⟨hitems, htotal⟩ := pushAddresses_ok hpush
                    simp only [Bool.or_eq_true, decide_eq_true_iff, not_or] at hcap
                    have hblock := cidrOf_block hlen.le a
                    refine ⟨_, .block hbuf ha hlen hblock, ?_, ?_, ?_⟩
                    · rw [hitems, ← List.range_eq_range', List.map_map, Cidr.addresses,
                        List.map_map]
                      rfl
                    · show st₁.total + _ = _
                      rw [htotal, List.length_map, Cidr.addresses, List.length_map,
                        List.length_range]
                    · show st₁.total + _ ≤ _
                      omega
      · next hslash =>
          split at h
          · cases h
          · next hcap =>
              split at h
              · cases h
              · cases h
              · next t hparse =>
                  split at h
                  · cases h
                  · next st₁ hpush =>
                      cases h
                      obtain ⟨hitems, htotal⟩ := Expansion.push_some hpush
                      obtain ⟨a, ht, hfrom⟩ := targetParse_ok hparse
                      refine ⟨[⟨trimSpaces tok, a⟩], ?_, ?_, ?_, ?_⟩
                      · rcases hfrom with ha | ⟨hnone, addrs, haddrs, ha⟩
                        · exact .literal ha
                        · exact .name (by simpa using hslash) hnone haddrs ha
                      · rw [hitems, ht]
                        rfl
                      · show st₁.total + 1 = _
                        rw [htotal]
                        rfl
                      · show st₁.total + 1 ≤ _
                        rw [htotal]
                        show st.total + 1 ≤ _
                        omega

/-! ## All tokens -/

/-- Tokens with the addresses that each stands for; the resolver may answer
otherwise each time it is asked. -/
def Expands (env : NetEnv) (toks : List Bytes) (ess : List (List Entry)) : Prop :=
  List.Forall₂ (fun tok es => ∃ n, TokenExpansion (env.getaddrinfo n) tok es) toks ess

/-- The array behind some tokens. -/
structure Expansion.Holds (st st' : Expansion) (ess : List (List Entry)) : Prop where
  items : st'.items = st.items ++ ess.flatten.map Entry.target
  total : st'.total = st.total + ess.flatten.length
  capped : st.total ≤ maxTargets → st'.total ≤ maxTargets

theorem Expansion.Holds.refl (st : Expansion) : st.Holds st [] :=
  ⟨by simp, rfl, id⟩

theorem Expansion.Holds.trans {st st₁ st₂ : Expansion} {ess ess' : List (List Entry)}
    (h : st.Holds st₁ ess) (h' : st₁.Holds st₂ ess') : st.Holds st₂ (ess ++ ess') := by
  refine ⟨?_, ?_, fun hcap => h'.capped (h.capped hcap)⟩
  · rw [h'.items, h.items, List.flatten_append, List.map_append, List.append_assoc]
  · rw [h'.total, h.total, List.flatten_append, List.length_append, Nat.add_assoc]

/-- One token, as a list of tokens. -/
theorem expandToken_holds {env : NetEnv} {errLen : ℕ} {tok : Bytes} {st st' : Expansion}
    (h : expandToken env errLen tok st = .ok st') :
    ∃ es, Expands env [tok] [es] ∧ st.Holds st' [es] := by
  obtain ⟨es, hexp, hitems, htotal, hcap⟩ := expandToken_ok h
  refine ⟨es, .cons ⟨_, hexp⟩ .nil, ⟨?_, ?_, fun _ => hcap⟩⟩
  · rw [hitems, List.flatten_singleton]
  · rw [htotal, List.flatten_singleton]

theorem expandTokens_ok {env : NetEnv} {errLen seen : ℕ} {toks : List Bytes} {st st' : Expansion}
    (h : expandTokens env errLen seen toks st = .ok st') :
    ∃ ess, Expands env toks ess ∧ st.Holds st' ess := by
  induction toks generalizing seen st with
  | nil =>
      cases h
      exact ⟨[], .nil, .refl _⟩
  | cons tok toks ih =>
      rw [expandTokens] at h
      split at h
      · cases h
      · split at h
        · cases h
        · next st₁ htok =>
            obtain ⟨es, hone, hst₁⟩ := expandToken_holds htok
            obtain ⟨ess, hrest, hst'⟩ := ih h
            exact ⟨[es] ++ ess, List.rel_append hone hrest, hst₁.trans hst'⟩

theorem expandLines_ok {env : NetEnv} {errLen : ℕ} {lines : List Bytes} {st st' : Expansion}
    (h : expandLines env errLen lines st = .ok st') :
    ∃ ess, Expands env lines ess ∧ st.Holds st' ess := by
  induction lines generalizing st with
  | nil =>
      cases h
      exact ⟨[], .nil, .refl _⟩
  | cons line lines ih =>
      rw [expandLines] at h
      split at h
      · cases h
      · next st₁ htok =>
          obtain ⟨es, hone, hst₁⟩ := expandToken_holds htok
          obtain ⟨ess, hrest, hst'⟩ := ih h
          exact ⟨[es] ++ ess, List.rel_append hone hrest, hst₁.trans hst'⟩

/-! ## De-duplication -/

/-- A C string in the order of `strcmp`. -/
def byteKey (s : Bytes) : List ℕ := s.map UInt8.toNat

theorem byteKey_injective : Function.Injective byteKey :=
  List.map_injective_iff.mpr fun _ _ h => UInt8.toNat_inj.mp h

theorem strcmp_cons {x y : UInt8} {xs ys : Bytes} :
    strcmp (x :: xs) (y :: ys) =
      if x < y then .lt else if y < x then .gt else strcmp xs ys := rfl

theorem strcmp_eq_lt_iff {a b : Bytes} : strcmp a b = .lt ↔ byteKey a < byteKey b := by
  induction a generalizing b with
  | nil =>
      cases b with
      | nil => exact iff_of_false (by decide) (List.lt_irrefl _)
      | cons y ys => exact iff_of_true rfl (List.nil_lt_cons _ _)
  | cons x xs ih =>
      cases b with
      | nil => exact iff_of_false (fun h => nomatch h) (List.not_lt_nil _)
      | cons y ys =>
          have hcons : byteKey (x :: xs) < byteKey (y :: ys) ↔
              x.toNat < y.toNat ∨ x.toNat = y.toNat ∧ byteKey xs < byteKey ys :=
            List.cons_lt_cons_iff
          rw [hcons, strcmp_cons, ← ih]
          split
          · next hlt => exact iff_of_true rfl (.inl hlt)
          · next hge =>
              split
              · next hgt =>
                  have hgt : y.toNat < x.toNat := hgt
                  exact iff_of_false (by decide) (by omega)
              · next hle =>
                  have hge : ¬ x.toNat < y.toNat := hge
                  have hle : ¬ y.toNat < x.toNat := hle
                  rw [or_iff_right hge]
                  exact (and_iff_right (by omega)).symm

theorem strcmp_eq_eq_iff {a b : Bytes} : strcmp a b = .eq ↔ byteKey a = byteKey b := by
  induction a generalizing b with
  | nil =>
      cases b with
      | nil => exact iff_of_true rfl rfl
      | cons y ys => exact iff_of_false (fun h => nomatch h) (List.cons_ne_nil _ _).symm
  | cons x xs ih =>
      cases b with
      | nil => exact iff_of_false (fun h => nomatch h) (List.cons_ne_nil _ _)
      | cons y ys =>
          have hcons : byteKey (x :: xs) = byteKey (y :: ys) ↔
              x.toNat = y.toNat ∧ byteKey xs = byteKey ys := List.cons_eq_cons
          rw [hcons, strcmp_cons, ← ih]
          split
          · next hlt =>
              have hlt : x.toNat < y.toNat := hlt
              exact iff_of_false (by decide) (by omega)
          · next hge =>
              split
              · next hgt =>
                  have hgt : y.toNat < x.toNat := hgt
                  exact iff_of_false (by decide) (by omega)
              · next hle =>
                  have hge : ¬ x.toNat < y.toNat := hge
                  have hle : ¬ y.toNat < x.toNat := hle
                  exact (and_iff_right (by omega)).symm

/-- A key in the order that the array is sorted by. -/
def DedupKey.sortKey (k : DedupKey) : List ℕ × ℕ := (byteKey k.1, k.2)

theorem dedupKeyLe_iff (a b : DedupKey) :
    dedupKeyLe a b = true ↔ toLex a.sortKey ≤ toLex b.sortKey := by
  rw [Prod.Lex.toLex_le_toLex]
  show _ ↔ byteKey a.1 < byteKey b.1 ∨ byteKey a.1 = byteKey b.1 ∧ a.2 ≤ b.2
  rw [← strcmp_eq_lt_iff, ← strcmp_eq_eq_iff, dedupKeyLe]
  cases strcmp a.1 b.1 with
  | lt => simp
  | eq => simp
  | gt => simp

theorem keptIndices_eq (before : Option Bytes) (keys : List DedupKey) :
    keptIndices before keys = runHeads (before.map byteKey) (keys.map DedupKey.sortKey) := by
  induction keys generalizing before with
  | nil => rfl
  | cons key rest ih =>
      obtain ⟨ip, i⟩ := key
      have hsame : before.map byteKey = some (byteKey ip) ↔ before = some ip :=
        (Option.map_injective byteKey_injective).eq_iff (b := some ip)
      rw [keptIndices, List.map_cons, DedupKey.sortKey, runHeads]
      simp only [beq_iff_eq, hsame, ih, Option.map_some]

/-- The keys of the array. -/
def dedupKeys (items : List Target) : List DedupKey := items.zipIdx.map fun p => (p.1.ip, p.2)

/-- Each entry has a place of its own, so the order of the sorted keys is
strict. -/
theorem sortedKeys_sorted (items : List Target) :
    KeysSorted (((dedupKeys items).insertionSort fun a b => dedupKeyLe a b).map
      DedupKey.sortKey) := by
  have htotal : Std.Total fun a b : DedupKey => dedupKeyLe a b = true :=
    ⟨fun a b => by rw [dedupKeyLe_iff, dedupKeyLe_iff]; exact le_total _ _⟩
  have htrans : IsTrans DedupKey fun a b => dedupKeyLe a b = true :=
    ⟨fun a b c => by simp only [dedupKeyLe_iff]; exact le_trans⟩
  have hsorted := List.pairwise_insertionSort (fun a b : DedupKey => dedupKeyLe a b = true)
    (dedupKeys items)
  have hperm := List.perm_insertionSort (fun a b : DedupKey => dedupKeyLe a b = true)
    (dedupKeys items)
  have hplaces : ((dedupKeys items).insertionSort fun a b => dedupKeyLe a b).Pairwise
      fun a b => a.2 ≠ b.2 := by
    rw [← List.pairwise_map (f := Prod.snd) (R := (· ≠ ·))]
    refine (hperm.map Prod.snd).nodup_iff.mpr ?_
    rw [dedupKeys, List.map_map]
    show (items.zipIdx.map Prod.snd).Nodup
    rw [List.zipIdx_map_snd]
    exact List.nodup_range'
  rw [KeysSorted, List.pairwise_map]
  refine (hsorted.and hplaces).imp fun {a b} h => ?_
  have hle := (dedupKeyLe_iff a b).mp h.1
  rw [Prod.Lex.toLex_le_toLex] at hle
  exact hle.imp_right fun heq => ⟨heq.1, lt_of_le_of_ne heq.2 h.2⟩

/-- Which entries the pass keeps. -/
theorem mem_keptIndices (items : List Target) (i : ℕ) :
    i ∈ keptIndices none ((dedupKeys items).insertionSort fun a b => dedupKeyLe a b) ↔
      ∃ t, items[i]? = some t ∧ ∀ j < i, (items.map Target.ip)[j]? ≠ some t.ip := by
  have hmem : ∀ k j, (k, j) ∈ ((dedupKeys items).insertionSort fun a b => dedupKeyLe a b).map
      DedupKey.sortKey ↔ ∃ t, items[j]? = some t ∧ k = byteKey t.ip := by
    intro k j
    rw [List.mem_map]
    simp only [List.mem_insertionSort, dedupKeys, List.mem_map, Prod.exists,
      List.mem_zipIdx_iff_getElem?]
    constructor
    · rintro ⟨_, _, ⟨t, _, ht, ⟨⟩⟩, ⟨⟩⟩
      exact ⟨t, ht, rfl⟩
    · rintro ⟨t, ht, rfl⟩
      exact ⟨_, _, ⟨t, j, ht, rfl⟩, rfl⟩
  rw [keptIndices_eq, Option.map_none, mem_runHeads (sortedKeys_sorted items) (by simp)]
  simp only [hmem]
  constructor
  · rintro ⟨_, ⟨t, ht, rfl⟩, -, hmin⟩
    refine ⟨t, ht, fun j hj hsame => ?_⟩
    rw [List.getElem?_map, Option.map_eq_some_iff] at hsame
    obtain ⟨u, hu, hip⟩ := hsame
    have hle := hmin j ⟨u, hu, by rw [hip]⟩
    omega
  · intro ⟨t, ht, hfirst⟩
    refine ⟨_, ⟨t, ht, rfl⟩, by simp, fun j hj => ?_⟩
    obtain ⟨u, hu, hip⟩ := hj
    by_contra hlt
    refine hfirst j (by omega) ?_
    rw [List.getElem?_map, hu, Option.map_some, byteKey_injective hip]

/-- The pass keeps the first entry of every address. -/
theorem targetListDedup_ok {env : NetEnv} {errLen calls : ℕ} {items kept : List Target}
    (h : targetListDedup env errLen items calls = .ok kept) :
    kept = firsts Target.ip [] items := by
  rw [targetListDedup] at h
  split at h
  · next hfew =>
      cases h
      match items, hfew with
      | [], _ => rfl
      | [t], _ => rfl
  · split at h
    · cases h
    · cases h
      rw [firsts_eq_filter]
      refine congrArg (List.map Prod.fst) (List.filter_congr fun p hp => ?_)
      have hget := List.mem_zipIdx_iff_getElem?.mp hp
      rw [Bool.eq_iff_iff, List.contains_iff_mem, decide_eq_true_iff, ← dedupKeys,
        mem_keptIndices]
      constructor
      · intro ⟨t, ht, hfirst⟩
        rw [hget, Option.some.injEq] at ht
        rw [ht]
        exact hfirst
      · intro hfirst
        exact ⟨p.1, hget, hfirst⟩

/-! ## The whole list -/

/-- The number of calls to the outside that the spec takes: the targets file is
read from there on. -/
def callsOfSpec (env : NetEnv) (errLen : ℕ) (spec : Option Bytes) : ℕ :=
  match spec.filter fun s => !s.isEmpty with
  | none => 0
  | some s =>
      match expandSpec env errLen s ⟨[], 0, 0, 0⟩ with
      | .error _ => 0
      | .ok st => st.calls

/-- The tokens of the spec, and behind them the lines of the targets file. -/
def GivenTokens (env : NetEnv) (errLen : ℕ) (spec targetsFilePath : Option Bytes)
    (toks : List Bytes) : Prop :=
  ∃ lines, toks = ((spec.filter fun s => !s.isEmpty).elim [] fun s => s.splitOn 0x2C) ++ lines ∧
    match targetsFilePath.filter fun p => !p.isEmpty with
    | none => lines = []
    | some path => ∃ file,
        targetsFileRead env 224 path (callsOfSpec env errLen spec) = .ok file ∧ lines = file.lines

theorem expandFile_ok {env : NetEnv} {errLen : ℕ} {path : Bytes} {st st' : Expansion}
    (h : expandFile env errLen path st = .ok st') :
    ∃ file ess, targetsFileRead env 224 path st.calls = .ok file ∧ Expands env file.lines ess ∧
      st.Holds st' ess := by
  rw [expandFile] at h
  split at h
  · cases h
  · next file hfile =>
      obtain ⟨ess, hexp, hholds⟩ := expandLines_ok h
      exact ⟨file, ess, hfile, hexp, hholds.items, hholds.total, hholds.capped⟩

theorem expandSpec_ok {env : NetEnv} {errLen : ℕ} {spec : Bytes} {st st' : Expansion}
    (h : expandSpec env errLen spec st = .ok st') :
    ∃ ess, Expands env (spec.splitOn 0x2C) ess ∧ st.Holds st' ess := by
  rw [expandSpec] at h
  split at h
  · cases h
  · exact expandTokens_ok h

/-- The end of the parser, on the array of all tokens. -/
theorem expanded_ok {env : NetEnv} {errLen : ℕ} {st : Expansion} {ess : List (List Entry)}
    {targets : List Target} (hholds : (Expansion.mk [] 0 0 0).Holds st ess)
    (h : (if st.total = 0 then
        listError errLen .errEmpty (ascii "target spec / targets-file produced zero targets")
      else targetListDedup env errLen st.items st.calls) = .ok targets) :
    ess.flatten.length ≤ maxTargets ∧
      targets = (firsts Entry.address [] ess.flatten).map Entry.target := by
  constructor
  · have hcap := hholds.capped (Nat.zero_le _)
    rw [hholds.total] at hcap
    omega
  · split at h
    · cases h
    · have hkeys : firsts Target.ip (([] : List (BitVec 32)).map inetNtop)
          (ess.flatten.map Entry.target) =
          (firsts Entry.address [] ess.flatten).map Entry.target :=
        @firsts_map _ _ _ Target.ip _ _ _ Entry.address Entry.target inetNtop inetNtop_injective
          (fun _ => rfl) [] ess.flatten
      rw [targetListDedup_ok h, hholds.items]
      exact hkeys

/-- On success the tokens were expanded in order, below the cap, and of equal
addresses the first is left. -/
theorem targetListParse_ok {env : NetEnv} {errLen : ℕ} {spec path : Option Bytes}
    {targets : List Target} (h : targetListParse env errLen spec path = .ok targets) :
    ∃ toks ess, GivenTokens env errLen spec path toks ∧ Expands env toks ess ∧
      ess.flatten.length ≤ maxTargets ∧
        targets = (firsts Entry.address [] ess.flatten).map Entry.target := by
  -- the part that reads the file, behind whatever came before it
  have hfile : ∀ st₁ ess₁ toks₁, (Expansion.mk [] 0 0 0).Holds st₁ ess₁ → Expands env toks₁ ess₁ →
      toks₁ = ((spec.filter fun s => !s.isEmpty).elim [] fun s => s.splitOn 0x2C) →
      st₁.calls = callsOfSpec env errLen spec →
      (match path.filter fun p => !p.isEmpty with
        | none => if st₁.total = 0 then
            listError errLen .errEmpty (ascii "target spec / targets-file produced zero targets")
          else targetListDedup env errLen st₁.items st₁.calls
        | some path => do
          let st ← expandFile env errLen path st₁
          if st.total = 0 then
            listError errLen .errEmpty (ascii "target spec / targets-file produced zero targets")
          else targetListDedup env errLen st.items st.calls) = .ok targets →
      ∃ toks ess, GivenTokens env errLen spec path toks ∧ Expands env toks ess ∧
        ess.flatten.length ≤ maxTargets ∧
          targets = (firsts Entry.address [] ess.flatten).map Entry.target := by
    intro st₁ ess₁ toks₁ hst₁ hexp₁ htoks hcalls hend
    cases hp : path.filter fun p => !p.isEmpty with
    | none =>
        rw [hp] at hend
        refine ⟨toks₁, ess₁, ⟨[], by rw [htoks, List.append_nil], ?_⟩, hexp₁, expanded_ok hst₁ hend⟩
        rw [hp]
    | some p =>
        rw [hp] at hend
        cases hread : expandFile env errLen p st₁ with
        | error e =>
            simp only [hread] at hend
            cases hend
        | ok st₂ =>
            simp only [hread] at hend
            obtain ⟨file, ess₂, hlines, hexp₂, hst₂⟩ := expandFile_ok hread
            refine ⟨toks₁ ++ file.lines, ess₁ ++ ess₂, ⟨file.lines, by rw [htoks], ?_⟩,
              List.rel_append hexp₁ hexp₂, expanded_ok (hst₁.trans hst₂) hend⟩
            rw [hp]
            exact ⟨file, hcalls ▸ hlines, rfl⟩
  simp only [targetListParse] at h
  split at h
  · cases h
  cases hs : spec.filter fun s => !s.isEmpty with
  | none =>
      simp only [hs] at h
      refine hfile _ [] [] (.refl _) .nil (by rw [hs]; rfl) (by rw [callsOfSpec, hs]) ?_
      cases hp : path.filter fun p => !p.isEmpty with
      | none =>
          simp only [hp] at h
          exact h
      | some p =>
          simp only [hp] at h
          exact h
  | some s =>
      simp only [hs] at h
      cases hread : expandSpec env errLen s ⟨[], 0, 0, 0⟩ with
      | error e =>
          simp only [hread] at h
          cases h
      | ok st₁ =>
          simp only [hread] at h
          obtain ⟨ess₁, hexp₁, hst₁⟩ := expandSpec_ok hread
          refine hfile st₁ ess₁ (s.splitOn 0x2C) hst₁ hexp₁ (by rw [hs]; rfl) ?_ ?_
          · simp only [callsOfSpec, hs, hread]
          · cases hp : path.filter fun p => !p.isEmpty with
            | none =>
                simp only [hp] at h
                exact h
            | some p =>
                simp only [hp] at h
                exact h

/-- A successful call hands over the tokens' addresses in order, each of them
where it came first; a block is all its addresses and no other, computed
without a wrap; and a call that fails leaves the list as it was. -/
theorem targetListParse_expansion (env : NetEnv) (errLen : ℕ) (spec path : Option Bytes)
    (old : List Target) :
    ((targetListParseInto env errLen spec path (some old)).status = .ok () →
        ∃ toks ess, GivenTokens env errLen spec path toks ∧ Expands env toks ess ∧
          ess.flatten.length ≤ maxTargets ∧
            (targetListParseInto env errLen spec path (some old)).outList =
              some ((firsts Entry.address [] ess.flatten).map Entry.target)) ∧
      (∀ buf c, cidrParse errLen buf = .ok c → ∃ addr len a p, buf = addr ++ 0x2F :: len ∧
        inetPton addr = some a ∧ PrefixLength len p ∧ c = cidrOf a p) ∧
      (∀ a, ∀ p ≤ 32, Block a p (cidrOf a p).addresses ∧ WordSafe a p ∧
        ∀ n, (cidrOf a p).nthAddress n = ((cidrOf a p).addresses[n]?).map inetNtop) ∧
      ((targetListParseInto env errLen spec path (some old)).status ≠ .ok () →
        (targetListParseInto env errLen spec path (some old)).outList = some old) := by
  refine ⟨fun h => ?_, fun buf c h => cidrParse_ok h,
    fun a p hp => ⟨cidrOf_block hp a, cidrOf_wordSafe hp a, fun n => ?_⟩, fun h => ?_⟩
  · rw [targetListParseInto] at h ⊢
    split at h
    · cases h
    · next targets hparse =>
        obtain ⟨toks, ess, htoks, hexp, hcap, htargets⟩ := targetListParse_ok hparse
        exact ⟨toks, ess, htoks, hexp, hcap, congrArg some htargets⟩
  · rw [Cidr.nthAddress, Cidr.addresses]
    split
    · next hout =>
        rw [List.getElem?_eq_none (by rw [List.length_map, List.length_range]; exact hout)]
        rfl
    · next hin =>
        rw [List.getElem?_map, List.getElem?_range (not_le.mp hin)]
        rfl
  · rw [targetListParseInto] at h ⊢
    split at h
    · rfl
    · exact absurd rfl h

/-- Every name resolves to 10.0.0.1, and the targets file has two lines. -/
def lanEnv : NetEnv :=
  { alloc := fun _ => false
    readError := fun _ => false
    getaddrinfo := fun _ _ => .ok [.inet6, .inet 0x0A000001]
    openFile := fun _ => .ok (ascii "gw.lan # known\n10.0.0.9\n") }

/-- A spec and a file: the addresses of the block that were given before, and
the name of one of them, are left out. -/
theorem targetListParse_expansion_lan :
    ∃ toks ess, GivenTokens lanEnv 192 (some (ascii "10.0.0.2, 10.0.0.0/30"))
        (some (ascii "lan.txt")) toks ∧
      Expands lanEnv toks ess ∧ ess.flatten.length ≤ maxTargets ∧
      (firsts Entry.address [] ess.flatten).map Entry.target =
        [⟨ascii "10.0.0.2", ascii "10.0.0.2"⟩, ⟨ascii "10.0.0.0", ascii "10.0.0.0"⟩,
          ⟨ascii "10.0.0.1", ascii "10.0.0.1"⟩, ⟨ascii "10.0.0.3", ascii "10.0.0.3"⟩,
          ⟨ascii "10.0.0.9", ascii "10.0.0.9"⟩] := by
  have hparse := targetListParse_expansion lanEnv 192 (some (ascii "10.0.0.2, 10.0.0.0/30"))
    (some (ascii "lan.txt")) []
  have hok : (targetListParseInto lanEnv 192 (some (ascii "10.0.0.2, 10.0.0.0/30"))
      (some (ascii "lan.txt")) (some [])).status = .ok () := by rfl
  obtain ⟨toks, ess, htoks, hexp, hcap, hlist⟩ := hparse.1 hok
  refine ⟨toks, ess, htoks, hexp, hcap, Option.some.inj (hlist.symm.trans ?_)⟩
  decide +kernel

end Cytadel.Net
