import Mathlib.Data.List.TakeWhile
import Cytadel.Cli.ScanWiring
import Cytadel.Match.VersionCompare
import Cytadel.Net.CpeMap
import Cytadel.Proofs.KbMap

/-!
# What is mapped is what is resolved

The CPE is written by one module and taken apart by another. The bytes of a
version are none of those that a field ends at, and no rule has such a byte in
its vendor or product, so the fields that the resolver splits are those that
were joined.
-/

namespace Cytadel.Net

open Cytadel Cytadel.Kb Cytadel.Cli Lib

/-! ## The token behind the marker -/

/-- A rule decides on a text: no earlier rule has its marker in it, and `run`
is what stands behind the first occurrence of this one's up to a byte that no
version has. -/
structure Decides (text : Bytes) (rule : CpeRule) (run : Bytes) : Prop where
  earlier : ∃ pre post, cpeRules = pre ++ rule :: post ∧ ∀ r ∈ pre, ¬ r.marker <:+: text
  split : ∃ before after, text = before ++ rule.marker ++ run ++ after ∧
    (∀ before' after', text = before' ++ rule.marker ++ after' →
      before.length ≤ before'.length) ∧
    ∀ c, after.head? = some c → cpeVersionCharOk c = false
  chars : ∀ c ∈ run, cpeVersionCharOk c = true

/-- `findFrom` counts the bytes before the first occurrence. -/
theorem findFrom_eq_some {needle haystack : Bytes} {i j : ℕ}
    (h : findFrom needle haystack i = some j) :
    ∃ before rest, haystack = before ++ needle ++ rest ∧ j = i + before.length ∧
      ∀ before' rest', haystack = before' ++ needle ++ rest' → before.length ≤ before'.length := by
  induction haystack generalizing i with
  | nil => cases h
  | cons c haystack ih =>
      rw [findFrom] at h
      split at h
      · next hp =>
          obtain ⟨rest, hrest⟩ := List.isPrefixOf_iff_prefix.mp hp
          refine ⟨[], rest, by simpa using hrest.symm, ?_, by simp⟩
          rw [← Option.some.inj h]
          rfl
      · next hp =>
          obtain ⟨before, rest, rfl, hj, hfirst⟩ := ih h
          refine ⟨c :: before, rest, rfl, ?_, ?_⟩
          · rw [hj, List.length_cons]
            omega
          · intro before' rest' heq
            cases before' with
            | nil =>
                refine absurd (List.isPrefixOf_iff_prefix.mpr ?_) hp
                exact ⟨rest', by simpa using heq.symm⟩
            | cons c' before' =>
                simp only [List.cons_append, List.cons.injEq] at heq
                have := hfirst before' rest' heq.2
                simpa using this

theorem findFrom_eq_none {needle haystack : Bytes} {i : ℕ} (hne : needle ≠ [])
    (h : findFrom needle haystack i = none) : ¬ needle <:+: haystack := by
  induction haystack generalizing i with
  | nil =>
      intro hin
      exact hne (List.infix_nil.mp hin)
  | cons c haystack ih =>
      rw [findFrom] at h
      split at h
      · cases h
      · next hp =>
          intro hin
          rcases List.infix_cons_iff.mp hin with hin | hin
          · exact hp (List.isPrefixOf_iff_prefix.mpr hin)
          · exact ih h hin

theorem extractVersion_eq (room : ℕ) (text : Bytes) :
    extractVersion room text = ((text.takeWhile cpeVersionCharOk).take room).map toLowerAscii := by
  induction room generalizing text with
  | zero => rw [extractVersion, List.take_zero, List.map_nil]
  | succ room ih =>
      cases text with
      | nil => rfl
      | cons c text =>
          rw [extractVersion]
          split
          · next hc => rw [ih, List.takeWhile_cons_of_pos hc, List.take_succ_cons, List.map_cons]
          · next hc =>
              rw [List.takeWhile_cons_of_neg hc]
              rfl

theorem cpeRules_marker_ne : ∀ r ∈ cpeRules, r.marker ≠ [] := by decide

theorem cpeFind_eq_none {text : Bytes} {r : CpeRule} (hr : r ∈ cpeRules)
    (h : cpeFind text r.marker = none) : ¬ r.marker <:+: text := by
  have hne := cpeRules_marker_ne r hr
  rw [cpeFind] at h
  split at h
  · next hlen =>
      intro hin
      have hle := hin.length_le
      have hpos := List.length_pos_iff.mpr hne
      omega
  · exact findFrom_eq_none hne h

/-- The version that is read behind the marker is the run, cut and in lower
case. -/
theorem decides_of_cpeFind {text : Bytes} {rule : CpeRule} {pre post : List CpeRule} {i : ℕ}
    (hrules : cpeRules = pre ++ rule :: post) (hpre : ∀ r ∈ pre, cpeFind text r.marker = none)
    (h : cpeFind text rule.marker = some i) :
    ∃ run, Decides text rule run ∧
      cpeExtractVersion text (i + rule.marker.length) =
        (run.take cpeVersionMaxLen).map toLowerAscii := by
  rw [cpeFind] at h
  split at h
  · cases h
  · obtain ⟨before, rest, rfl, hi, hfirst⟩ := findFrom_eq_some h
    rw [Nat.zero_add] at hi
    refine ⟨rest.takeWhile cpeVersionCharOk, ?_, ?_⟩
    · refine ⟨⟨pre, post, hrules, ?_⟩,
        ⟨before, rest.dropWhile cpeVersionCharOk, ?_, hfirst, ?_⟩, ?_⟩
      · intro r hr
        refine cpeFind_eq_none ?_ (hpre r hr)
        rw [hrules]
        exact List.mem_append_left _ hr
      · rw [List.append_assoc _ (rest.takeWhile _), List.takeWhile_append_dropWhile]
      · intro c hc
        have := List.head?_dropWhile_not cpeVersionCharOk rest
        rw [hc] at this
        simpa using this
      · intro c hc
        exact (List.mem_takeWhile_imp hc)
    · rw [cpeExtractVersion, extractVersion_eq, hi, ← List.length_append, List.drop_left]

/-! ## Fields -/

/-- A byte of a version in lower case is printable, and not a colon. -/
theorem lower_version_byte {c : UInt8} (h : cpeVersionCharOk c = true) :
    0x20 < (toLowerAscii c).toNat ∧ (toLowerAscii c).toNat < 0x7F ∧
      (toLowerAscii c).toNat ≠ 0x3A := by
  simp only [cpeVersionCharOk, Bool.or_eq_true, Bool.and_eq_true, decide_eq_true_eq, beq_iff_eq,
    UInt8.le_iff_toNat_le, ← UInt8.toNat_inj, UInt8.reduceToNat] at h
  rw [toLowerAscii]
  split
  · next hup =>
      simp only [Bool.and_eq_true, decide_eq_true_eq, UInt8.le_iff_toNat_le,
        UInt8.reduceToNat] at hup
      rw [UInt8.toNat_add]
      simp only [UInt8.reduceToNat]
      omega
  · omega

/-- The bytes of a version that was extracted. -/
theorem lower_run_bytes {run : Bytes} (h : ∀ c ∈ run, cpeVersionCharOk c = true) (n : ℕ) :
    ∀ c ∈ (run.take n).map toLowerAscii,
      0x20 < c.toNat ∧ c.toNat < 0x7F ∧ c.toNat ≠ 0x3A := by
  intro c hc
  obtain ⟨c', hc', rfl⟩ := List.mem_map.mp hc
  exact lower_version_byte (h c' (List.mem_of_mem_take hc'))

theorem hasDisallowedByte_eq_false {s : Bytes} (h : ∀ c ∈ s, 0x20 < c.toNat ∧ c.toNat < 0x7F) :
    Match.hasDisallowedByte s = false := by
  rw [Match.hasDisallowedByte, List.any_eq_false]
  intro c hc
  have hb := h c hc
  simp only [Bool.or_eq_true, decide_eq_true_eq, beq_iff_eq, UInt8.lt_iff_toNat_lt,
    UInt8.le_iff_toNat_le, ← UInt8.toNat_inj, UInt8.reduceToNat]
  omega

/-- The thirteen fields of the CPE. -/
def cpeFields (rule : CpeRule) (version : Bytes) : List Bytes :=
  ascii "cpe" :: ascii "2.3" :: ascii "a" :: rule.vendor :: rule.product :: version ::
    List.replicate 7 (ascii "*")

theorem cpeString_eq (rule : CpeRule) (version : Bytes) :
    cpeString rule version = [0x3A].intercalate (cpeFields rule version) := by
  have hparts : ascii "cpe:2.3:a:" = ascii "cpe" ++ 0x3A :: ascii "2.3" ++ 0x3A :: ascii "a" ++
      [0x3A] := by decide
  have htail : ascii ":*:*:*:*:*:*:*" =
      0x3A :: [0x3A].intercalate (List.replicate 7 (ascii "*")) := by decide
  have hcolon : ascii ":" = [0x3A] := by decide
  rw [cpeString, hparts, htail, hcolon, cpeFields]
  simp [List.intercalate]

/-- What the table has for vendor and product. -/
theorem cpeRules_fields : ∀ r ∈ cpeRules,
    (0 < r.vendor.length ∧ r.vendor.length ≤ 256 ∧ 0x3A ∉ r.vendor ∧ 0 ∉ r.vendor) ∧
    (0 < r.product.length ∧ r.product.length ≤ 256 ∧ 0x3A ∉ r.product ∧ 0 ∉ r.product) := by
  decide

section

variable {rule : CpeRule} {version : Bytes}

theorem cpeFields_no_colon (hr : rule ∈ cpeRules) (hv : ∀ c ∈ version, c.toNat ≠ 0x3A) :
    ∀ l ∈ cpeFields rule version, (0x3A : UInt8) ∉ l := by
  have hfields := cpeRules_fields rule hr
  have hversion : (0x3A : UInt8) ∉ version := fun hm => hv _ hm rfl
  have hlit : (0x3A : UInt8) ∉ ascii "cpe" ∧ (0x3A : UInt8) ∉ ascii "2.3" ∧
      (0x3A : UInt8) ∉ ascii "a" ∧ (0x3A : UInt8) ∉ ascii "*" := by decide
  intro l hl
  simp only [cpeFields, List.mem_cons, List.mem_replicate] at hl
  rcases hl with rfl | rfl | rfl | rfl | rfl | rfl | ⟨-, rfl⟩
  · exact hlit.1
  · exact hlit.2.1
  · exact hlit.2.2.1
  · exact hfields.1.2.2.1
  · exact hfields.2.2.2.1
  · exact hversion
  · exact hlit.2.2.2

theorem cpeString_no_nul (hr : rule ∈ cpeRules) (hv : 0 ∉ version) :
    0 ∉ cpeString rule version := by
  have hfields := cpeRules_fields rule hr
  have hlit : (0 : UInt8) ∉ ascii "cpe:2.3:a:" ∧ (0 : UInt8) ∉ ascii ":" ∧
      (0 : UInt8) ∉ ascii ":*:*:*:*:*:*:*" := by decide
  simp only [cpeString, List.mem_append, not_or]
  exact ⟨⟨⟨⟨⟨⟨hlit.1, hfields.1.2.2.2⟩, hlit.2.1⟩, hfields.2.2.2.2⟩, hlit.2.1⟩, hv⟩, hlit.2.2⟩

/-- The resolver takes the CPE apart into the fields it was made of. -/
theorem resolvePort_cpeString {kb : Kb} {port : UInt16} (hr : rule ∈ cpeRules)
    (hv : ∀ c ∈ version, 0x20 < c.toNat ∧ c.toNat < 0x7F ∧ c.toNat ≠ 0x3A)
    (hne : version.length ≠ 0) (hlen : ¬ (cpeString rule version).length ≥ cpeBufLen)
    (hkey : ¬ (cpeKey port).length ≥ 32)
    (hget : kb.get (some (cpeKey port)) = .found (.str (cpeString rule version))) :
    resolvePort kb port = some ⟨rule.vendor, rule.product, version⟩ := by
  have hfields := cpeRules_fields rule hr
  have hnul : 0 ∉ cpeString rule version := by
    refine cpeString_no_nul hr fun hm => ?_
    have := (hv 0 hm).1
    simp at this
  have hsplit : splitCpe ((cstr (cpeString rule version)).take kbValueMaxLen) =
      some (cpeFields rule version) := by
    have hshort : (cpeString rule version).length ≤ kbValueMaxLen := by
      have hbuf : cpeBufLen = 175 := rfl
      have hmax : kbValueMaxLen = 4096 := rfl
      omega
    rw [cstr_eq_self_iff.mpr hnul, List.take_of_length_le hshort, splitCpe, cpeString_eq,
      List.splitOn_intercalate _ (cpeFields_no_colon hr fun c hc => (hv c hc).2.2)
        (by simp [cpeFields])]
    rfl
  have hdef : cpeKey port = ascii "CPE/" ++ decimal port.toNat := rfl
  unfold resolvePort
  simp only [← hdef, if_neg hkey, hget, hsplit, cpeFields]
  rw [if_neg (by simp), if_neg (by omega)]

end

/-! ## The round trip -/

theorem setStr_cases (kb : Kb) (a : Allocs) (key value : Bytes) :
    kb.setStr a (some key) (some value) = (false, kb) ∨
    (Admitted (cstr key) (.str (cstr value)) ∧ kb.setStr a (some key) (some value) =
      kb.store a (cstr key) (.str (cstr value))) := by
  rw [Kb.setStr]
  rcases setStrN_cases kb a (some key) (some (cstr value)) with
    ⟨hfail, -⟩ | ⟨k, v, ⟨rfl⟩, ⟨rfl⟩, hadm, hstore⟩
  · exact Or.inl hfail
  · exact Or.inr ⟨hadm, hstore⟩

/-- A string that was set is got back. -/
theorem setStr_get {kb : Kb} {f : Bytes → Option KbValue} (h : KbInv kb f) (a : Allocs)
    (key value : Bytes) (hok : (kb.setStr a (some key) (some value)).1 = true) :
    (kb.setStr a (some key) (some value)).2.get (some key) = .found (.str (cstr value)) := by
  rcases setStr_cases kb a key value with hfail | ⟨hadm, hstore⟩
  · rw [hfail] at hok
    cases hok
  · rw [hstore] at hok ⊢
    rw [(h.store hadm hok).get hadm.key, Function.update_self]
    rfl

theorem setStr_failed {kb : Kb} {a : Allocs} {key value : Bytes}
    (hfail : (kb.setStr a (some key) (some value)).1 = false) :
    (kb.setStr a (some key) (some value)).2 = kb := by
  rcases setStr_cases kb a key value with hset | ⟨-, hstore⟩
  · rw [hset]
  · rw [hstore] at hfail ⊢
    exact store_failed hfail

/-- What a mapping into a knowledge base has to do: resolve to the rule and the
token that the text has, or leave the port as it was. -/
def RoundTrips (kb : Kb) (port : UInt16) (text : Bytes) (r : Bool × Kb) : Prop :=
  (r.1 = true → ∃ rule run, Decides text rule run ∧
    resolvePort r.2 port =
      some ⟨rule.vendor, rule.product, (run.take cpeVersionMaxLen).map toLowerAscii⟩ ∧
    Match.hasDisallowedByte ((run.take cpeVersionMaxLen).map toLowerAscii) = false) ∧
  (r.1 = false → r.2.get (some (cpeKey port)) = kb.get (some (cpeKey port)))

theorem RoundTrips.refused (kb : Kb) (port : UInt16) (text : Bytes) :
    RoundTrips kb port text (false, kb) := by
  refine ⟨?_, fun _ => rfl⟩
  intro hok
  cases hok

/-- The loop over the rules, from the rule it stands at on. -/
theorem mapRules_roundTrips {kb : Kb} {f : Bytes → Option KbValue} (h : KbInv kb f) (a : Allocs)
    (port : UInt16) (text : Bytes) (pre : List CpeRule) {rules : List CpeRule}
    (hrules : cpeRules = pre ++ rules) (hpre : ∀ r ∈ pre, cpeFind text r.marker = none) :
    RoundTrips kb port text (mapRules kb a port text rules) := by
  induction rules generalizing pre with
  | nil => exact .refused kb port text
  | cons rule rules ih =>
      cases hfind : cpeFind text rule.marker with
      | none =>
          rw [mapRules, hfind]
          refine ih (pre ++ [rule]) (by simpa using hrules) ?_
          intro r hr
          rcases List.mem_append.mp hr with hr | hr
          · exact hpre r hr
          · rw [List.mem_singleton.mp hr]
            exact hfind
      | some markerAt =>
          obtain ⟨run, hdec, hversion⟩ := decides_of_cpeFind hrules hpre hfind
          have hmem : rule ∈ cpeRules := by
            rw [hrules]
            exact List.mem_append_right _ List.mem_cons_self
          rw [mapRules, hfind]
          simp only [hversion]
          split
          · exact .refused kb port text
          · next hne =>
              split
              · exact .refused kb port text
              · next hlen =>
                  split
                  · exact .refused kb port text
                  · next hkey =>
                      have hbytes := lower_run_bytes hdec.chars cpeVersionMaxLen
                      refine ⟨fun hok => ⟨rule, run, hdec, ?_, ?_⟩, fun hfail => ?_⟩
                      · refine resolvePort_cpeString hmem hbytes hne hlen hkey ?_
                        rw [setStr_get h a _ _ hok, cstr_eq_self_iff.mpr]
                        refine cpeString_no_nul hmem fun hm => ?_
                        have := (hbytes 0 hm).1
                        simp at this
                      · exact hasDisallowedByte_eq_false fun c hc =>
                          ⟨(hbytes c hc).1, (hbytes c hc).2.1⟩
                      · rw [setStr_failed hfail]

/-- The round trip, in every knowledge base that calls can make. -/
theorem cpeMapAndWrite_roundTrips (steps : List (KbOp × Allocs)) (a : Allocs) (port : UInt16)
    (text : Bytes) :
    RoundTrips (kbRun steps).2 port text (cpeMapAndWrite (kbRun steps).2 a port text) := by
  rw [cpeMapAndWrite]
  split
  · exact .refused _ port text
  · exact mapRules_roundTrips (kbRun_inv steps) a port text [] rfl (by simp)

/-- The banner of a web server, mapped on port 80 and resolved. -/
theorem cpeMapAndWrite_roundTrips_banner :
    ∃ kb rule run,
      cpeMapAndWrite (kbRun []).2 Allocs.all 80 (ascii "Apache/2.4.49 (Unix)") = (true, kb) ∧
      Decides (ascii "Apache/2.4.49 (Unix)") rule run ∧
      resolvePort kb 80 = some ⟨ascii "apache", ascii "http_server", ascii "2.4.49"⟩ ∧
      rule.vendor = ascii "apache" ∧ rule.product = ascii "http_server" ∧
      (run.take cpeVersionMaxLen).map toLowerAscii = ascii "2.4.49" := by
  have hround := cpeMapAndWrite_roundTrips [] Allocs.all 80 (ascii "Apache/2.4.49 (Unix)")
  have hok : (cpeMapAndWrite (kbRun []).2 Allocs.all 80 (ascii "Apache/2.4.49 (Unix)")).1 =
      true := by decide +kernel
  have hread : resolvePort (cpeMapAndWrite (kbRun []).2 Allocs.all 80
      (ascii "Apache/2.4.49 (Unix)")).2 80 =
      some ⟨ascii "apache", ascii "http_server", ascii "2.4.49"⟩ := by decide +kernel
  obtain ⟨rule, run, hdec, hresolved, -⟩ := hround.1 hok
  obtain ⟨hvendor, hproduct, hversion⟩ :=
    ResolvedService.mk.inj (Option.some.inj (hresolved.symm.trans hread))
  exact ⟨_, rule, run, Prod.ext hok rfl, hdec, hread, hvendor, hproduct, hversion⟩

end Cytadel.Net
