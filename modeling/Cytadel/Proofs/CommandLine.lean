import Cytadel.Cli.Arguments

/-!
# What a command line says

A command line that is accepted is a list of options, each with its words, one
after the other; what follows an option that takes a value is that value, even
if it looks like an option. Of an option that is given twice the last one
counts, and only of the target there may not be two.
-/

namespace Cytadel.Cli

open Cytadel Cytadel.Core Cytadel.Log Cytadel.Net Lib.Options

/-! ## Numbers -/

/-- A text that `strtol` reads to its end as a positive number. -/
def PositiveNumeral (text : Bytes) (v : ℤ) : Prop :=
  ∃ spaces sign digits, text = spaces ++ (sign ++ digits) ∧ (∀ c ∈ spaces, isSpace c = true) ∧
    (sign = [] ∨ sign = [0x2B]) ∧ digits ≠ [] ∧ (∀ c ∈ digits, isDigitByte c = true) ∧
    v = digitsValue digits ∧ 0 < v

theorem digit_head {digits : Bytes} (hne : digits ≠ []) (h : ∀ c ∈ digits, isDigitByte c = true) :
    ∃ c rest, digits = c :: rest ∧ isSpace c = false ∧ c ≠ 0x2D ∧ c ≠ 0x2B := by
  obtain ⟨c, rest, rfl⟩ := List.exists_cons_of_ne_nil hne
  have hc := h c List.mem_cons_self
  refine ⟨c, rest, rfl, ?_⟩
  simp only [isDigitByte, isSpace, Bool.and_eq_true, decide_eq_true_eq] at hc ⊢
  have hlo := UInt8.le_iff_toNat_le.mp hc.1
  have hhi := UInt8.le_iff_toNat_le.mp hc.2
  refine ⟨?_, ?_, ?_⟩
  · simp only [Bool.or_eq_false_iff, beq_eq_false_iff_ne, ne_eq, Bool.and_eq_false_iff,
      decide_eq_false_iff_not, UInt8.le_iff_toNat_le]
    constructor
    · rintro rfl
      exact absurd hlo (by decide)
    · right
      show ¬ c.toNat ≤ 13
      have : 48 ≤ c.toNat := hlo
      omega
  · rintro rfl
    exact absurd hlo (by decide)
  · rintro rfl
    exact absurd hlo (by decide)

theorem takeSign_digits {sign digits : Bytes} (hsign : sign = [] ∨ sign = [0x2B])
    (hne : digits ≠ []) (h : ∀ c ∈ digits, isDigitByte c = true) :
    takeSign (sign ++ digits) = (false, digits) := by
  obtain ⟨c, rest, rfl, -, hminus, hplus⟩ := digit_head hne h
  obtain rfl | rfl := hsign
  · simp [takeSign, hminus, hplus]
  · rfl

theorem strtol_numeral {spaces sign digits : Bytes} (hspaces : ∀ c ∈ spaces, isSpace c = true)
    (hsign : sign = [] ∨ sign = [0x2B]) (hne : digits ≠ [])
    (hdigits : ∀ c ∈ digits, isDigitByte c = true) (hmax : (digitsValue digits : ℤ) ≤ longMax) :
    strtol (spaces ++ (sign ++ digits)) = ⟨digitsValue digits, [], false, false⟩ := by
  have hstart : (spaces ++ (sign ++ digits)).dropWhile isSpace = sign ++ digits := by
    obtain ⟨c, rest, rfl, hspace, -⟩ := digit_head hne hdigits
    rw [List.dropWhile_append_of_pos hspaces]
    obtain rfl | rfl := hsign
    · rw [List.nil_append, List.dropWhile_cons_of_neg (by simp [hspace])]
    · rfl
  have htake : digits.takeWhile isDigitByte = digits := List.takeWhile_eq_self_iff.mpr hdigits
  have hdrop : digits.dropWhile isDigitByte = [] := List.dropWhile_eq_nil_iff.mpr hdigits
  have hempty : digits.isEmpty = false := by
    rw [List.isEmpty_eq_false_iff]
    exact hne
  have hmin : ¬ (digitsValue digits : ℤ) < longMin := by
    have : longMin < 0 := by decide
    omega
  simp only [strtol, hstart, takeSign_digits hsign hne hdigits, htake, hdrop, hempty,
    Bool.false_eq_true, if_false]
  rw [inLong, if_neg (by omega), if_neg hmin]

theorem takeSign_eq (s : Bytes) :
    ((takeSign s).1 = true ∧ s = [0x2D] ++ (takeSign s).2) ∨
      ((takeSign s).1 = false ∧
        ∃ sign, (sign = [] ∨ sign = [0x2B]) ∧ s = sign ++ (takeSign s).2) := by
  cases s with
  | nil => exact Or.inr ⟨rfl, [], Or.inl rfl, rfl⟩
  | cons c s =>
      rw [takeSign]
      split
      · next h => exact Or.inl ⟨rfl, by rw [h]; rfl⟩
      · split
        · next h => exact Or.inr ⟨rfl, [0x2B], Or.inr rfl, by rw [h]; rfl⟩
        · exact Or.inr ⟨rfl, [], Or.inl rfl, rfl⟩

theorem inLong_eq {v : ℤ} {rest : Bytes} (h : (inLong v rest).isOutOfRange = false) :
    inLong v rest = ⟨v, rest, false, false⟩ := by
  rw [inLong] at h ⊢
  split at h
  · cases h
  · next hmax =>
      split at h
      · cases h
      · next hmin => rw [if_neg hmax, if_neg hmin]

/-- What a number that is in range was read from. -/
theorem strtol_parts {s : Bytes} (hstart : (strtol s).isAtStart = false)
    (hrange : (strtol s).isOutOfRange = false) :
    ∃ spaces sign digits, s = spaces ++ (sign ++ (digits ++ (strtol s).rest)) ∧
      (∀ c ∈ spaces, isSpace c = true) ∧ digits ≠ [] ∧ (∀ c ∈ digits, isDigitByte c = true) ∧
      ((sign = [0x2D] ∧ (strtol s).value = -digitsValue digits) ∨
        ((sign = [] ∨ sign = [0x2B]) ∧ (strtol s).value = digitsValue digits)) := by
  have hs : s = s.takeWhile isSpace ++ s.dropWhile isSpace := List.takeWhile_append_dropWhile.symm
  have hspaces : ∀ c ∈ s.takeWhile isSpace, isSpace c = true :=
    fun c hc => List.mem_takeWhile_imp hc
  have hsign := takeSign_eq (s.dropWhile isSpace)
  unfold strtol at hstart hrange ⊢
  generalize takeSign (s.dropWhile isSpace) = signed at hsign hstart hrange ⊢
  obtain ⟨isMinus, text⟩ := signed
  have htext : text = text.takeWhile isDigitByte ++ text.dropWhile isDigitByte :=
    List.takeWhile_append_dropWhile.symm
  have hdigits : ∀ c ∈ text.takeWhile isDigitByte, isDigitByte c = true := fun c hc =>
    List.mem_takeWhile_imp hc
  by_cases hne : (text.takeWhile isDigitByte).isEmpty = true
  · rw [if_pos hne] at hstart
    cases hstart
  · rw [if_neg hne] at hrange ⊢
    have hnil : text.takeWhile isDigitByte ≠ [] := fun hnil => hne (by rw [hnil]; rfl)
    rw [inLong_eq hrange]
    rcases hsign with ⟨hsign, hminus⟩ | ⟨hsign, sign, hplus, hrest⟩
    · obtain rfl : isMinus = true := hsign
      refine ⟨_, [0x2D], _, ?_, hspaces, hnil, hdigits, Or.inl ⟨rfl, by simp⟩⟩
      show s = _ ++ (_ ++ (_ ++ text.dropWhile isDigitByte))
      rw [← htext, ← hminus]
      exact hs
    · obtain rfl : isMinus = false := hsign
      refine ⟨_, sign, _, ?_, hspaces, hnil, hdigits, Or.inr ⟨hplus, by simp⟩⟩
      show s = _ ++ (_ ++ (_ ++ text.dropWhile isDigitByte))
      rw [← htext, ← hrest]
      exact hs

theorem positiveLong_iff {val : Bytes} {maxValue v : ℤ} (hmax : maxValue ≤ longMax) :
    positiveLong val maxValue = some v ↔ PositiveNumeral val v ∧ v ≤ maxValue := by
  constructor
  · intro h
    simp only [positiveLong] at h
    split at h
    · cases h
    · next hok =>
        obtain rfl := Option.some.inj h
        simp only [Bool.or_eq_true, Bool.not_eq_true', decide_eq_true_eq, not_or,
          Bool.not_eq_true, not_le, not_lt, Bool.not_eq_false, List.isEmpty_iff] at hok
        obtain ⟨⟨⟨⟨hstart, hrest⟩, hrange⟩, hpos⟩, hle⟩ := hok
        obtain ⟨spaces, sign, digits, hval, hspaces, hne, hdigits, ⟨-, hvalue⟩ | ⟨hsign, hvalue⟩⟩ :=
          strtol_parts hstart hrange
        · omega
        · rw [hrest, List.append_nil] at hval
          exact ⟨⟨spaces, sign, digits, hval, hspaces, hsign, hne, hdigits, hvalue, hpos⟩, hle⟩
  · intro h
    obtain ⟨⟨spaces, sign, digits, rfl, hspaces, hsign, hne, hdigits, rfl, hpos⟩, hle⟩ := h
    have hread := strtol_numeral hspaces hsign hne hdigits (by omega)
    simp only [positiveLong, hread, List.isEmpty_nil, Bool.not_true, Bool.or_self, Bool.false_or]
    rw [if_neg (by simp; omega)]

/-! ## The options -/

/-- The options of a scan; a number stands beside its text. -/
inductive ScanOption
  | iAmAuthorized
  | authorizedBy (who : Bytes)
  | logLevel (text : Bytes) (lvl : LogLevel)
  | logFile (path : Bytes)
  | targetsFile (path : Bytes)
  | ports (spec : Bytes)
  | skipDiscovery
  | connectTimeoutMs (text : Bytes) (ms : ℤ)
  | discoveryTimeoutMs (text : Bytes) (ms : ℤ)
  | noBanner
  | pluginsDir (path : Bytes)
  | maxWorkers (text : Bytes) (n : ℤ)
  | target (spec : Bytes)
  deriving DecidableEq, Repr

def ScanOption.words : ScanOption → List Bytes
  | .iAmAuthorized => [ascii "--i-am-authorized"]
  | .authorizedBy who => [ascii "--authorized-by", who]
  | .logLevel text _ => [ascii "--log-level", text]
  | .logFile path => [ascii "--log-file", path]
  | .targetsFile path => [ascii "--targets-file", path]
  | .ports spec => [ascii "--ports", spec]
  | .skipDiscovery => [ascii "--skip-discovery"]
  | .connectTimeoutMs text _ => [ascii "--connect-timeout-ms", text]
  | .discoveryTimeoutMs text _ => [ascii "--discovery-timeout-ms", text]
  | .noBanner => [ascii "--no-banner"]
  | .pluginsDir path => [ascii "--plugins-dir", path]
  | .maxWorkers text _ => [ascii "--max-workers", text]
  | .target spec => [spec]

/-- What its value has to be. -/
def ScanOption.Valid : ScanOption → Prop
  | .logLevel text lvl => logLevelFromString text = some lvl
  | .connectTimeoutMs text ms | .discoveryTimeoutMs text ms => PositiveNumeral text ms ∧ ms ≤ intMax
  | .maxWorkers text n => PositiveNumeral text n ∧ n ≤ hardCapWorkers
  | .target spec => spec.head? ≠ some 0x2D
  | _ => True

/-- What it does to the arguments. -/
def ScanOption.set (a : ScanOptions) : ScanOption → ScanOptions
  | .iAmAuthorized => { a with hasIAmAuthorized := true }
  | .authorizedBy who => { a with authorizedBy := some who }
  | .logLevel _ lvl => { a with logLevel := lvl, hasLogLevel := true }
  | .logFile path => { a with logFile := some path }
  | .targetsFile path => { a with targetsFile := some path }
  | .ports spec => { a with portSpec := some spec }
  | .skipDiscovery => { a with skipDiscovery := true }
  | .connectTimeoutMs _ ms => { a with connectTimeoutMs := ms, hasConnectTimeoutMs := true }
  | .discoveryTimeoutMs _ ms => { a with discoveryTimeoutMs := ms, hasDiscoveryTimeoutMs := true }
  | .noBanner => { a with noBanner := true }
  | .pluginsDir path => { a with pluginsDir := some path }
  | .maxWorkers _ n => { a with maxWorkers := n, hasMaxWorkers := true }
  | .target spec => { a with targetSpec := some spec }

def ScanOption.targetSpec : ScanOption → Option Bytes
  | .target spec => some spec
  | _ => none

/-- The last of some values. -/
def lastOf {β : Type} (f : ScanOption → Option β) (opts : List ScanOption) : Option β :=
  (opts.filterMap f).getLast?

theorem lastOf_concat {β : Type} (f : ScanOption → Option β) (opts : List ScanOption)
    (o : ScanOption) : lastOf f (opts ++ [o]) = (f o).or (lastOf f opts) := by
  rw [lastOf, List.filterMap_append, List.filterMap_cons, List.filterMap_nil]
  cases f o with
  | none => simp [lastOf]
  | some v => simp

/-- The arguments that some options stand for. -/
def ScanOptions.of (opts : List ScanOption) : ScanOptions where
  targetSpec := lastOf ScanOption.targetSpec opts
  targetsFile := lastOf (fun | .targetsFile path => some path | _ => none) opts
  hasIAmAuthorized := decide (.iAmAuthorized ∈ opts)
  authorizedBy := lastOf (fun | .authorizedBy who => some who | _ => none) opts
  portSpec := lastOf (fun | .ports spec => some spec | _ => none) opts
  pluginsDir := lastOf (fun | .pluginsDir path => some path | _ => none) opts
  logLevel := (lastOf (fun | .logLevel _ lvl => some lvl | _ => none) opts).getD .info
  hasLogLevel := (lastOf (fun | .logLevel _ lvl => some lvl | _ => none) opts).isSome
  logFile := lastOf (fun | .logFile path => some path | _ => none) opts
  skipDiscovery := decide (.skipDiscovery ∈ opts)
  connectTimeoutMs :=
    (lastOf (fun | .connectTimeoutMs _ ms => some ms | _ => none) opts).getD 3000
  hasConnectTimeoutMs := (lastOf (fun | .connectTimeoutMs _ ms => some ms | _ => none) opts).isSome
  discoveryTimeoutMs :=
    (lastOf (fun | .discoveryTimeoutMs _ ms => some ms | _ => none) opts).getD 1000
  hasDiscoveryTimeoutMs :=
    (lastOf (fun | .discoveryTimeoutMs _ ms => some ms | _ => none) opts).isSome
  maxWorkers := (lastOf (fun | .maxWorkers _ n => some n | _ => none) opts).getD 64
  hasMaxWorkers := (lastOf (fun | .maxWorkers _ n => some n | _ => none) opts).isSome
  noBanner := decide (.noBanner ∈ opts)

theorem ScanOptions.of_concat (opts : List ScanOption) (o : ScanOption) :
    ScanOptions.of (opts ++ [o]) = o.set (ScanOptions.of opts) := by
  cases o <;> simp [ScanOptions.of, ScanOption.set, ScanOption.targetSpec, lastOf_concat]

theorem ScanOptions.of_eq_foldl (opts : List ScanOption) :
    ScanOptions.of opts = opts.foldl ScanOption.set .initial := by
  induction opts using List.reverseRecOn with
  | nil => rfl
  | append_singleton opts o ih => rw [ScanOptions.of_concat, List.foldl_concat, ih]

/-! ## The loop -/

/-- The target may come once. -/
def ScanOption.Free (a : ScanOptions) (o : ScanOption) : Prop :=
  o.targetSpec.isSome → a.targetSpec = none

theorem withNumber_ok {parsed : Except Bytes ℤ} {f : ℤ → ScanOptions} {b : ScanOptions} :
    withNumber parsed f = .ok b ↔ ∃ v, parsed = .ok v ∧ b = f v := by
  cases parsed with
  | error message => simp [withNumber]
  | ok v => simp [withNumber, eq_comm]

theorem cliParsePositiveInt_ok {flagName val unit : Bytes} {maxValue v : ℤ}
    (hmax : maxValue ≤ longMax) :
    cliParsePositiveInt flagName val maxValue unit = .ok v ↔
      PositiveNumeral val v ∧ v ≤ maxValue := by
  rw [← positiveLong_iff hmax, cliParsePositiveInt]
  cases positiveLong val maxValue with
  | none => simp
  | some v' => simp

variable {a b : ScanOptions}

/-- Every option of the loop is one of the list. -/
theorem scanOption_of_takes {i : Item Bytes} (h : i.Takes cliReading a b) :
    ∃ o : ScanOption, o.words = i.words ∧ o.Valid ∧ o.Free a ∧ b = o.set a := by
  have hfree : ∀ {o : ScanOption}, o.targetSpec = none → o.Free a := by
    intro o hnone hsome
    rw [hnone] at hsome
    cases hsome
  by_cases hhelp : i.first = ascii "--help"
  · exact absurd (by rw [hhelp]; rfl) (h.of_stop (e := .help))
  by_cases hversion : i.first = ascii "--version"
  · exact absurd (by rw [hversion]; rfl) (h.of_stop (e := .version))
  by_cases hiAmAuthorized : i.first = ascii "--i-am-authorized"
  · obtain ⟨hi, hf⟩ := h.of_alone (by rw [hiAmAuthorized]; rfl)
    cases hf
    exact ⟨.iAmAuthorized, by rw [hi, hiAmAuthorized]; rfl, trivial, hfree rfl, rfl⟩
  by_cases hskipDiscovery : i.first = ascii "--skip-discovery"
  · obtain ⟨hi, hf⟩ := h.of_alone (by rw [hskipDiscovery]; rfl)
    cases hf
    exact ⟨.skipDiscovery, by rw [hi, hskipDiscovery]; rfl, trivial, hfree rfl, rfl⟩
  by_cases hnoBanner : i.first = ascii "--no-banner"
  · obtain ⟨hi, hf⟩ := h.of_alone (by rw [hnoBanner]; rfl)
    cases hf
    exact ⟨.noBanner, by rw [hi, hnoBanner]; rfl, trivial, hfree rfl, rfl⟩
  by_cases hauthorizedBy : i.first = ascii "--authorized-by"
  · obtain ⟨v, hi, hf⟩ := h.of_valued (by rw [hauthorizedBy]; rfl)
    cases hf
    exact ⟨.authorizedBy v, by rw [hi, hauthorizedBy]; rfl, trivial, hfree rfl, rfl⟩
  by_cases hlogFile : i.first = ascii "--log-file"
  · obtain ⟨v, hi, hf⟩ := h.of_valued (by rw [hlogFile]; rfl)
    cases hf
    exact ⟨.logFile v, by rw [hi, hlogFile]; rfl, trivial, hfree rfl, rfl⟩
  by_cases htargetsFile : i.first = ascii "--targets-file"
  · obtain ⟨v, hi, hf⟩ := h.of_valued (by rw [htargetsFile]; rfl)
    cases hf
    exact ⟨.targetsFile v, by rw [hi, htargetsFile]; rfl, trivial, hfree rfl, rfl⟩
  by_cases hports : i.first = ascii "--ports"
  · obtain ⟨v, hi, hf⟩ := h.of_valued (by rw [hports]; rfl)
    cases hf
    exact ⟨.ports v, by rw [hi, hports]; rfl, trivial, hfree rfl, rfl⟩
  by_cases hpluginsDir : i.first = ascii "--plugins-dir"
  · obtain ⟨v, hi, hf⟩ := h.of_valued (by rw [hpluginsDir]; rfl)
    cases hf
    exact ⟨.pluginsDir v, by rw [hi, hpluginsDir]; rfl, trivial, hfree rfl, rfl⟩
  by_cases hconnectTimeoutMs : i.first = ascii "--connect-timeout-ms"
  · obtain ⟨v, hi, hf⟩ := h.of_valued (by rw [hconnectTimeoutMs]; rfl)
    obtain ⟨n, hparsed, rfl⟩ := withNumber_ok.mp hf
    exact ⟨.connectTimeoutMs v n, by rw [hi, hconnectTimeoutMs]; rfl,
      (cliParsePositiveInt_ok (by decide)).mp hparsed, hfree rfl, rfl⟩
  by_cases hdiscoveryTimeoutMs : i.first = ascii "--discovery-timeout-ms"
  · obtain ⟨v, hi, hf⟩ := h.of_valued (by rw [hdiscoveryTimeoutMs]; rfl)
    obtain ⟨n, hparsed, rfl⟩ := withNumber_ok.mp hf
    exact ⟨.discoveryTimeoutMs v n, by rw [hi, hdiscoveryTimeoutMs]; rfl,
      (cliParsePositiveInt_ok (by decide)).mp hparsed, hfree rfl, rfl⟩
  by_cases hmaxWorkers : i.first = ascii "--max-workers"
  · obtain ⟨v, hi, hf⟩ := h.of_valued (by rw [hmaxWorkers]; rfl)
    obtain ⟨n, hparsed, rfl⟩ := withNumber_ok.mp hf
    exact ⟨.maxWorkers v n, by rw [hi, hmaxWorkers]; rfl,
      (cliParsePositiveInt_ok (by decide)).mp hparsed, hfree rfl, rfl⟩
  by_cases hlogLevel : i.first = ascii "--log-level"
  · obtain ⟨v, hi, hf⟩ := h.of_valued (by rw [hlogLevel]; rfl)
    rw [takeLogLevel] at hf
    split at hf
    · next lvl hlvl =>
        cases hf
        exact ⟨.logLevel v lvl, by rw [hi, hlogLevel]; rfl, hlvl, hfree rfl, rfl⟩
    · cases hf
  by_cases hdash : i.first.head? = some 0x2D
  · obtain ⟨-, hf⟩ := h.of_alone (by
      rw [cliReading, if_neg hhelp, if_neg hversion, if_neg hiAmAuthorized, if_neg hauthorizedBy,
        if_neg hlogLevel, if_neg hlogFile, if_neg htargetsFile, if_neg hports, if_neg
        hskipDiscovery, if_neg hconnectTimeoutMs, if_neg hdiscoveryTimeoutMs, if_neg hnoBanner,
        if_neg hpluginsDir, if_neg hmaxWorkers, if_pos hdash])
    cases hf
  · obtain ⟨hi, hf⟩ := h.of_alone (f := takeTarget i.first) (by
      rw [cliReading, if_neg hhelp, if_neg hversion, if_neg hiAmAuthorized, if_neg hauthorizedBy,
        if_neg hlogLevel, if_neg hlogFile, if_neg htargetsFile, if_neg hports, if_neg
        hskipDiscovery, if_neg hconnectTimeoutMs, if_neg hdiscoveryTimeoutMs, if_neg hnoBanner,
        if_neg hpluginsDir, if_neg hmaxWorkers, if_neg hdash])
    rw [takeTarget] at hf
    split at hf
    · cases hf
    · next hnone =>
        cases hf
        exact ⟨.target i.first, by rw [hi]; rfl, hdash, fun _ => hnone, rfl⟩

/-- Every option of the list is one of the loop. -/
theorem takes_of_scanOption {o : ScanOption} (hvalid : o.Valid) (hfree : o.Free a) :
    ∃ i : Item Bytes, i.words = o.words ∧ i.Takes cliReading a (o.set a) := by
  cases o with
  | iAmAuthorized => exact ⟨.alone _, rfl, .alone rfl rfl⟩
  | skipDiscovery => exact ⟨.alone _, rfl, .alone rfl rfl⟩
  | noBanner => exact ⟨.alone _, rfl, .alone rfl rfl⟩
  | authorizedBy _ | logFile _ | targetsFile _ | ports _ | pluginsDir _ =>
      exact ⟨.valued _ _, rfl, .valued rfl rfl⟩
  | logLevel text lvl =>
      refine ⟨.valued _ text, rfl, .valued rfl ?_⟩
      have hlvl : logLevelFromString text = some lvl := hvalid
      rw [takeLogLevel, hlvl]
      rfl
  | connectTimeoutMs text ms | discoveryTimeoutMs text ms =>
      refine ⟨.valued _ text, rfl, .valued rfl (withNumber_ok.mpr ⟨ms, ?_, rfl⟩)⟩
      exact (cliParsePositiveInt_ok (by decide)).mpr hvalid
  | maxWorkers text n =>
      refine ⟨.valued _ text, rfl, .valued rfl (withNumber_ok.mpr ⟨n, ?_, rfl⟩)⟩
      exact (cliParsePositiveInt_ok (by decide)).mpr hvalid
  | target spec =>
      have hhead : spec.head? ≠ some 0x2D := hvalid
      have hword : ∀ w : Bytes, w.head? = some 0x2D → spec ≠ w := by
        intro w hw heq
        exact hhead (heq ▸ hw)
      have hread : cliReading spec = .alone (takeTarget spec) := by
        rw [cliReading]
        repeat rw [if_neg (hword _ rfl)]
        rw [if_neg hhead]
      refine ⟨.alone spec, rfl, .alone hread ?_⟩
      rw [takeTarget, hfree rfl]
      rfl

/-! ## The whole line -/

/-- The targets that a line names, behind those that were there. -/
def targetsOf (a : ScanOptions) (opts : List ScanOption) : List Bytes :=
  a.targetSpec.toList ++ opts.filterMap ScanOption.targetSpec

theorem targetsOf_set {o : ScanOption} (hfree : o.Free a) (opts : List ScanOption) :
    targetsOf (o.set a) opts = targetsOf a (o :: opts) := by
  cases o with
  | target spec =>
      rw [targetsOf, targetsOf, hfree rfl]
      rfl
  | _ => rfl

theorem free_of_targetsOf {o : ScanOption} {opts : List ScanOption}
    (h : (targetsOf a (o :: opts)).length ≤ 1) : o.Free a := by
  intro hsome
  obtain ⟨spec, hspec⟩ := Option.isSome_iff_exists.mp hsome
  cases hgiven : a.targetSpec with
  | none => rfl
  | some given =>
      simp only [targetsOf, hgiven, Option.toList_some, List.filterMap_cons, hspec,
        List.length_append, List.length_cons] at h
      omega

/-- The loop reads a line to its end exactly where the line is a list of valid
options that leaves at most one target. -/
theorem parse_cliReading_iff {args : List Bytes} :
    parse cliReading args a = .ok b ↔ ∃ opts : List ScanOption,
      args = opts.flatMap ScanOption.words ∧ (∀ o ∈ opts, o.Valid) ∧
      (targetsOf a opts).length ≤ 1 ∧ b = opts.foldl ScanOption.set a := by
  rw [parse_ok_iff]
  constructor
  · intro ⟨items, hargs, htakes⟩
    subst hargs
    induction htakes with
    | nil a =>
        refine ⟨[], rfl, by simp, ?_, rfl⟩
        rw [targetsOf, List.filterMap_nil, List.append_nil]
        cases a.targetSpec <;> simp
    | @cons i items a b c first _ ih =>
        obtain ⟨o, hwords, hvalid, hfree, rfl⟩ := scanOption_of_takes first
        obtain ⟨opts, hrest, hall, htargets, rfl⟩ := ih
        refine ⟨o :: opts, ?_, ?_, ?_, rfl⟩
        · rw [List.flatMap_cons, List.flatMap_cons, hwords, hrest]
        · intro o' ho'
          rcases List.mem_cons.mp ho' with rfl | ho'
          · exact hvalid
          · exact hall o' ho'
        · rwa [← targetsOf_set hfree]
  · intro ⟨opts, hargs, hall, htargets, hb⟩
    subst hargs hb
    induction opts generalizing a with
    | nil => exact ⟨[], rfl, .nil a⟩
    | cons o opts ih =>
        have hfree : o.Free a := free_of_targetsOf htargets
        obtain ⟨i, hwords, hfirst⟩ := takes_of_scanOption (hall o List.mem_cons_self) hfree
        obtain ⟨items, hrest, htakes⟩ := ih
          (fun o' ho' => hall o' (List.mem_cons_of_mem _ ho')) (by rwa [targetsOf_set hfree])
        refine ⟨i :: items, ?_, .cons hfirst htakes⟩
        rw [List.flatMap_cons, List.flatMap_cons, hwords, hrest]

theorem lastOf_eq_none {β : Type} {f : ScanOption → Option β} {opts : List ScanOption} :
    lastOf f opts = none ↔ ∀ o ∈ opts, f o = none := by
  rw [lastOf, List.getLast?_eq_none_iff, List.filterMap_eq_nil_iff]

/-- Where neither a target nor a targets file is named, both stay out. -/
theorem of_names_nothing (opts : List ScanOption) :
    ((ScanOptions.of opts).targetSpec.isNone && (ScanOptions.of opts).targetsFile.isNone) = true ↔
      ¬ ∃ o ∈ opts, ∃ text, o = .target text ∨ o = .targetsFile text := by
  rw [Bool.and_eq_true, Option.isNone_iff_eq_none, Option.isNone_iff_eq_none, ScanOptions.of,
    lastOf_eq_none, lastOf_eq_none]
  constructor
  · rintro ⟨htarget, hfile⟩ ⟨o, ho, text, rfl | rfl⟩
    · cases htarget _ ho
    · cases hfile _ ho
  · intro h
    refine ⟨fun o ho => ?_, fun o ho => ?_⟩
    · cases o with
      | target text => exact absurd ⟨_, ho, text, .inl rfl⟩ h
      | _ => rfl
    · cases o with
      | targetsFile path => exact absurd ⟨_, ho, path, .inr rfl⟩ h
      | _ => rfl

/-- A command line is accepted, with these arguments, if and only if it is a
list of valid options with at most one target, one of them names a target or a
targets file, and the arguments are what the options stand for. -/
theorem cliParseArgs_ok_iff (args : List Bytes) (a : ScanOptions) :
    cliParseArgs args = .ok a ↔ ∃ opts : List ScanOption,
      args = opts.flatMap ScanOption.words ∧ (∀ o ∈ opts, o.Valid) ∧
      (opts.filterMap ScanOption.targetSpec).length ≤ 1 ∧
      (∃ o ∈ opts, ∃ text, o = .target text ∨ o = .targetsFile text) ∧
      a = ScanOptions.of opts := by
  constructor
  · intro h
    rw [cliParseArgs] at h
    cases hparse : parse cliReading args .initial with
    | error stop =>
        rw [hparse] at h
        cases h
    | ok b =>
        obtain ⟨opts, hargs, hvalid, htargets, rfl⟩ := parse_cliReading_iff.mp hparse
        rw [← ScanOptions.of_eq_foldl] at hparse
        rw [hparse] at h
        simp only at h
        split at h
        · cases h
        · next hnamed =>
            cases h
            exact ⟨opts, hargs, hvalid, htargets, by rwa [of_names_nothing, not_not] at hnamed, rfl⟩
  · intro ⟨opts, hargs, hvalid, htargets, hnamed, ha⟩
    have hparse : parse cliReading args .initial = .ok a :=
      parse_cliReading_iff.mpr ⟨opts, hargs, hvalid, htargets, by rw [ha, ScanOptions.of_eq_foldl]⟩
    rw [cliParseArgs, hparse]
    simp only
    rw [if_neg]
    rw [ha, of_names_nothing, not_not]
    exact hnamed

end Cytadel.Cli
