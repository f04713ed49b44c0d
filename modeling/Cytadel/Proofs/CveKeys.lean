import Mathlib.Data.List.TakeWhile
import Cytadel.Proofs.RecordTables

/-!
# The key of a record

All three feeds key their rows by a CVE id, which is a decoded JSON string. What
the code sees of the string ends at its first NUL byte: the grammar is checked
on that part, and that part is the key. So the key is always an id, and it is
the string itself exactly when the string has no NUL byte; an id with something
behind a NUL byte is kept as the id in front of it, and takes its row.
-/

namespace Cytadel.Db

open Cytadel Lib

/-! ## Ids -/

/-- `^CVE-[0-9]{4}-[0-9]{4,}$`. -/
def IsCveId (id : Bytes) : Prop :=
  ∃ year number, id = ascii "CVE-" ++ (year ++ (ascii "-" ++ number)) ∧ year.length = 4 ∧
    (∀ c ∈ year, isDigitByte c = true) ∧ 4 ≤ number.length ∧ ∀ c ∈ number, isDigitByte c = true

theorem isCveId_of_valid {id : Bytes} (h : isValidCveId id = true) : IsCveId id := by
  rw [isValidCveId] at h
  split at h
  · cases h
  · next hlen =>
      split at h
      · cases h
      · next hcve =>
          split at h
          · cases h
          · next hyear =>
              split at h
              · cases h
              · next hdash =>
                  split at h
                  · cases h
                  · next hnumber =>
                      simp only [bne_iff_ne, ne_eq, not_not, Bool.not_eq_true', Bool.not_eq_false,
                        List.all_eq_true, decide_eq_true_eq] at hcve hyear hdash hnumber h
                      refine ⟨(id.drop 4).take 4, id.drop 9, ?_, ?_, hyear, h, hnumber⟩
                      · rw [← hcve, ← hdash]
                        have h9 : id.drop 9 = (id.drop 8).drop 1 := by rw [List.drop_drop]
                        have h8 : id.drop 8 = (id.drop 4).drop 4 := by rw [List.drop_drop]
                        rw [h9, List.take_append_drop, h8, List.take_append_drop,
                          List.take_append_drop]
                      · rw [List.length_take, List.length_drop]
                        omega

theorem isValidCveId_iff {id : Bytes} : isValidCveId id = true ↔ IsCveId id := by
  refine ⟨isCveId_of_valid, ?_⟩
  rintro ⟨year, number, rfl, hyear, hdigits, hnumber, hdigits'⟩
  have hcve : (ascii "CVE-").length = 4 := by decide
  have hdash : (ascii "-").length = 1 := by decide
  have hlen : ¬ (ascii "CVE-" ++ (year ++ (ascii "-" ++ number))).length < 13 := by
    simp only [List.length_append]
    omega
  have h4 : (ascii "CVE-" ++ (year ++ (ascii "-" ++ number))).drop 4 =
      year ++ (ascii "-" ++ number) := List.drop_left' hcve
  have h8 : (ascii "CVE-" ++ (year ++ (ascii "-" ++ number))).drop 8 =
      ascii "-" ++ number := by
    rw [show 8 = 4 + 4 from rfl, ← List.drop_drop, h4, List.drop_left' hyear]
  have h9 : (ascii "CVE-" ++ (year ++ (ascii "-" ++ number))).drop 9 = number := by
    rw [show 9 = 8 + 1 from rfl, ← List.drop_drop, h8, List.drop_left' hdash]
  have hall : year.all isDigitByte = true := List.all_eq_true.mpr hdigits
  have hall' : number.all isDigitByte = true := List.all_eq_true.mpr hdigits'
  rw [isValidCveId, if_neg hlen, List.take_left' hcve, h4, List.take_left' hyear, h8,
    List.take_left' hdash, h9, hall, hall']
  simpa using hnumber

/-- An id has no NUL byte. -/
theorem IsCveId.no_nul {id : Bytes} (h : IsCveId id) : 0 ∉ id := by
  obtain ⟨year, number, rfl, -, hyear, -, hnumber⟩ := h
  have hzero : isDigitByte 0 ≠ true := by decide
  simp only [List.mem_append, not_or]
  exact ⟨by decide, fun hm => hzero (hyear 0 hm), by decide, fun hm => hzero (hnumber 0 hm)⟩

/-! ## The id of a record -/

/-- Where a feed keeps the id of a record, as the parser decodes it. -/
def idString (feed : Feed) (e : Json) : Option Bytes :=
  let item :=
    match feed with
    | .nvd => jsonGetItem (jsonGetItem (some e) (ascii "cve")) (ascii "id")
    | .kev => jsonGetItem (some e) (ascii "cveID")
    | .epss => jsonGetItem (some e) (ascii "cve")
  match item with
  | some (.string s) => some s
  | _ => none

/-- The id that a record is read with, if it is accepted. -/
def acceptedId (feed : Feed) (w : World) (e : Json) : Option Bytes :=
  match feed with
  | .nvd => (readCve e).map (·.cveId)
  | .kev => (kevReader e).map (·.1)
  | .epss => (epssReader w e).map (·.1)

theorem readCveId_eq {obj : Option Json} {key id : Bytes} (h : readCveId obj key = some id) :
    ∃ s, jsonGetItem obj key = some (.string s) ∧ id = cstr s ∧ IsCveId id := by
  simp only [readCveId, jsonGetNonempty, jsonGetString] at h
  cases hitem : jsonGetItem obj key with
  | none => simp [hitem] at h
  | some item =>
      cases item with
      | string s =>
          rw [hitem] at h
          simp only [Option.filter_some] at h
          split at h
          · cases h
          · next raw hraw =>
              split at hraw
              · obtain rfl := Option.some.inj hraw
                split at h
                · cases h
                · next hid =>
                    simp only [Bool.or_eq_true, decide_eq_true_eq, Bool.not_eq_true', not_or,
                      Bool.not_eq_false] at hid
                    have hclip : clipInto (64 + 1) (cstr s) = cstr s := by
                      rw [clipInto, cstr_cstr, List.take_of_length_le (by omega)]
                    rw [hclip] at h
                    obtain rfl := Option.some.inj h
                    exact ⟨s, rfl, rfl, isCveId_of_valid hid.2⟩
              · cases hraw
      | _ => simp [hitem] at h

/-- An accepted id is the visible part of the string, and an id. -/
theorem acceptedId_eq {feed : Feed} {w : World} {e : Json} {id : Bytes}
    (h : acceptedId feed w e = some id) :
    ∃ s, idString feed e = some s ∧ id = cstr s ∧ IsCveId id := by
  cases feed with
  | nvd =>
      obtain ⟨r, hr, rfl⟩ := Option.map_eq_some_iff.mp h
      simp only [readCve, Option.bind_eq_bind, Option.bind_eq_some_iff, Option.pure_def,
        Option.some.injEq] at hr
      obtain ⟨id, hid, _, _, _, _, rfl⟩ := hr
      obtain ⟨s, hs, hcstr, hvalid⟩ := readCveId_eq hid
      exact ⟨s, by rw [idString, hs], hcstr, hvalid⟩
  | kev =>
      obtain ⟨p, hp, rfl⟩ := Option.map_eq_some_iff.mp h
      rw [kevReader] at hp
      split at hp
      · obtain ⟨r, hr, rfl⟩ := Option.map_eq_some_iff.mp hp
        simp only [readKev, Option.bind_eq_bind, Option.bind_eq_some_iff, Option.pure_def,
          Option.some.injEq] at hr
        obtain ⟨id, hid, _, _, _, _, _, _, _, _, rfl⟩ := hr
        obtain ⟨s, hs, hcstr, hvalid⟩ := readCveId_eq hid
        exact ⟨s, by rw [idString, hs], hcstr, hvalid⟩
      · cases hp
  | epss =>
      obtain ⟨p, hp, rfl⟩ := Option.map_eq_some_iff.mp h
      rw [epssReader] at hp
      split at hp
      · obtain ⟨r, hr, rfl⟩ := Option.map_eq_some_iff.mp hp
        simp only [readEpss, Option.bind_eq_bind, Option.bind_eq_some_iff, Option.pure_def,
          Option.some.injEq] at hr
        obtain ⟨id, hid, _, _, _, _, _, _, rfl⟩ := hr
        obtain ⟨s, hs, hcstr, hvalid⟩ := readCveId_eq hid
        exact ⟨s, by rw [idString, hs], hcstr, hvalid⟩
      · cases hp

/-! ## The row of a record -/

/-- One element of a feed: did it end without a fatal error? -/
def processElement (feed : Feed) (w : World) (e : Json) : Sql Bool :=
  match feed with
  | .nvd => do
      let r ← processOneCve e .zero
      pure (!r.2)
  | .kev => do
      let r ← processOneKev e .zero
      pure (!r.2)
  | .epss => do
      let r ← processOneEpss w e .zero
      pure (!r.2)

/-- The feed's own row of a key is not what it was. -/
def RowChanged (feed : Feed) (d d' : Tables) (key : Bytes) : Prop :=
  match feed with
  | .nvd => d'.cves key ≠ d.cves key
  | .kev => d'.kev key ≠ d.kev key
  | .epss => d'.epss key ≠ d.epss key

/-- Some processing of the element has stored a row under the key. -/
def StoredUnder (feed : Feed) (w : World) (e : Json) (key : Bytes) : Prop :=
  ∃ x x' : ℕ × Tables, (processElement feed w e).eval w.env x = (true, x') ∧
    RowChanged feed x.2 x'.2 key

/-- The statement of a KEV or EPSS record changes the row of its id alone. -/
theorem kevReader_row {e : Json} {id now : Bytes} {up : Bytes → Tables → Option Tables}
    {d d' : Tables} (h : kevReader e = some (id, up)) (hup : up now d = some d') {key : Bytes}
    (hne : key ≠ id) : d'.kev key = d.kev key := by
  rw [kevReader] at h
  split at h
  · obtain ⟨r, _, hr⟩ := Option.map_eq_some_iff.mp h
    obtain ⟨rfl, rfl⟩ := Prod.mk.inj hr
    rw [kevUpsert_eq hup]
    exact Function.update_of_ne hne _ _
  · cases h

theorem epssReader_row {w : World} {e : Json} {id now : Bytes}
    {up : Bytes → Tables → Option Tables} {d d' : Tables} (h : epssReader w e = some (id, up))
    (hup : up now d = some d') {key : Bytes} (hne : key ≠ id) : d'.epss key = d.epss key := by
  rw [epssReader] at h
  split at h
  · obtain ⟨r, _, hr⟩ := Option.map_eq_some_iff.mp h
    obtain ⟨rfl, rfl⟩ := Prod.mk.inj hr
    rw [epssUpsert_eq hup]
    exact Function.update_of_ne hne _ _
  · cases h

/-- What a KEV or EPSS record leaves where its own row is looked at. -/
theorem RecordEffect.row {env : Env Call Bytes} {read : Reader} {stmt : Stmt} {e : Json}
    {st st' : RecordCounts × Tables} (h : RecordEffect env read stmt e st st') :
    (st'.2.kev = st.2.kev ∧ st'.2.epss = st.2.epss) ∨
      ∃ id now up d₁, read e = some (id, up) ∧ up now d₁ = some st'.2 ∧ d₁.kev = st.2.kev ∧
        d₁.epss = st.2.epss := by
  cases h with
  | skipped c d => exact Or.inl ⟨rfl, rfl⟩
  | @placed c d d₁ id nowTs now up hread why hplace =>
      rw [insertPlaceholder_frame hplace]
      exact Or.inl ⟨rfl, rfl⟩
  | @ingested c d d₁ d' id nowTs now now' up hread hplace hup =>
      refine Or.inr ⟨id, now', up, d₁, hread, hup, ?_⟩
      rw [insertPlaceholder_frame hplace]
      exact ⟨rfl, rfl⟩

/-- The row is stored under the id that the element was read with. -/
theorem acceptedId_of_storedUnder {feed : Feed} {w : World} {e : Json} {key : Bytes}
    (h : StoredUnder feed w e key) : acceptedId feed w e = some key := by
  obtain ⟨x, x', hrun, hrow⟩ := h
  cases feed with
  | nvd =>
      rw [processElement, Prog.eval_bind, Prog.eval_pure] at hrun
      obtain ⟨⟨⟨c', fatal⟩, x₁⟩, hone⟩ : ∃ r, (processOneCve e .zero).eval w.env x = r := ⟨_, rfl⟩
      rw [hone] at hrun
      cases fatal <;> cases hrun
      obtain ⟨htab, -⟩ | ⟨r, now, rs, hr, -, htab, -⟩ := processOneCve_tables hone
      · rw [RowChanged, htab] at hrow
        exact absurd rfl hrow
      · rw [RowChanged, htab, insertCpes_cves] at hrow
        have hkey : key = r.cveId := by
          by_contra hne
          exact hrow (Function.update_of_ne hne _ _)
        rw [acceptedId, hr, hkey]
        rfl
  | kev =>
      rw [processElement, Prog.eval_bind, Prog.eval_pure] at hrun
      obtain ⟨⟨⟨c', fatal⟩, x₁⟩, hone⟩ : ∃ r, (processOneKev e .zero).eval w.env x = r := ⟨_, rfl⟩
      rw [hone] at hrun
      cases fatal <;> cases hrun
      have hfeed : (processRecord kevReader .kevUpsert 9 e .zero).eval w.env x =
          ((c', false), x₁) := by
        rw [← kevFeed_processOne true]
        exact hone
      obtain ⟨hkev, -⟩ | ⟨id, now, up, d₁, hread, hup, hkev, -⟩ :=
        (processRecord_effect kevReader_admitted hfeed).row
      · rw [RowChanged, hkev] at hrow
        exact absurd rfl hrow
      · have hkey : key = id := by
          by_contra hne
          refine hrow ?_
          rw [kevReader_row hread hup hne, hkev]
        rw [acceptedId, hread, hkey]
        rfl
  | epss =>
      rw [processElement, Prog.eval_bind, Prog.eval_pure] at hrun
      obtain ⟨⟨⟨c', fatal⟩, x₁⟩, hone⟩ : ∃ r, (processOneEpss w e .zero).eval w.env x = r :=
        ⟨_, rfl⟩
      rw [hone] at hrun
      cases fatal <;> cases hrun
      have hfeed : (processRecord (epssReader w) .epssUpsert 4 e .zero).eval w.env x =
          ((c', false), x₁) := by
        rw [← epssFeed_processOne w true]
        exact hone
      obtain ⟨-, hepss⟩ | ⟨id, now, up, d₁, hread, hup, -, hepss⟩ :=
        (processRecord_effect (epssReader_admitted w) hfeed).row
      · rw [RowChanged, hepss] at hrow
        exact absurd rfl hrow
      · have hkey : key = id := by
          by_contra hne
          refine hrow ?_
          rw [epssReader_row hread hup hne, hepss]
        rw [acceptedId, hread, hkey]
        rfl

/-- A stored key is a CVE id and the whole string exactly when the string has no
NUL byte. Two keys are one exactly when their strings agree before the first NUL
byte, so two strings without one have two keys if they differ. -/
theorem storedKey_iff {feed feed' : Feed} {w w' : World} {e e' : Json} {key key' : Bytes}
    (h : StoredUnder feed w e key) (h' : StoredUnder feed' w' e' key') :
    ∃ s s', idString feed e = some s ∧ idString feed' e' = some s' ∧
      (key = s ∧ IsCveId key ↔ 0 ∉ s) ∧ (key = key' ↔ cstr s = cstr s') ∧
      (0 ∉ s → 0 ∉ s' → s ≠ s' → key ≠ key') := by
  obtain ⟨s, hs, hkey, hid⟩ := acceptedId_eq (acceptedId_of_storedUnder h)
  obtain ⟨s', hs', hkey', -⟩ := acceptedId_eq (acceptedId_of_storedUnder h')
  refine ⟨s, s', hs, hs', ?_, by rw [hkey, hkey'], fun h0 h0' hne hk => hne ?_⟩
  · rw [and_iff_left hid, hkey]
    exact cstr_eq_self_iff
  · rw [hkey, hkey', cstr_eq_self_iff.mpr h0, cstr_eq_self_iff.mpr h0'] at hk
    exact hk

/-- An element of the NVD feed with this id. -/
def nvdElement (id : Bytes) : Json :=
  .object [(ascii "cve", .object [
    (ascii "id", .string id),
    (ascii "published", .string (ascii "2024-01-01T00:00:00.000")),
    (ascii "lastModified", .string (ascii "2024-01-02T00:00:00.000"))])]

/-- An element of the KEV feed with this id. -/
def kevElement (id : Bytes) : Json :=
  .object [
    (ascii "cveID", .string id),
    (ascii "dateAdded", .string (ascii "2024-01-03")),
    (ascii "vendorProject", .string (ascii "Acme")),
    (ascii "product", .string (ascii "httpd")),
    (ascii "vulnerabilityName", .string (ascii "Acme httpd"))]

def plainId : Bytes := ascii "CVE-2024-0001"

/-- The same id with something behind a NUL byte. -/
def hiddenId : Bytes := plainId ++ 0 :: ascii "evil"

theorem storedUnder_of_run {feed : Feed} {w : World} {e : Json} {key : Bytes} (x : ℕ × Tables)
    (hrun : ((processElement feed w e).eval w.env x).1 = true)
    (hrow : RowChanged feed x.2 ((processElement feed w e).eval w.env x).2.2 key) :
    StoredUnder feed w e key := ⟨x, _, Prod.ext hrun rfl, hrow⟩

set_option maxRecDepth 20000 in
theorem storedUnder_plain : StoredUnder .nvd (.reading []) (nvdElement plainId) plainId :=
  storedUnder_of_run (0, .seeded) (by decide) (by show _ ≠ _; decide)

set_option maxRecDepth 20000 in
theorem storedUnder_hidden : StoredUnder .nvd (.reading []) (nvdElement hiddenId) plainId :=
  storedUnder_of_run (0, .seeded) (by decide) (by show _ ≠ _; decide)

set_option maxRecDepth 20000 in
theorem storedUnder_kev : StoredUnder .kev (.reading []) (kevElement plainId) plainId :=
  storedUnder_of_run (0, .seeded) (by decide) (by show _ ≠ _; decide)

/-- One id from two feeds. -/
theorem storedKey_iff_plain : ∃ s s', idString .nvd (nvdElement plainId) = some s ∧
    idString .kev (kevElement plainId) = some s' ∧ (plainId = s ∧ IsCveId plainId ↔ 0 ∉ s) ∧
    (plainId = plainId ↔ cstr s = cstr s') ∧ (0 ∉ s → 0 ∉ s' → s ≠ s' → plainId ≠ plainId) :=
  storedKey_iff storedUnder_plain storedUnder_kev

/-- Two ids that differ behind a NUL byte take one row. -/
theorem storedKey_collides :
    idString .nvd (nvdElement plainId) = some plainId ∧
      idString .nvd (nvdElement hiddenId) = some hiddenId ∧ plainId ≠ hiddenId ∧
      StoredUnder .nvd (.reading []) (nvdElement plainId) plainId ∧
      StoredUnder .nvd (.reading []) (nvdElement hiddenId) plainId :=
  ⟨by decide, by decide, by decide, storedUnder_plain, storedUnder_hidden⟩

end Cytadel.Db
