import Cytadel.Proofs.CveKeys

/-!
# The components of a criteria string

A CPE 2.3 formatted string is a list of components between colons, and a
component may hold a colon behind a backslash. The splitter of the feed stops at
every colon. So what a row gets is the string's own vendor, product and version
exactly when none of the three holds one, or when there is no row: the part is
unknown, or what has moved into the place of the product is empty, or what has
moved into the place of the version is a wildcard without a bound.
-/

namespace Cytadel.Db

open Cytadel Lib

/-! ## Formatted strings -/

/-- A component: bytes as they are, and any byte behind a backslash. -/
inductive CpeComponent : Bytes → Prop
  | nil : CpeComponent []
  | plain {c : UInt8} {s : Bytes} (hcolon : c ≠ 0x3A) (hslash : c ≠ 0x5C) (hnul : c ≠ 0)
      (h : CpeComponent s) : CpeComponent (c :: s)
  | escaped {c : UInt8} {s : Bytes} (hnul : c ≠ 0) (h : CpeComponent s) :
      CpeComponent (0x5C :: c :: s)

/-- A CPE 2.3 formatted string, by its components. -/
structure CpeName where
  part : Bytes
  vendor : Bytes
  product : Bytes
  version : Bytes
  /-- Update, edition, language, and the four that follow. -/
  rest : List Bytes
  part_component : CpeComponent part
  vendor_component : CpeComponent vendor
  product_component : CpeComponent product
  version_component : CpeComponent version
  rest_components : ∀ c ∈ rest, CpeComponent c
  rest_length : rest.length = 7

def CpeName.components (n : CpeName) : List Bytes :=
  ascii "cpe" :: ascii "2.3" :: n.part :: n.vendor :: n.product :: n.version :: n.rest

/-- The string itself. -/
def CpeName.text (n : CpeName) : Bytes := [0x3A].intercalate n.components

/-- The lengths that the columns hold. -/
structure CpeName.Fits (n : CpeName) : Prop where
  text : n.text.length ≤ 1024
  vendor : n.vendor.length ≤ 256
  product : n.product.length ≤ 256
  version : n.version.length ≤ 128

def isComponent : Bytes → Bool
  | [] => true
  | [c] => c != 0x3A && c != 0x5C && c != 0
  | c :: d :: s =>
      if c = 0x5C then d != 0 && isComponent s
      else c != 0x3A && c != 0 && isComponent (d :: s)

theorem component_of_check : ∀ {s : Bytes}, isComponent s = true → CpeComponent s
  | [], _ => .nil
  | [c], h => by
      simp only [isComponent, Bool.and_eq_true, bne_iff_ne, ne_eq] at h
      exact .plain h.1.1 h.1.2 h.2 .nil
  | c :: d :: s, h => by
      rw [isComponent] at h
      split at h
      · next hc =>
          rw [Bool.and_eq_true, bne_iff_ne] at h
          rw [hc]
          exact .escaped h.1 (component_of_check h.2)
      · next hc =>
          simp only [Bool.and_eq_true, bne_iff_ne, ne_eq] at h
          exact .plain h.1.1 hc h.1.2 (component_of_check h.2)

theorem CpeComponent.no_nul {s : Bytes} (h : CpeComponent s) : 0 ∉ s := by
  induction h with
  | nil => exact List.not_mem_nil
  | plain _ _ hnul _ ih => exact List.not_mem_cons_of_ne_of_not_mem (Ne.symm hnul) ih
  | escaped hnul _ ih =>
      exact List.not_mem_cons_of_ne_of_not_mem (by decide)
        (List.not_mem_cons_of_ne_of_not_mem (Ne.symm hnul) ih)

/-- What stands before the first colon of a component ends in a backslash, and
what stands behind it is a component. -/
theorem CpeComponent.around_colon {s : Bytes} (h : CpeComponent s) :
    ∀ {p q : Bytes}, s = p ++ 0x3A :: q → 0x3A ∉ p →
      p.getLast? = some 0x5C ∧ CpeComponent q := by
  induction h with
  | nil =>
      intro p q heq
      cases p <;> cases heq
  | @plain c s hcolon hslash hnul _ ih =>
      intro p q heq hp
      cases p with
      | nil => exact absurd (List.cons.inj heq).1 hcolon
      | cons x p =>
          obtain ⟨rfl, hs⟩ := List.cons.inj heq
          obtain ⟨hlast, hq⟩ := ih hs fun hmem => hp (List.mem_cons_of_mem _ hmem)
          refine ⟨?_, hq⟩
          cases p with
          | nil => cases hlast
          | cons y p => rw [List.getLast?_cons_cons, hlast]
  | @escaped c s hnul hs' ih =>
      intro p q heq hp
      match p, heq with
      | [x], heq =>
          obtain ⟨rfl, hcs⟩ := List.cons.inj heq
          exact ⟨rfl, (List.cons.inj hcs).2 ▸ hs'⟩
      | x :: y :: p, heq =>
          obtain ⟨rfl, hcs⟩ := List.cons.inj heq
          obtain ⟨rfl, hs⟩ := List.cons.inj hcs
          obtain ⟨hlast, hq⟩ := ih hs fun hmem =>
            hp (List.mem_cons_of_mem _ (List.mem_cons_of_mem _ hmem))
          refine ⟨?_, hq⟩
          cases p with
          | nil => cases hlast
          | cons z p => rw [List.getLast?_cons_cons, List.getLast?_cons_cons, hlast]

/-- How the splitter sees one component: whole, or up to its first colon, which
stands behind a backslash, and then the rest, which is a component again. -/
theorem CpeComponent.splitOn_cases {s : Bytes} (h : CpeComponent s) :
    (0x3A ∉ s ∧ s.splitOn 0x3A = [s]) ∨
      ∃ p q, s = p ++ 0x3A :: q ∧ 0x3A ∉ p ∧ s.splitOn 0x3A = p :: q.splitOn 0x3A ∧
        p.getLast? = some 0x5C ∧ CpeComponent q := by
  by_cases hmem : 0x3A ∈ s
  · obtain ⟨p, q, rfl, hp⟩ := List.eq_append_cons_of_mem hmem
    exact Or.inr ⟨p, q, rfl, hp, List.splitOn_append_cons_self_of_not_mem hp q,
      h.around_colon rfl hp⟩
  · exact Or.inl ⟨hmem, List.splitOn_eq_singleton hmem⟩

/-- The first piece of a component, for a text that no backslash ends. -/
theorem CpeComponent.first_piece {s : Bytes} (h : CpeComponent s) :
    ∃ p ps, s.splitOn 0x3A = p :: ps ∧
      ∀ t, 0x3A ∉ t → t.getLast? ≠ some 0x5C → (p = t ↔ s = t) := by
  obtain ⟨-, hs⟩ | ⟨p, q, rfl, -, hs, hlast, -⟩ := h.splitOn_cases
  · exact ⟨s, [], hs, fun _ _ _ => Iff.rfl⟩
  · refine ⟨p, _, hs, fun t hcolon ht => iff_of_false ?_ ?_⟩
    · rintro rfl
      exact ht hlast
    · rintro rfl
      exact hcolon (List.mem_append_right _ List.mem_cons_self)

/-- The fields of a joined list are the fields of its parts. -/
theorem splitOn_join (x : UInt8) (c : Bytes) (cs : List Bytes) :
    ([x].intercalate (c :: cs)).splitOn x = (c :: cs).flatMap (List.splitOn x) := by
  induction cs generalizing c with
  | nil => simp [List.intercalate]
  | cons d cs ih =>
      have hjoin : [x].intercalate (c :: d :: cs) = c ++ x :: [x].intercalate (d :: cs) := by
        simp [List.intercalate, List.intersperse]
      rw [hjoin, List.splitOn_append_cons_self, ih]
      rfl

theorem mem_join_nul {cs : List Bytes} (h : ∀ c ∈ cs, 0 ∉ c) : 0 ∉ [0x3A].intercalate cs := by
  induction cs with
  | nil => simp [List.intercalate]
  | cons c cs ih =>
      have hc := h c List.mem_cons_self
      have hrest := ih fun d hd => h d (List.mem_cons_of_mem _ hd)
      cases cs with
      | nil => simpa [List.intercalate] using hc
      | cons d cs =>
          have hjoin : [0x3A].intercalate (c :: d :: cs) =
              c ++ 0x3A :: [0x3A].intercalate (d :: cs) := by
            simp [List.intercalate, List.intersperse]
          rw [hjoin, List.mem_append, List.mem_cons]
          rintro (hmem | hmem | hmem)
          · exact hc hmem
          · cases hmem
          · exact hrest hmem

theorem CpeName.no_nul (n : CpeName) : 0 ∉ n.text := by
  refine mem_join_nul fun c hc => ?_
  simp only [CpeName.components, List.mem_cons] at hc
  rcases hc with rfl | rfl | rfl | rfl | rfl | rfl | hc
  · decide
  · decide
  · exact n.part_component.no_nul
  · exact n.vendor_component.no_nul
  · exact n.product_component.no_nul
  · exact n.version_component.no_nul
  · exact (n.rest_components c hc).no_nul

theorem CpeName.splitOn_text (n : CpeName) :
    n.text.splitOn 0x3A = [ascii "cpe", ascii "2.3"] ++ n.part.splitOn 0x3A ++
      n.vendor.splitOn 0x3A ++ n.product.splitOn 0x3A ++ n.version.splitOn 0x3A ++
      n.rest.flatMap (List.splitOn 0x3A) := by
  have hcpe : (ascii "cpe").splitOn 0x3A = [ascii "cpe"] := by decide
  have hversion : (ascii "2.3").splitOn 0x3A = [ascii "2.3"] := by decide
  rw [CpeName.text, CpeName.components, splitOn_join]
  simp only [List.flatMap_cons, hcpe, hversion, List.append_assoc]
  rfl

/-! ## What is read of one -/

/-- The row has the components of the string. -/
structure CpeName.Exact (n : CpeName) (row : CpeRow) : Prop where
  part : row.part = n.part
  vendor : row.vendor = n.vendor.map toLowerAscii
  product : row.product = n.product.map toLowerAscii
  version : row.version = n.version

/-- No colon in the three components that are stored as text. -/
def CpeName.ColonFree (n : CpeName) : Prop :=
  0x3A ∉ n.vendor ∧ 0x3A ∉ n.product ∧ 0x3A ∉ n.version

def noBound (m : Json) : Bool :=
  (readBound m (ascii "versionStartIncluding")).isEmpty &&
    (readBound m (ascii "versionStartExcluding")).isEmpty &&
    (readBound m (ascii "versionEndIncluding")).isEmpty &&
    (readBound m (ascii "versionEndExcluding")).isEmpty

/-- There is no row for the string: the part is none of the three, a text that
is empty stands where vendor or product are looked for, or a wildcard where the
version is and the entry has no bound. A colon in the vendor moves the rest of
it into the place of the product, and what follows by one place; a colon in the
product moves the rest of it into that of the version. -/
inductive CpeName.Refused (n : CpeName) (m : Json) : Prop
  | part (h : n.part ∉ [ascii "a", ascii "o", ascii "h"])
  | noVendor (h : n.vendor = [])
  | noProduct (hvendor : 0x3A ∉ n.vendor) (h : n.product = [])
  | vendorRest {v : Bytes} (hv : 0x3A ∉ v) (h : n.vendor = v ++ [0x3A])
  | vendorMoves {v w : Bytes} (hv : 0x3A ∉ v) (hw : 0x3A ∉ w) (h : n.vendor = v ++ 0x3A :: w)
      (hproduct : n.product = ascii "*") (hbound : noBound m = true)
  | vendorStar {v w : Bytes} (hv : 0x3A ∉ v) (hw : 0x3A ∉ w)
      (h : n.vendor = v ++ 0x3A :: (w ++ 0x3A :: ascii "*")) (hbound : noBound m = true)
  | productStar {p : Bytes} (hvendor : 0x3A ∉ n.vendor) (hp : 0x3A ∉ p)
      (h : n.product = p ++ 0x3A :: ascii "*") (hbound : noBound m = true)

/-- The fields that the splitter finds are refused. -/
def FieldsRefused (uri : Bytes) (m : Json) : Prop :=
  (∀ part ∈ [ascii "a", ascii "o", ascii "h"], cpe23Field uri 2 ≠ some part) ∨
    cpe23Field uri 3 = some [] ∨ cpe23Field uri 4 = some [] ∨
    (cpe23Field uri 5 = some (ascii "*") ∧ noBound m = true)

theorem take_eq_star {s : Bytes} : s.take 128 = ascii "*" ↔ s = ascii "*" := by
  constructor
  · intro h
    have hlen : (s.take 128).length = 1 := by rw [h]; rfl
    rw [List.length_take] at hlen
    rwa [List.take_of_length_le (by omega)] at h
  · rintro rfl
    rfl

section Entry

variable {n : CpeName} {m : Json} {f2 f3 f4 f5 : Bytes}
  (hcrit : jsonGetString (some m) (ascii "criteria") = some n.text)
  (hlen : n.text.length ≤ 1024)
  (h2 : cpe23Field n.text 2 = some f2) (h3 : cpe23Field n.text 3 = some f3)
  (h4 : cpe23Field n.text 4 = some f4) (h5 : cpe23Field n.text 5 = some f5)
include hcrit hlen h2 h3 h4 h5

/-- What is read of an entry with these fields. -/
theorem readCpeMatch_fields :
    (FieldsRefused n.text m ∧ readCpeMatch m = none) ∨
      (¬ FieldsRefused n.text m ∧ ∃ r, readCpeMatch m = some r ∧ r.part = f2 ∧
        r.vendor = (f3.take 256).map toLowerAscii ∧ r.product = (f4.take 256).map toLowerAscii ∧
        r.version = f5.take 128) := by
  have hnonempty : n.text ≠ [] := by
    intro hnil
    rw [hnil] at h2
    cases h2
  have huri : clipInto (1024 + 1) n.text = n.text := by
    rw [clipInto, cstr_eq_self_iff.mpr n.no_nul, List.take_of_length_le hlen]
  have hread : jsonGetNonempty (some m) (ascii "criteria") = some n.text := by
    rw [jsonGetNonempty, hcrit]
    simp [hnonempty]
  have hrefused : FieldsRefused n.text m ↔ [ascii "a", ascii "o", ascii "h"].contains f2 = false ∨
      (f3.isEmpty || f4.isEmpty) = true ∨ (f5 = ascii "*" ∧ noBound m = true) := by
    simp only [FieldsRefused, h2, h3, h4, h5, Option.some.injEq, ne_eq, List.isEmpty_iff,
      Bool.or_eq_true, or_assoc, List.contains_eq_mem, decide_eq_false_iff_not]
    refine or_congr ⟨fun h hmem => h f2 hmem rfl, fun h part hpart heq => h (heq ▸ hpart)⟩ Iff.rfl
  rw [hrefused, readCpeMatch, hread]
  simp only [Option.bind_eq_bind, Option.bind_some, huri, h2, h3, h4, h5]
  cases hpart : [ascii "a", ascii "o", ascii "h"].contains f2 with
  | false => exact Or.inl ⟨Or.inl rfl, rfl⟩
  | true =>
      cases hempty : f3.isEmpty || f4.isEmpty with
      | true => exact Or.inl ⟨Or.inr (Or.inl rfl), rfl⟩
      | false =>
          have hstar : (clipIntoN (128 + 1) f5 == ascii "*") = true ↔ f5 = ascii "*" := by
            rw [beq_iff_eq, clipIntoN]
            exact take_eq_star
          by_cases hbad : f5 = ascii "*" ∧ noBound m = true
          · refine Or.inl ⟨Or.inr (Or.inr hbad), ?_⟩
            simp only [Bool.not_true, Bool.false_eq_true, if_false]
            rw [if_pos]
            exact Bool.and_eq_true_iff.mpr ⟨hstar.mpr hbad.1, hbad.2⟩
          · refine Or.inr ⟨by simp [hbad], ?_⟩
            simp only [Bool.not_true, Bool.false_eq_true, if_false]
            rw [if_neg]
            · exact ⟨_, rfl, rfl, rfl, rfl, rfl⟩
            · intro hcond
              obtain ⟨hv, hbound⟩ := Bool.and_eq_true_iff.mp hcond
              exact hbad ⟨hstar.mp hv, hbound⟩

end Entry

/-! ## What is stored of one -/

/-- Some processing of the entry has added the row. -/
def AddsRow (cveId : Bytes) (m : Json) (row : CpeRow) : Prop :=
  ∃ (env : Env Call Bytes) (c c' : NvdCounts) (x x' : ℕ × Tables),
    (processOneCpeMatch cveId m c).eval env x = ((c', false), x') ∧
      row ∈ x'.2.cveCpeMatches ∧ row ∉ x.2.cveCpeMatches

theorem AddsRow.read {cveId : Bytes} {m : Json} {row : CpeRow} (h : AddsRow cveId m row) :
    ∃ r id, readCpeMatch m = some r ∧ row = r.row cveId id := by
  obtain ⟨env, c, c', x, x', hrun, hnew, hold⟩ := h
  cases hr : readCpeMatch m with
  | none =>
      rw [processOneCpeMatch, hr, Prog.eval_pure] at hrun
      cases hrun
      exact absurd hnew hold
  | some r =>
      obtain ⟨_, -, n, he⟩ | ⟨n, he⟩ | ⟨-, n, he⟩ | ⟨d, hd, n, he⟩ :=
        processOneCpeMatch_cases env cveId hr c x <;> rw [he] at hrun <;> cases hrun
      · exact absurd hnew hold
      · exact absurd hnew hold
      · refine ⟨r, nextRowId (x.2.cveCpeMatches.map (·.id)), rfl, ?_⟩
        simp only [cpeInsert] at hd
        split at hd
        · cases hd
        · split at hd
          · cases hd
            exact absurd hnew hold
          · split at hd
            · cases hd
            · cases hd
              simpa [hold] using hnew

/-- An entry that is read can be stored. -/
theorem addsRow_of_read {m : Json} {r : CpeRecord} (hr : readCpeMatch m = some r)
    (cveId : Bytes) : ∃ id, AddsRow cveId m (r.row cveId id) := by
  obtain ⟨d, hd⟩ : ∃ d : Tables,
      d = { Tables.seeded with cves := fun _ => some (placeholderRow [] []) } := ⟨_, rfl⟩
  have hinsert : ∀ now, cpeInsert cveId r now d =
      some { d with cveCpeMatches := [r.row cveId (nextRowId [])] } := by
    intro now
    rw [hd, cpeInsert]
    simp only [Tables.seeded, List.map_nil, readCpeMatch_check hr]
    rfl
  refine ⟨nextRowId [], quietEnv, .zero, NvdCounts.zero.ingestCpe, (0, d),
    (0 + 11 + 1, { d with cveCpeMatches := [r.row cveId (nextRowId [])] }), ?_, ?_, ?_⟩
  · rw [processOneCpeMatch, hr]
    simp only [Prog.eval_bind]
    obtain ⟨-, hb⟩ | ⟨i, -, hf, -⟩ :=
      Prog.attemptAll_cases quietEnv (Call.bind .cpeInsert) 11 (0, d)
    · rw [hb]
      simp only [if_true, Prog.eval_bind]
      obtain ⟨hf, -⟩ | ⟨-, hn, -⟩ | ⟨-, d', hd', hs⟩ :=
        Prog.exec_cases quietEnv (Call.step .cpeInsert) (cpeInsert cveId r) (0 + 11, d)
      · cases hf
      · rw [hinsert] at hn
        cases hn
      · rw [hinsert] at hd'
        cases hd'
        rw [hs]
        rfl
    · cases hf
  · exact List.mem_singleton_self _
  · rw [hd]
    exact List.not_mem_nil

theorem fields_exist (n : CpeName) :
    ∃ f2 f3 f4 f5, cpe23Field n.text 2 = some f2 ∧ cpe23Field n.text 3 = some f3 ∧
      cpe23Field n.text 4 = some f4 ∧ cpe23Field n.text 5 = some f5 := by
  have hpos : ∀ s : Bytes, 0 < (s.splitOn 0x3A).length :=
    fun s => List.length_pos_of_ne_nil (List.splitOn_ne_nil _ _)
  have hlen : 5 < (n.text.splitOn 0x3A).length := by
    have := hpos n.part
    have := hpos n.vendor
    have := hpos n.product
    have := hpos n.version
    rw [n.splitOn_text]
    simp only [List.length_append, List.length_cons, List.length_nil]
    omega
  exact ⟨_, _, _, _, List.getElem?_eq_getElem (by omega), List.getElem?_eq_getElem (by omega),
    List.getElem?_eq_getElem (by omega), List.getElem?_eq_getElem hlen⟩

/-- The three fields behind a part without a colon: each is its component, or
the first component with a colon has been cut short. -/
theorem fields_cases (n : CpeName) {f3 f4 f5 : Bytes} (hpart : 0x3A ∉ n.part)
    (h3 : cpe23Field n.text 3 = some f3) (h4 : cpe23Field n.text 4 = some f4)
    (h5 : cpe23Field n.text 5 = some f5) :
    (n.ColonFree ∧ f3 = n.vendor ∧ f4 = n.product ∧ f5 = n.version) ∨
      (¬ n.ColonFree ∧ (f3.length < n.vendor.length ∨ f4.length < n.product.length ∨
        f5.length < n.version.length)) := by
  have hshort : ∀ {s p q : Bytes}, s = p ++ 0x3A :: q → 0x3A ∈ s ∧ p.length < s.length := by
    rintro s p q rfl
    refine ⟨List.mem_append_right _ List.mem_cons_self, ?_⟩
    rw [List.length_append, List.length_cons]
    omega
  simp only [cpe23Field, n.splitOn_text, List.splitOn_eq_singleton hpart] at h3 h4 h5
  obtain ⟨hv, hvs⟩ | ⟨p, q, heq, -, hvs, -⟩ := n.vendor_component.splitOn_cases
  · obtain ⟨hp, hps⟩ | ⟨p, q, heq, -, hps, -⟩ := n.product_component.splitOn_cases
    · obtain ⟨hw, hws⟩ | ⟨p, q, heq, -, hws, -⟩ := n.version_component.splitOn_cases
      · rw [hvs, hps, hws] at h3 h4 h5
        exact Or.inl ⟨⟨hv, hp, hw⟩, (Option.some.inj h3).symm, (Option.some.inj h4).symm,
          (Option.some.inj h5).symm⟩
      · rw [hvs, hps, hws] at h5
        obtain rfl : p = f5 := Option.some.inj h5
        exact Or.inr ⟨fun h => h.2.2 (hshort heq).1, Or.inr (Or.inr (hshort heq).2)⟩
    · rw [hvs, hps] at h4
      obtain rfl : p = f4 := Option.some.inj h4
      exact Or.inr ⟨fun h => h.2.1 (hshort heq).1, Or.inr (Or.inl (hshort heq).2)⟩
  · rw [hvs] at h3
    obtain rfl : p = f3 := Option.some.inj h3
    exact Or.inr ⟨fun h => h.1 (hshort heq).1, Or.inl (hshort heq).2⟩

/-- A part that passes has no colon. -/
theorem part_no_colon {part : Bytes} (h : part ∈ [ascii "a", ascii "o", ascii "h"]) :
    0x3A ∉ part := by
  have hall : ∀ p ∈ [ascii "a", ascii "o", ascii "h"], 0x3A ∉ p := by decide
  exact hall part h

/-- The part field is what is compared, and for this it may be the component. -/
theorem part_field_iff (n : CpeName) {part : Bytes}
    (h : part ∈ [ascii "a", ascii "o", ascii "h"]) :
    cpe23Field n.text 2 = some part ↔ n.part = part := by
  have hlast : ∀ p ∈ [ascii "a", ascii "o", ascii "h"], p.getLast? ≠ some 0x5C := by decide
  obtain ⟨p, ps, hps, hiff⟩ := n.part_component.first_piece
  simp only [cpe23Field, n.splitOn_text, hps]
  rw [← hiff part (part_no_colon h) (hlast part h)]
  exact Option.some_inj

/-- A text has one first colon. -/
theorem colon_inj {v v' w w' : Bytes} (hv : 0x3A ∉ v) (hv' : 0x3A ∉ v')
    (h : v ++ 0x3A :: w = v' ++ 0x3A :: w') : v = v' ∧ w = w' := by
  induction v generalizing v' with
  | nil =>
      cases v' with
      | nil => exact ⟨rfl, (List.cons.inj h).2⟩
      | cons c v' =>
          obtain ⟨rfl, -⟩ := List.cons.inj h
          exact absurd List.mem_cons_self hv'
  | cons c v ih =>
      cases v' with
      | nil =>
          obtain ⟨rfl, -⟩ := List.cons.inj h
          exact absurd List.mem_cons_self hv
      | cons c' v' =>
          obtain ⟨rfl, hrest⟩ := List.cons.inj h
          obtain ⟨rfl, rfl⟩ := ih (fun hm => hv (List.mem_cons_of_mem _ hm))
            (fun hm => hv' (List.mem_cons_of_mem _ hm)) hrest
          exact ⟨rfl, rfl⟩

theorem mem_colon (v w : Bytes) : 0x3A ∈ v ++ 0x3A :: w :=
  List.mem_append_right _ List.mem_cons_self

theorem star_no_colon : 0x3A ∉ ascii "*" := by decide

section Moved

variable {n : CpeName} {m : Json} (hpart : n.part ∈ [ascii "a", ascii "o", ascii "h"])
include hpart

/-- With a part that passes, the fields behind it decide. -/
theorem fieldsRefused_behind {f3 f4 f5 : Bytes} {fs : List Bytes}
    (hfields : n.vendor.splitOn 0x3A ++ n.product.splitOn 0x3A ++ n.version.splitOn 0x3A ++
      n.rest.flatMap (List.splitOn 0x3A) = f3 :: f4 :: f5 :: fs) :
    FieldsRefused n.text m ↔
      f3 = [] ∨ f4 = [] ∨ (f5 = ascii "*" ∧ noBound m = true) := by
  have hsplit : n.text.splitOn 0x3A =
      ascii "cpe" :: ascii "2.3" :: n.part :: f3 :: f4 :: f5 :: fs := by
    rw [n.splitOn_text, List.splitOn_eq_singleton (part_no_colon hpart)]
    simp only [List.append_assoc] at hfields ⊢
    rw [hfields]
    rfl
  have hpass : ¬ ∀ part ∈ [ascii "a", ascii "o", ascii "h"], some n.part ≠ some part :=
    fun hall => hall n.part hpart rfl
  simp only [FieldsRefused, cpe23Field, hsplit]
  exact (or_iff_right hpass).trans (by simp)

/-- A colon in the product moves the rest of it into the place of the
version. -/
theorem fieldsRefused_product {p q : Bytes} (hvendor : 0x3A ∉ n.vendor) (hp : 0x3A ∉ p)
    (heq : n.product = p ++ 0x3A :: q) : FieldsRefused n.text m ↔ n.Refused m := by
  obtain ⟨hlast, hq⟩ := n.product_component.around_colon heq hp
  obtain ⟨f, fs, hqs, hstar⟩ := hq.first_piece
  have hps : n.product.splitOn 0x3A = p :: f :: fs := by
    rw [heq, List.splitOn_append_cons_self_of_not_mem hp, hqs]
  have hpnil : p ≠ [] := by
    rintro rfl
    cases hlast
  rw [fieldsRefused_behind hpart
    (by rw [List.splitOn_eq_singleton hvendor, hps]; rfl), hstar _ star_no_colon (by decide)]
  constructor
  · rintro (hnil | hnil | ⟨rfl, hbound⟩)
    · exact .noVendor hnil
    · exact absurd hnil hpnil
    · exact .productStar hvendor hp heq hbound
  · intro h
    cases h with
    | part h => exact absurd hpart h
    | noVendor h => exact Or.inl h
    | noProduct _ h =>
        rw [heq] at h
        exact absurd h (by simp)
    | vendorRest _ h => exact absurd (h ▸ mem_colon _ _) hvendor
    | vendorMoves _ _ h => exact absurd (h ▸ mem_colon _ _) hvendor
    | vendorStar _ _ h => exact absurd (h ▸ mem_colon _ _) hvendor
    | productStar _ hp' h hbound =>
        obtain ⟨-, rfl⟩ := colon_inj hp hp' (heq.symm.trans h)
        exact Or.inr (Or.inr ⟨rfl, hbound⟩)

/-- A colon in the version moves nothing into these places. -/
theorem fieldsRefused_version (hvendor : 0x3A ∉ n.vendor) (hproduct : 0x3A ∉ n.product)
    (hversion : 0x3A ∈ n.version) : FieldsRefused n.text m ↔ n.Refused m := by
  obtain ⟨f, fs, hws, hstar⟩ := n.version_component.first_piece
  have hcut : f ≠ ascii "*" := by
    rw [Ne, hstar _ star_no_colon (by decide)]
    rintro h
    exact star_no_colon (h ▸ hversion)
  rw [fieldsRefused_behind hpart (by
    rw [List.splitOn_eq_singleton hvendor, List.splitOn_eq_singleton hproduct, hws]
    rfl)]
  constructor
  · rintro (hnil | hnil | ⟨h, -⟩)
    · exact .noVendor hnil
    · exact .noProduct hvendor hnil
    · exact absurd h hcut
  · intro h
    cases h with
    | part h => exact absurd hpart h
    | noVendor h => exact Or.inl h
    | noProduct _ h => exact Or.inr (Or.inl h)
    | vendorRest _ h => exact absurd (h ▸ mem_colon _ _) hvendor
    | vendorMoves _ _ h => exact absurd (h ▸ mem_colon _ _) hvendor
    | vendorStar _ _ h => exact absurd (h ▸ mem_colon _ _) hvendor
    | productStar _ _ h => exact absurd (h ▸ mem_colon _ _) hproduct

/-- A colon in the vendor moves the rest of it into the place of the product,
and a second one the rest behind that into the place of the version. -/
theorem fieldsRefused_vendor {v w : Bytes} (hv : 0x3A ∉ v) (heq : n.vendor = v ++ 0x3A :: w) :
    FieldsRefused n.text m ↔ n.Refused m := by
  obtain ⟨hlast, hw⟩ := n.vendor_component.around_colon heq hv
  have hcolon : 0x3A ∈ n.vendor := heq ▸ mem_colon v w
  have hvnil : v ≠ [] := by
    rintro rfl
    cases hlast
  have hvnonempty : n.vendor ≠ [] := List.ne_nil_of_mem hcolon
  have hvs : n.vendor.splitOn 0x3A = v :: w.splitOn 0x3A := by
    rw [heq, List.splitOn_append_cons_self_of_not_mem hv]
  obtain ⟨hwfree, hws⟩ | ⟨p, q, rfl, hp, hws, hplast, hq⟩ := hw.splitOn_cases
  · obtain ⟨f, fs, hps, hstar⟩ := n.product_component.first_piece
    rw [fieldsRefused_behind hpart (by rw [hvs, hws, hps]; rfl),
      hstar _ star_no_colon (by decide)]
    constructor
    · rintro (hnil | rfl | ⟨hproduct, hbound⟩)
      · exact absurd hnil hvnil
      · exact .vendorRest hv heq
      · exact .vendorMoves hv hwfree heq hproduct hbound
    · intro h
      cases h with
      | part h => exact absurd hpart h
      | noVendor h => exact absurd h hvnonempty
      | noProduct h => exact absurd hcolon h
      | vendorRest hv' h => exact Or.inr (Or.inl (colon_inj hv hv' (heq.symm.trans h)).2)
      | vendorMoves _ _ _ hproduct hbound => exact Or.inr (Or.inr ⟨hproduct, hbound⟩)
      | vendorStar hv' _ h =>
          obtain ⟨-, rfl⟩ := colon_inj hv hv' (heq.symm.trans h)
          exact absurd (mem_colon _ _) hwfree
      | productStar h => exact absurd hcolon h
  · obtain ⟨f, fs, hqs, hstar⟩ := hq.first_piece
    have hpnil : p ≠ [] := by
      rintro rfl
      cases hplast
    rw [fieldsRefused_behind hpart (by rw [hvs, hws, hqs]; rfl),
      hstar _ star_no_colon (by decide)]
    constructor
    · rintro (hnil | hnil | ⟨rfl, hbound⟩)
      · exact absurd hnil hvnil
      · exact absurd hnil hpnil
      · exact .vendorStar hv hp heq hbound
    · intro h
      cases h with
      | part h => exact absurd hpart h
      | noVendor h => exact absurd h hvnonempty
      | noProduct h => exact absurd hcolon h
      | vendorRest hv' h =>
          have hrest := (colon_inj hv hv' (heq.symm.trans h)).2
          exact absurd hrest (by simp)
      | vendorMoves hv' hw' h =>
          obtain ⟨-, rfl⟩ := colon_inj hv hv' (heq.symm.trans h)
          exact absurd (mem_colon _ _) hw'
      | vendorStar hv' hw' h hbound =>
          obtain ⟨-, hrest⟩ := colon_inj hv hv' (heq.symm.trans h)
          exact Or.inr (Or.inr ⟨(colon_inj hp hw' hrest).2, hbound⟩)
      | productStar h => exact absurd hcolon h

end Moved

/-- Where vendor, product or version have a colon, the fields are refused
exactly for what stands in the components. -/
theorem fieldsRefused_iff {n : CpeName} (m : Json) (h : ¬ n.ColonFree) :
    FieldsRefused n.text m ↔ n.Refused m := by
  by_cases hpart : n.part ∈ [ascii "a", ascii "o", ascii "h"]
  · obtain ⟨hv, -⟩ | ⟨v, w, heq, hv, -⟩ := n.vendor_component.splitOn_cases
    · obtain ⟨hp, -⟩ | ⟨p, q, heq, hp, -⟩ := n.product_component.splitOn_cases
      · have hversion : 0x3A ∈ n.version := by
          by_contra hw
          exact h ⟨hv, hp, hw⟩
        exact fieldsRefused_version hpart hv hp hversion
      · exact fieldsRefused_product hpart hv hp heq
    · exact fieldsRefused_vendor hpart hv heq
  · refine iff_of_true (Or.inl fun part hmem hfield => hpart ?_) (.part hpart)
    rw [(part_field_iff n hmem).mp hfield]
    exact hmem

/-- The rows of a well-formed criteria string have its own components exactly
when vendor, product and version are free of colons, or there is no row. -/
theorem cpeMatch_attribution_iff {n : CpeName} {m : Json} (hfits : n.Fits)
    (hcrit : jsonGetString (some m) (ascii "criteria") = some n.text) (cveId : Bytes) :
    (∀ row, AddsRow cveId m row → n.Exact row) ↔ n.ColonFree ∨ n.Refused m := by
  obtain ⟨f2, f3, f4, f5, h2, h3, h4, h5⟩ := fields_exist n
  obtain ⟨hrefused, hnone⟩ | ⟨hnot, r, hr, hpart, hvendor, hproduct, hversion⟩ :=
    readCpeMatch_fields hcrit hfits.text h2 h3 h4 h5
  · have hcond : n.ColonFree ∨ n.Refused m :=
      or_iff_not_imp_left.mpr fun hcolon => (fieldsRefused_iff m hcolon).mp hrefused
    refine iff_of_true (fun row hrow => ?_) hcond
    obtain ⟨r, id, hr, -⟩ := hrow.read
    rw [hnone] at hr
    cases hr
  · have hknown : f2 ∈ [ascii "a", ascii "o", ascii "h"] := by
      by_contra hunknown
      refine hnot (Or.inl fun part hmem heq => hunknown ?_)
      rw [Option.some.inj (h2.symm.trans heq)]
      exact hmem
    have hf2 : f2 = n.part := ((part_field_iff n hknown).mp h2).symm
    have hcolon : 0x3A ∉ n.part := hf2 ▸ part_no_colon hknown
    obtain ⟨hfree, rfl, rfl, rfl⟩ | ⟨hnfree, hshort⟩ := fields_cases n hcolon h3 h4 h5
    · refine iff_of_true (fun row hrow => ?_) (Or.inl hfree)
      obtain ⟨r', id, hr', rfl⟩ := hrow.read
      obtain rfl : r = r' := Option.some.inj (hr.symm.trans hr')
      rw [List.take_of_length_le hfits.vendor] at hvendor
      rw [List.take_of_length_le hfits.product] at hproduct
      rw [List.take_of_length_le hfits.version] at hversion
      exact ⟨hpart.trans hf2, hvendor, hproduct, hversion⟩
    · rw [or_iff_right hnfree, ← fieldsRefused_iff m hnfree]
      refine iff_of_false (fun hall => ?_) hnot
      obtain ⟨id, hadds⟩ := addsRow_of_read hr cveId
      have hexact := hall _ hadds
      have hv := congrArg List.length (hvendor.symm.trans hexact.vendor)
      have hp := congrArg List.length (hproduct.symm.trans hexact.product)
      have hw := congrArg List.length (hversion.symm.trans hexact.version)
      simp only [List.length_map, List.length_take] at hv hp hw
      omega

def criteriaEntry (criteria : Bytes) : Json := .object [(ascii "criteria", .string criteria)]

/-- `cpe:2.3:a:vendor:httpd:1.0:r\:1` and six components that say nothing. -/
def plainName (vendor : Bytes) (h : isComponent vendor = true) : CpeName where
  part := ascii "a"
  vendor := vendor
  product := ascii "httpd"
  version := ascii "1.0"
  rest := ascii "r\\:1" :: List.replicate 6 (ascii "*")
  part_component := component_of_check rfl
  vendor_component := component_of_check h
  product_component := component_of_check rfl
  version_component := component_of_check rfl
  rest_components c hc := by
    obtain rfl | hc := List.mem_cons.mp hc
    · exact component_of_check rfl
    · obtain rfl := List.eq_of_mem_replicate hc
      exact component_of_check rfl
  rest_length := rfl

def acme : CpeName := plainName (ascii "acme") rfl

def colonVendor : CpeName := plainName (ascii "ac\\:me") rfl

/-- A colon behind the version does no harm. -/
theorem cpeMatch_attribution_iff_acme :
    ∃ row, AddsRow (ascii "CVE-2024-0001") (criteriaEntry acme.text) row ∧ acme.Exact row := by
  have hfits : acme.Fits := ⟨by decide, by decide, by decide, by decide⟩
  have hcrit : jsonGetString (some (criteriaEntry acme.text)) (ascii "criteria") =
      some acme.text := by decide
  have hread : ∃ r, readCpeMatch (criteriaEntry acme.text) = some r :=
    Option.isSome_iff_exists.mp (by decide)
  obtain ⟨r, hr⟩ := hread
  obtain ⟨id, hadds⟩ := addsRow_of_read hr (ascii "CVE-2024-0001")
  exact ⟨_, hadds, (cpeMatch_attribution_iff hfits hcrit _).mpr
    (Or.inl ⟨by decide, by decide, by decide⟩) _ hadds⟩

/-- What the splitter makes of a colon in the vendor. -/
def shifted : CpeRecord where
  cpe23Uri := colonVendor.text
  part := ascii "a"
  vendor := ascii "ac\\"
  product := ascii "me"
  version := ascii "httpd"
  versionStartIncluding := []
  versionStartExcluding := []
  versionEndIncluding := []
  versionEndExcluding := []
  vulnerable := 1

/-- The vendor of a well-formed string is cut at its colon, the product is the
rest of the vendor, and the version is the product. -/
theorem cpeMatch_misattributes : colonVendor.Fits ∧
    jsonGetString (some (criteriaEntry colonVendor.text)) (ascii "criteria") =
      some colonVendor.text ∧
    ∃ id, AddsRow (ascii "CVE-2024-0001") (criteriaEntry colonVendor.text)
        (shifted.row (ascii "CVE-2024-0001") id) ∧
      ¬ colonVendor.Exact (shifted.row (ascii "CVE-2024-0001") id) := by
  have hread : readCpeMatch (criteriaEntry colonVendor.text) = some shifted := by decide
  obtain ⟨id, hadds⟩ := addsRow_of_read hread (ascii "CVE-2024-0001")
  refine ⟨⟨by decide, by decide, by decide, by decide⟩, by decide, id, hadds, fun h => ?_⟩
  have hversion : ascii "httpd" = ascii "1.0" := h.version
  revert hversion
  decide

end Cytadel.Db
