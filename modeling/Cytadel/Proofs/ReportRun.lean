import Cytadel.Report.ReportData

/-!
# What a report that answers OK has written

A renderer is a list of calls, and a run of it that ends well has made all of
them: the buffer has grown by what each of them appends, in order, whatever was
refused or failed elsewhere.
-/

namespace Cytadel.Report

open Cytadel Cytadel.Db

section

variable (alloc : ℕ → Bool)

theorem bufReserve_data (extra : ℕ) (b : ReportBuf) :
    (bufReserve alloc extra b).2.data = b.data := by
  simp only [bufReserve]
  split_ifs <;> rfl

theorem bufAppend_ok (src : Bytes) {b : ReportBuf} (h : (bufAppend alloc src b).1 = true) :
    (bufAppend alloc src b).2.data = b.data ++ src := by
  simp only [bufAppend] at h ⊢
  split at h
  · cases h
  · next hok =>
      rw [if_neg hok]
      exact congrArg (· ++ src) (bufReserve_data alloc src.length b)

theorem appendAll_ok (pieces : List Bytes) {b : ReportBuf}
    (h : (appendAll alloc pieces b).1 = true) :
    (appendAll alloc pieces b).2.data = b.data ++ pieces.flatten := by
  induction pieces generalizing b with
  | nil => exact (List.append_nil _).symm
  | cons src rest ih =>
      simp only [appendAll] at h ⊢
      split at h
      · cases h
      · next hok =>
          rw [if_neg hok, ih h, bufAppend_ok alloc src (by simpa using hok), List.flatten_cons,
            List.append_assoc]

theorem appendHref_ok {cveId : Bytes} {b : ReportBuf} (h : (appendHref alloc cveId b).1 = true) :
    (appendHref alloc cveId b).2.data =
      b.data ++ (escapeHtmlAttr (nvdHref cveId)).flatten := by
  simp only [appendHref] at h ⊢
  split at h
  · cases h
  · next hstarted =>
      rw [if_neg hstarted]
      have hurl := bufAppend_ok alloc nvdDetailUrl (b := .empty b.allocs)
        (by simpa using hstarted)
      generalize bufAppend alloc nvdDetailUrl (.empty b.allocs) = started at h hurl ⊢
      have hcopied : (if urlTakesMemory cveId = true then takeMemory alloc started.2
          else (true, started.2)).2.data = started.2.data := by
        split <;> rfl
      generalize (if urlTakesMemory cveId = true then takeMemory alloc started.2
        else (true, started.2)) = copied at h hcopied ⊢
      split at h
      · cases h
      · next hok =>
          rw [if_neg hok]
          split at h
          · cases h
          · next hbuilt =>
              have hall := appendAll_ok alloc (escapeUrl cveId) (b := copied.2)
                (by simpa using hbuilt)
              rw [if_neg hbuilt, appendAll_ok alloc _ h, hall, hcopied, hurl]
              rfl

/-- A call that went through has appended its pieces. -/
theorem ReportOp.append_ok {op : ReportOp} {b : ReportBuf} (h : (op.append alloc b).1 = true) :
    (op.append alloc b).2.data = b.data ++ op.pieces.flatten := by
  cases op with
  | href cveId => exact appendHref_ok alloc h
  | malloc => exact (List.append_nil _).symm
  | refuse => cases h
  | db c => exact appendAll_ok alloc _ h
  | lit t => exact appendAll_ok alloc _ h
  | json t => exact appendAll_ok alloc _ h
  | body t => exact appendAll_ok alloc _ h
  | attr t => exact appendAll_ok alloc _ h
  | check => exact appendAll_ok alloc _ h
  | stop st => exact appendAll_ok alloc _ h

end

/-- The text of a list of calls. -/
def opsText (ops : List ReportOp) : Bytes := ops.flatMap fun op => op.pieces.flatten

theorem opsText_append (ops ops' : List ReportOp) :
    opsText (ops ++ ops') = opsText ops ++ opsText ops' := List.flatMap_append

@[simp] theorem opsText_nil : opsText [] = [] := rfl

@[simp] theorem opsText_cons (op : ReportOp) (ops : List ReportOp) :
    opsText (op :: ops) = op.pieces.flatten ++ opsText ops := rfl

/-- A call that writes: neither a query, nor a look at the flag, nor an end. -/
def ReportOp.writes : ReportOp → Bool
  | .db _ | .check | .stop _ => false
  | _ => true

theorem runOps_writes {w : ReportWorld} {op : ReportOp} (hop : op.writes = true)
    (ops : List ReportOp) (ok : Bool) (b : ReportBuf) :
    runOps w (op :: ops) ok b =
      if ok then runOps w ops (op.append w.alloc b).1 (op.append w.alloc b).2
      else runOps w ops false b := by
  cases op with
  | db c => cases hop
  | check => cases hop
  | stop st => cases hop
  | _ => rfl

/-- A run that ends with a look at the flag, and ends well: nothing had failed
before it and nothing in it did, and its text is in the buffer. -/
theorem runOps_ok {w : ReportWorld} {ops : List ReportOp} {ok : Bool} {b b' : ReportBuf}
    (hstop : ReportOp.stop .ok ∉ ops) (h : runOps w (ops ++ [.check]) ok b = (.ok, b')) :
    ok = true ∧ b'.data = b.data ++ opsText ops ∧ (∀ st, ReportOp.stop st ∉ ops) ∧
      ReportOp.refuse ∉ ops := by
  induction ops generalizing ok b with
  | nil =>
      cases ok with
      | false => cases h
      | true =>
          obtain ⟨-, rfl⟩ := Prod.mk.inj h
          exact ⟨rfl, (List.append_nil _).symm, by simp, by simp⟩
  | cons op ops ih =>
      have hrest : ReportOp.stop .ok ∉ ops := fun hm => hstop (List.mem_cons_of_mem _ hm)
      cases hop : op.writes with
      | true =>
          rw [List.cons_append, runOps_writes hop] at h
          cases ok with
          | false => cases (ih hrest h).1
          | true =>
              rw [if_pos rfl] at h
              obtain ⟨hok, hdata, hstops, hrefuse⟩ := ih hrest h
              refine ⟨rfl, ?_, ?_, ?_⟩
              · rw [hdata, ReportOp.append_ok w.alloc hok, opsText_cons, List.append_assoc]
              · intro st hm
                obtain rfl | hm := List.mem_cons.mp hm
                · cases hop
                · exact hstops st hm
              · intro hm
                obtain rfl | hm := List.mem_cons.mp hm
                · cases hok
                · exact hrefuse hm
      | false =>
          cases op with
          | db c =>
              rw [List.cons_append, runOps] at h
              split at h
              · cases h
              · simpa [ReportOp.pieces] using ih hrest h
          | check =>
              rw [List.cons_append, runOps] at h
              split at h
              · simpa [ReportOp.pieces] using ih hrest h
              · cases h
          | stop st =>
              rw [List.cons_append, runOps] at h
              obtain ⟨rfl, -⟩ := Prod.mk.inj h
              exact absurd List.mem_cons_self hstop
          | _ => cases hop

/-! ## A run that nothing stops -/

section

variable {alloc : ℕ → Bool} (hquiet : ∀ n, alloc n = false)
include hquiet

theorem bufAppend_quiet (src : Bytes) {b : ReportBuf} (h : b.data.length + src.length < sizeMax) :
    (bufAppend alloc src b).1 = true := by
  have hreserve : (bufReserve alloc src.length b).1 = true := by
    rw [bufReserve, if_neg (by omega), if_neg (by omega)]
    simp only [hquiet]
    split <;> rfl
  simp [bufAppend, hreserve]

theorem appendAll_quiet {pieces : List Bytes} {b : ReportBuf}
    (h : b.data.length + pieces.flatten.length < sizeMax) :
    (appendAll alloc pieces b).1 = true := by
  induction pieces generalizing b with
  | nil => rfl
  | cons src rest ih =>
      rw [List.flatten_cons, List.length_append] at h
      have hsrc := bufAppend_quiet hquiet src (b := b) (by omega)
      have hdata := bufAppend_ok alloc src hsrc
      rw [appendAll, if_neg (by simp [hsrc])]
      refine ih ?_
      rw [hdata, List.length_append]
      omega

theorem appendHref_quiet {cveId : Bytes} {b : ReportBuf}
    (h : b.data.length + (escapeHtmlAttr (nvdHref cveId)).flatten.length < sizeMax) :
    (appendHref alloc cveId b).1 = true := by
  -- an escape is no shorter than what it escapes
  have hone : ∀ c, 1 ≤ (htmlEscapeOne true c).length := by
    intro c
    simp only [htmlEscapeOne]
    split_ifs <;> simp [ascii]
  have hlong : ∀ s : Bytes, s.length ≤ (escapeHtmlAttr s).flatten.length := by
    intro s
    induction s with
    | nil => exact Nat.le_refl _
    | cons c s ih =>
        have hc := hone c
        have hcons : (escapeHtmlAttr (c :: s)).flatten =
            htmlEscapeOne true c ++ (escapeHtmlAttr s).flatten := rfl
        rw [hcons, List.length_append, List.length_cons]
        omega
  have hhref := hlong (nvdHref cveId)
  rw [nvdHref, List.length_append] at hhref
  rw [nvdHref] at h
  have hstarted : (bufAppend alloc nvdDetailUrl (.empty b.allocs)).1 = true :=
    bufAppend_quiet hquiet _ (by rw [ReportBuf.empty, List.length_nil]; omega)
  have hdata := bufAppend_ok alloc nvdDetailUrl hstarted
  simp only [appendHref, hstarted, Bool.not_true, Bool.false_eq_true, if_false]
  generalize (bufAppend alloc nvdDetailUrl (.empty b.allocs)).2 = started at hdata ⊢
  have hcopied : (if urlTakesMemory cveId = true then takeMemory alloc started
      else (true, started)).1 = true := by
    split
    · simp [takeMemory, hquiet]
    · rfl
  have hkept : (if urlTakesMemory cveId = true then takeMemory alloc started
      else (true, started)).2.data = started.data := by
    split <;> rfl
  generalize (if urlTakesMemory cveId = true then takeMemory alloc started
    else (true, started)) = copied at hcopied hkept ⊢
  rw [hdata] at hkept
  have hbuilt : (appendAll alloc (escapeUrl cveId) copied.2).1 = true := by
    refine appendAll_quiet hquiet ?_
    rw [hkept, ReportBuf.empty, List.nil_append]
    omega
  have hurl := appendAll_ok alloc _ hbuilt
  rw [hkept, ReportBuf.empty, List.nil_append] at hurl
  simp only [hcopied, hbuilt, Bool.not_true, Bool.false_eq_true, if_false]
  refine appendAll_quiet hquiet ?_
  rw [hurl]
  exact h

theorem ReportOp.append_quiet {op : ReportOp} {b : ReportBuf} (hop : op ≠ .refuse)
    (h : b.data.length + op.pieces.flatten.length < sizeMax) : (op.append alloc b).1 = true := by
  cases op with
  | href cveId => exact appendHref_quiet hquiet h
  | malloc => simp [ReportOp.append, takeMemory, hquiet]
  | refuse => exact absurd rfl hop
  | db c => exact appendAll_quiet hquiet h
  | lit t => exact appendAll_quiet hquiet h
  | json t => exact appendAll_quiet hquiet h
  | body t => exact appendAll_quiet hquiet h
  | attr t => exact appendAll_quiet hquiet h
  | check => exact appendAll_quiet hquiet h
  | stop st => exact appendAll_quiet hquiet h

end

/-- A call that does not end the run or fail by itself. -/
def ReportOp.smooth : ReportOp → Bool
  | .stop _ | .refuse => false
  | _ => true

/-- With memory and a database, a list of such calls goes through. -/
theorem runOps_quiet {w : ReportWorld} (halloc : ∀ n, w.alloc n = false)
    (hfault : ∀ c, w.fault c = false) {ops : List ReportOp} {b : ReportBuf}
    (hops : ∀ op ∈ ops, op.smooth = true)
    (hsize : b.data.length + (opsText ops).length < sizeMax) :
    ∃ b', runOps w ops true b = (.ok, b') := by
  induction ops generalizing b with
  | nil => exact ⟨b, rfl⟩
  | cons op ops ih =>
      have hop' := hops op List.mem_cons_self
      have hops' : ∀ op ∈ ops, op.smooth = true := fun op hm => hops op (List.mem_cons_of_mem _ hm)
      rw [opsText_cons, List.length_append] at hsize
      cases hop : op.writes with
      | true =>
          have hne : op ≠ .refuse := by
            rintro rfl
            cases hop'
          have happend := ReportOp.append_quiet halloc hne (b := b) (by omega)
          rw [runOps_writes hop, if_pos rfl, happend]
          refine ih hops' ?_
          rw [ReportOp.append_ok w.alloc happend, List.length_append]
          omega
      | false =>
          have hrest := ih hops' (b := b) (by omega)
          cases op with
          | db c =>
              rw [runOps]
              simpa [hfault] using hrest
          | check =>
              rw [runOps]
              simpa using hrest
          | stop st => cases hop'
          | _ => cases hop

end Cytadel.Report
