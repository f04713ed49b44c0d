import Mathlib.Data.List.Basic

/-!
# Runs between separators

The elements of a list have kinds, and an element without one separates. The
runs of the list are its longest stretches of one kind; a run is apart if a
separator stands right before it. `Split` says so, `runs` computes them from
the right, and both are the same. From the right a run meets its own end first,
so what stands to the left of it changes at most its first run: the runs of two
parts are the runs of the whole, unless the parts meet within one run.
-/

namespace Lib

structure Run (α κ : Type) where
  kind : κ
  text : List α
  apart : Bool
  deriving DecidableEq, Repr

namespace Runs

variable {α κ : Type}

/-- The first run is preceded by a separator. -/
def setApart : List (Run α κ) → List (Run α κ)
  | [] => []
  | r :: rs => { r with apart := true } :: rs

theorem setApart_setApart (rs : List (Run α κ)) : setApart (setApart rs) = setApart rs := by
  cases rs <;> rfl

theorem apart_of_head {rs : List (Run α κ)} {r : Run α κ} (h : (setApart rs).head? = some r) :
    r.apart = true := by
  cases rs with
  | nil => cases h
  | cons r' rs =>
      obtain rfl : { r' with apart := true } = r := Option.some.inj h
      rfl

variable [DecidableEq κ]

/-- An element in front of some runs. -/
def push (kind : α → Option κ) (a : α) (rs : List (Run α κ)) : List (Run α κ) :=
  match kind a with
  | none => setApart rs
  | some k =>
      match rs with
      | [] => [⟨k, [a], false⟩]
      | r :: rs =>
          if r.kind = k ∧ r.apart = false then { r with text := a :: r.text } :: rs
          else ⟨k, [a], false⟩ :: r :: rs

def runs (kind : α → Option κ) (s : List α) : List (Run α κ) := s.foldr (push kind) []

/-- The runs of a list, with the separators before each: none of them is empty,
and two neighbours that touch are of different kinds. -/
inductive Split (kind : α → Option κ) : List α → List (Run α κ) → Prop
  | nil {sep : List α} (hsep : ∀ a ∈ sep, kind a = none) : Split kind sep []
  | cons {sep text rest : List α} {k : κ} {rs : List (Run α κ)}
      (hsep : ∀ a ∈ sep, kind a = none) (hne : text ≠ []) (htext : ∀ a ∈ text, kind a = some k)
      (hmax : ∀ r, rs.head? = some r → r.kind = k → r.apart = true)
      (hrest : Split kind rest rs) :
      Split kind (sep ++ (text ++ rest)) (⟨k, text, !sep.isEmpty⟩ :: rs)

variable {kind : α → Option κ}

@[simp] theorem runs_nil : runs kind [] = [] := rfl

theorem runs_cons (a : α) (s : List α) : runs kind (a :: s) = push kind a (runs kind s) := rfl

theorem runs_append_eq (p s : List α) :
    runs kind (p ++ s) = p.foldr (push kind) (runs kind s) := List.foldr_append

theorem push_separator {a : α} (h : kind a = none) (rs : List (Run α κ)) :
    push kind a rs = setApart rs := by
  rw [push, h]

/-- An element that does not go on with the run behind it starts its own. -/
theorem push_start {a : α} {k : κ} (h : kind a = some k) {rs : List (Run α κ)}
    (hmax : ∀ r, rs.head? = some r → r.kind = k → r.apart = true) :
    push kind a rs = ⟨k, [a], false⟩ :: rs := by
  rw [push, h]
  cases rs with
  | nil => rfl
  | cons r rs =>
      simp only
      rw [if_neg]
      rintro ⟨hk, hap⟩
      rw [hmax r rfl hk] at hap
      cases hap

theorem push_more {a : α} {k : κ} (h : kind a = some k) (text : List α) (rs : List (Run α κ)) :
    push kind a (⟨k, text, false⟩ :: rs) = ⟨k, a :: text, false⟩ :: rs := by
  simp [push, h]

/-- Separators in front. -/
theorem runs_separators {sep : List α} (hsep : ∀ a ∈ sep, kind a = none) (s : List α) :
    runs kind (sep ++ s) = if sep.isEmpty then runs kind s else setApart (runs kind s) := by
  induction sep with
  | nil => rfl
  | cons a sep ih =>
      have hrest := ih fun b hb => hsep b (List.mem_cons_of_mem _ hb)
      rw [List.cons_append, runs_cons, push_separator (hsep a List.mem_cons_self), hrest]
      split
      · rfl
      · rw [setApart_setApart]
        rfl

/-- A stretch of one kind in front. -/
theorem runs_stretch {text : List α} {k : κ} (hne : text ≠ []) (htext : ∀ a ∈ text, kind a = some k)
    {s : List α} (hmax : ∀ r, (runs kind s).head? = some r → r.kind = k → r.apart = true) :
    runs kind (text ++ s) = ⟨k, text, false⟩ :: runs kind s := by
  induction text with
  | nil => exact absurd rfl hne
  | cons a text ih =>
      have ha := htext a List.mem_cons_self
      rw [List.cons_append, runs_cons]
      cases text with
      | nil => exact push_start ha hmax
      | cons b text =>
          rw [ih (List.cons_ne_nil _ _) fun c hc => htext c (List.mem_cons_of_mem _ hc)]
          exact push_more ha _ _

/-- What keeps the kinds keeps the runs. -/
theorem runs_map {f : α → α} (hf : ∀ a, kind (f a) = kind a) (s : List α) :
    runs kind (s.map f) = (runs kind s).map fun r => { r with text := r.text.map f } := by
  induction s with
  | nil => rfl
  | cons a s ih =>
      rw [List.map_cons, runs_cons, runs_cons, ih, push, push, hf]
      cases kind a with
      | none => cases runs kind s <;> rfl
      | some k =>
          cases runs kind s with
          | nil => rfl
          | cons r rs =>
              simp only [List.map_cons]
              split <;> rfl

/-! ## The runs are the splitting -/

theorem Split.eq_runs {s : List α} {rs : List (Run α κ)} (h : Split kind s rs) :
    rs = runs kind s := by
  induction h with
  | @nil sep hsep =>
      rw [← List.append_nil sep, runs_separators hsep]
      split <;> rfl
  | @cons sep text rest k rs hsep hne htext hmax hrest ih =>
      rw [ih] at hmax
      rw [runs_separators hsep, runs_stretch hne htext hmax, ← ih]
      cases hsep' : sep.isEmpty <;> rfl

theorem split_runs (kind : α → Option κ) (s : List α) : Split kind s (runs kind s) := by
  induction s with
  | nil => exact .nil (by simp)
  | cons a s ih =>
      rw [runs_cons]
      generalize runs kind s = rs at ih
      cases ha : kind a with
      | none =>
          rw [push_separator ha]
          cases ih with
          | nil hsep => exact .nil (List.forall_mem_cons.mpr ⟨ha, hsep⟩)
          | cons hsep hne htext hmax hrest =>
              exact .cons (List.forall_mem_cons.mpr ⟨ha, hsep⟩) hne htext hmax hrest
      | some k =>
          by_cases hmax : ∀ r, rs.head? = some r → r.kind = k → r.apart = true
          · rw [push_start ha hmax]
            have hstart : Split kind ([] ++ ([a] ++ s)) (⟨k, [a], false⟩ :: rs) :=
              .cons (by simp) (by simp) (by simpa using ha) hmax ih
            exact hstart
          · cases ih with
            | nil hsep => exact absurd (by simp) hmax
            | @cons sep text rest k' rs hsep hne htext hmax' hrest =>
                -- the run behind touches the element and is of its kind
                have hsame : k' = k ∧ sep = [] := by
                  simpa using hmax
                obtain ⟨rfl, rfl⟩ := hsame
                have hmore : Split kind ([] ++ ((a :: text) ++ rest))
                    (⟨k', a :: text, false⟩ :: rs) :=
                  .cons (by simp) (by simp) (List.forall_mem_cons.mpr ⟨ha, htext⟩) hmax' hrest
                rw [List.isEmpty_nil, Bool.not_true, push_more ha]
                exact hmore

omit [DecidableEq κ] in
theorem Split.kind_of_mem {s : List α} {rs : List (Run α κ)} (h : Split kind s rs) :
    ∀ r ∈ rs, ∀ a ∈ r.text, kind a = some r.kind := by
  induction h with
  | nil => simp
  | cons _ _ htext _ _ ih => exact List.forall_mem_cons.mpr ⟨htext, ih⟩

/-- The elements of a run are of its kind. -/
theorem kind_of_mem_runs {s : List α} {r : Run α κ} (h : r ∈ runs kind s) :
    ∀ a ∈ r.text, kind a = some r.kind := (split_runs kind s).kind_of_mem r h

/-- A list has one splitting. -/
theorem split_iff {s : List α} {rs : List (Run α κ)} : Split kind s rs ↔ rs = runs kind s :=
  ⟨Split.eq_runs, fun h => h ▸ split_runs kind s⟩

/-! ## Two parts -/

/-- A first run that is not apart begins the list. -/
theorem head_of_runs {s : List α} {r : Run α κ} (h : (runs kind s).head? = some r)
    (hap : r.apart = false) : ∃ a rest, s = a :: rest ∧ kind a = some r.kind := by
  have hsplit := split_runs kind s
  generalize runs kind s = rs at h hsplit
  cases hsplit with
  | nil => cases h
  | @cons sep text rest k rs hsep hne htext hmax hrest =>
      obtain rfl : _ = r := Option.some.inj h
      have hnone : sep = [] := by simpa using hap
      subst hnone
      cases text with
      | nil => exact absurd rfl hne
      | cons a text => exact ⟨a, text ++ rest, rfl, htext a List.mem_cons_self⟩

theorem separators_of_runs {s : List α} (h : runs kind s = []) : ∀ a ∈ s, kind a = none := by
  have hsplit := split_runs kind s
  rw [h] at hsplit
  cases hsplit with
  | nil hsep => exact hsep

/-- The parts do not meet within a run. -/
def Breaks (kind : α → Option κ) (p s : List α) : Prop :=
  ∀ a r, p.getLast? = some a → (runs kind s).head? = some r → kind a = some r.kind → r.apart = true

theorem runs_append {p s : List α} (h : Breaks kind p s) :
    runs kind (p ++ s) =
      runs kind p ++ (if (p.getLast?.bind kind).isNone ∧ p ≠ [] then setApart (runs kind s)
        else runs kind s) := by
  induction p with
  | nil => simp
  | cons a p ih =>
      rw [List.cons_append, runs_cons, runs_cons]
      cases p with
      | nil =>
          cases ha : kind a with
          | none => simp [push_separator ha, ha, setApart]
          | some k =>
              rw [List.nil_append, push_start ha fun r hr hk => h a r rfl hr (by rw [ha, hk]),
                push_start ha (by simp)]
              simp [ha]
      | cons b p =>
          have hrest := ih fun c r hc => h c r (by simpa using hc)
          rw [hrest]
          simp only [List.getLast?_cons_cons, ne_eq, reduceCtorEq, not_false_eq_true, and_true]
          cases hruns : runs kind (b :: p) with
          | cons r rs =>
              rw [List.cons_append]
              cases ha : kind a with
              | none => simp [push_separator ha, setApart]
              | some k =>
                  simp only [push, ha]
                  split <;> rfl
          | nil =>
              -- nothing but separators so far, so the first run of `s` is apart
              have hsep := separators_of_runs hruns
              obtain ⟨c, hc⟩ : ∃ c, (b :: p).getLast? = some c := ⟨_, List.getLast?_eq_some_getLast
                (List.cons_ne_nil b p)⟩
              have hnone : ((b :: p).getLast?.bind kind).isNone = true := by
                rw [hc, Option.bind_some, hsep c (List.mem_of_getLast? hc)]
                rfl
              rw [if_pos hnone, List.nil_append]
              cases ha : kind a with
              | none =>
                  rw [push_separator ha, push_separator ha, setApart_setApart]
                  rfl
              | some k =>
                  rw [push_start ha fun r hr _ => apart_of_head hr, push_start ha (by simp)]
                  rfl

end Runs

end Lib
