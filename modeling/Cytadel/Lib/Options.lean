import Mathlib.Data.List.Basic

/-!
# Command lines

A reader goes over the words of a command line from left to right. What kind of
option a word begins, it sees at the word alone: one that ends the reading, one
that stands by itself, or one that takes the next word as its value, whatever
that word is. A line that is read to its end is made of such options in one way
only.
-/

namespace Lib.Options

variable {W A E : Type}

/-- What a word begins. -/
inductive Reading (W A E : Type)
  | stop (e : E)
  | alone (f : A → Except E A)
  | valued (missing : E) (f : W → A → Except E A)

/-- The loop over the words. -/
def parse (read : W → Reading W A E) : List W → A → Except E A
  | [], a => .ok a
  | w :: ws, a =>
      match read w, ws with
      | .stop e, _ => .error e
      | .alone f, ws => (f a).bind fun a => parse read ws a
      | .valued missing _, [] => .error missing
      | .valued _ f, v :: ws => (f v a).bind fun a => parse read ws a

/-- An option with its words. -/
inductive Item (W : Type)
  | alone (w : W)
  | valued (w v : W)

def Item.words : Item W → List W
  | .alone w => [w]
  | .valued w v => [w, v]

def Item.first : Item W → W
  | .alone w => w
  | .valued w _ => w

/-- The reader takes the option, and this is what it does. -/
inductive Item.Takes (read : W → Reading W A E) : Item W → A → A → Prop
  | alone {w : W} {f : A → Except E A} {a a' : A} (hread : read w = .alone f)
      (hf : f a = .ok a') : Takes read (.alone w) a a'
  | valued {w v : W} {missing : E} {f : W → A → Except E A} {a a' : A}
      (hread : read w = .valued missing f) (hf : f v a = .ok a') : Takes read (.valued w v) a a'

/-- A line of options, from first to last. -/
inductive Takes (read : W → Reading W A E) : List (Item W) → A → A → Prop
  | nil (a : A) : Takes read [] a a
  | cons {i : Item W} {items : List (Item W)} {a b c : A} (first : i.Takes read a b)
      (rest : Takes read items b c) : Takes read (i :: items) a c

variable {read : W → Reading W A E} {a a' : A}

section

variable {i : Item W} {e missing : E}

theorem Item.Takes.of_stop (h : i.Takes read a a') : read i.first ≠ .stop e := by
  intro hstop
  cases h with
  | alone hread | valued hread => cases hread.symm.trans hstop

theorem Item.Takes.of_alone {f : A → Except E A} (h : i.Takes read a a')
    (hf : read i.first = .alone f) : i = .alone i.first ∧ f a = .ok a' := by
  cases h with
  | alone hread hok =>
      cases hread.symm.trans hf
      exact ⟨rfl, hok⟩
  | valued hread => cases hread.symm.trans hf

theorem Item.Takes.of_valued {f : W → A → Except E A} (h : i.Takes read a a')
    (hf : read i.first = .valued missing f) : ∃ v, i = .valued i.first v ∧ f v a = .ok a' := by
  cases h with
  | alone hread => cases hread.symm.trans hf
  | valued hread hok =>
      cases hread.symm.trans hf
      exact ⟨_, rfl, hok⟩

end

theorem bind_eq_ok {B : Type} {x : Except E A} {f : A → Except E B} {b : B} :
    x.bind f = .ok b ↔ ∃ a, x = .ok a ∧ f a = .ok b := by
  cases x with
  | error e => simp [Except.bind]
  | ok a => simp [Except.bind]

/-- What a line that is read to its end is made of. -/
theorem parse_ok_iff {ws : List W} :
    parse read ws a = .ok a' ↔ ∃ items, ws = items.flatMap Item.words ∧ Takes read items a a' := by
  constructor
  · intro h
    fun_induction parse read ws a with
    | case1 =>
        cases h
        exact ⟨[], rfl, .nil _⟩
    | case2 | case4 => cases h
    | case3 w ws a f hread ih =>
        obtain ⟨b, hf, hrest⟩ := bind_eq_ok.mp h
        obtain ⟨items, rfl, htakes⟩ := ih b hrest
        exact ⟨.alone w :: items, rfl, .cons (.alone hread hf) htakes⟩
    | case5 w a missing f v ws hread ih =>
        obtain ⟨b, hf, hrest⟩ := bind_eq_ok.mp h
        obtain ⟨items, rfl, htakes⟩ := ih b hrest
        exact ⟨.valued w v :: items, rfl, .cons (.valued hread hf) htakes⟩
  · intro h
    obtain ⟨items, rfl, htakes⟩ := h
    induction htakes with
    | nil a => rfl
    | cons first _ ih =>
        cases first with
        | alone hread hf =>
            rw [List.flatMap_cons, Item.words, List.singleton_append, parse.eq_def]
            simp only [hread]
            exact bind_eq_ok.mpr ⟨_, hf, ih⟩
        | valued hread hf =>
            rw [List.flatMap_cons, Item.words, List.cons_append, List.singleton_append,
              parse.eq_def]
            simp only [hread]
            exact bind_eq_ok.mpr ⟨_, hf, ih⟩

end Lib.Options
