import Mathlib.Data.List.Basic

/-!
# Texts with character references

A reader of text in which `&`, a name and `;` stand for something else. Which
names there are is a table; every table has the five that HTML needs to write
its own syntax. A name that is not in the table, and a `&` that no `;` closes,
are text.

A text that was put together byte by byte can be cut at any byte of it: the
byte was put there for one of the original, and what comes before and behind
it for those before and behind that one.
-/

namespace Lib

/-- Where an item of a joined list came from. -/
theorem flatMap_eq_append_cons {α β : Type*} {f : α → List β} {as : List α} {pre post : List β}
    {b : β} (h : as.flatMap f = pre ++ b :: post) :
    ∃ as₁ a as₂ u v, as = as₁ ++ a :: as₂ ∧ f a = u ++ b :: v ∧ pre = as₁.flatMap f ++ u ∧
      post = v ++ as₂.flatMap f := by
  induction as generalizing pre with
  | nil => simp at h
  | cons a as ih =>
      rw [List.flatMap_cons] at h
      rcases List.append_eq_append_iff.mp h with ⟨pre', rfl, hrest⟩ | ⟨v', hhead, hrest⟩
      · obtain ⟨as₁, a', as₂, u, v, rfl, hf, rfl, rfl⟩ := ih hrest
        refine ⟨a :: as₁, a', as₂, u, v, rfl, hf, ?_, rfl⟩
        rw [List.flatMap_cons, List.append_assoc]
      · cases v' with
        | nil =>
            -- the item is the first of what comes behind
            rw [List.nil_append] at hrest
            rw [List.append_nil] at hhead
            obtain ⟨as₁, a', as₂, u, v, rfl, hf, hpre, rfl⟩ := @ih [] hrest.symm
            refine ⟨a :: as₁, a', as₂, u, v, rfl, hf, ?_, rfl⟩
            rw [List.flatMap_cons, List.append_assoc, ← hpre, hhead, List.append_nil]
        | cons b' v =>
            obtain ⟨rfl, rfl⟩ := List.cons.inj hrest
            exact ⟨[], a, as, pre, v, rfl, hhead, rfl, rfl⟩

namespace Html

/-- What the names between `&` and `;` stand for. -/
structure References where
  value : List UInt8 → Option (List UInt8)
  amp : value [0x61, 0x6D, 0x70] = some [0x26]
  lt : value [0x6C, 0x74] = some [0x3C]
  gt : value [0x67, 0x74] = some [0x3E]
  quot : value [0x71, 0x75, 0x6F, 0x74] = some [0x22]
  /-- The number 39. -/
  apostrophe : value [0x23, 0x33, 0x39] = some [0x27]

/-- The five alone. -/
def References.basic : References where
  value name :=
    if name = [0x61, 0x6D, 0x70] then some [0x26]
    else if name = [0x6C, 0x74] then some [0x3C]
    else if name = [0x67, 0x74] then some [0x3E]
    else if name = [0x71, 0x75, 0x6F, 0x74] then some [0x22]
    else if name = [0x23, 0x33, 0x39] then some [0x27]
    else none
  amp := by decide
  lt := by decide
  gt := by decide
  quot := by decide
  apostrophe := by decide

variable (refs : References)

/-- Reads a text; inside a reference, with the name so far. -/
def References.decode : Option (List UInt8) → List UInt8 → List UInt8
  | none, [] => []
  | some name, [] => 0x26 :: name
  | none, c :: cs => if c = 0x26 then decode (some []) cs else c :: decode none cs
  | some name, c :: cs =>
      if c = 0x3B then
        match refs.value name with
        | some text => text ++ decode none cs
        | none => 0x26 :: name ++ 0x3B :: decode none cs
      else if c = 0x26 then 0x26 :: name ++ decode (some []) cs
      else decode (some (name ++ [c])) cs

theorem References.decode_text {c : UInt8} (h : c ≠ 0x26) (cs : List UInt8) :
    refs.decode none (c :: cs) = c :: refs.decode none cs := by
  rw [decode, if_neg h]

/-- A name up to its end. -/
theorem References.decode_name {name : List UInt8} (h : ∀ c ∈ name, c ≠ 0x3B ∧ c ≠ 0x26)
    (seen rest : List UInt8) :
    refs.decode (some seen) (name ++ 0x3B :: rest) =
      refs.decode (some (seen ++ name)) (0x3B :: rest) := by
  induction name generalizing seen with
  | nil => rw [List.nil_append, List.append_nil]
  | cons c name ih =>
      rw [List.forall_mem_cons] at h
      rw [List.cons_append, decode, if_neg h.1.1, if_neg h.1.2, ih h.2, List.append_assoc]
      rfl

/-- A reference is read as what it stands for. -/
theorem References.decode_reference {name text : List UInt8}
    (hname : ∀ c ∈ name, c ≠ 0x3B ∧ c ≠ 0x26) (h : refs.value name = some text)
    (rest : List UInt8) :
    refs.decode none (0x26 :: name ++ 0x3B :: rest) = text ++ refs.decode none rest := by
  rw [List.cons_append, decode, if_pos rfl, refs.decode_name hname, List.nil_append, decode,
    if_pos rfl, h]

/-- A text that was escaped byte by byte is read back, when every byte is. -/
theorem References.decode_flatMap {f : UInt8 → List UInt8}
    (h : ∀ c rest, refs.decode none (f c ++ rest) = c :: refs.decode none rest)
    (s rest : List UInt8) :
    refs.decode none (s.flatMap f ++ rest) = s ++ refs.decode none rest := by
  induction s with
  | nil => rfl
  | cons c s ih => rw [List.flatMap_cons, List.append_assoc, h, ih, List.cons_append]

/-- A text without references. -/
theorem References.decode_plain {s : List UInt8} (h : 0x26 ∉ s) (rest : List UInt8) :
    refs.decode none (s ++ rest) = s ++ refs.decode none rest := by
  induction s with
  | nil => rfl
  | cons c s ih =>
      rw [List.mem_cons, not_or] at h
      rw [List.cons_append, refs.decode_text (Ne.symm h.1), ih h.2, List.cons_append]

end Html

end Lib
