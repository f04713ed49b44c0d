import Cytadel.Lib.JsonText
import Cytadel.Lib.Utf8

/-!
# When a JSON text is UTF-8

Everything that the printer adds to a value is ASCII, and a text can be cut
and joined at ASCII. So a print is UTF-8 just when the strings of the value,
and its keys, are.
-/

namespace Lib.Json

mutual

/-- The strings of a value, with its keys. -/
def Value.texts : Value → List (List UInt8)
  | .null => []
  | .bool _ => []
  | .number _ => []
  | .string s => [s]
  | .array items => itemsTexts items
  | .object members => membersTexts members

def itemsTexts : List Value → List (List UInt8)
  | [] => []
  | v :: vs => v.texts ++ itemsTexts vs

def membersTexts : List (List UInt8 × Value) → List (List UInt8)
  | [] => []
  | (k, v) :: ms => k :: (v.texts ++ membersTexts ms)

end

/-- All of them are UTF-8. -/
def AllUtf8 (ts : List (List UInt8)) : Prop := ∀ t ∈ ts, Utf8 t

@[simp] theorem allUtf8_nil : AllUtf8 [] := by simp [AllUtf8]

@[simp] theorem allUtf8_cons {t : List UInt8} {ts : List (List UInt8)} :
    AllUtf8 (t :: ts) ↔ Utf8 t ∧ AllUtf8 ts := List.forall_mem_cons

@[simp] theorem allUtf8_append {ts us : List (List UInt8)} :
    AllUtf8 (ts ++ us) ↔ AllUtf8 ts ∧ AllUtf8 us := List.forall_mem_append

theorem utf8_escape_iff (s : List UInt8) : Utf8 (s.flatMap escapeByte) ↔ Utf8 s := by
  have hascii : ∀ c : UInt8, c.toNat ≤ 0x7F → escapeByte c ≠ [] ∧
      ((escapeByte c).all fun x => x.toNat ≤ 0x7F) = true :=
    forall_byte (by decide)
  have hother : ∀ c : UInt8, 0x7F < c.toNat → escapeByte c = [c] := forall_byte (by decide)
  refine Utf8.flatMap_iff (fun q hq => ?_) (fun q hq => hother q hq) s
  obtain ⟨hne, hall⟩ := hascii q hq
  exact ⟨hne, fun x hx => of_decide_eq_true (List.all_eq_true.mp hall x hx)⟩

theorem utf8_printString_iff (s : List UInt8) : Utf8 (printString s) ↔ Utf8 s := by
  rw [printString, Utf8.concat_iff (by decide), List.singleton_append, Utf8.cons_iff (by decide),
    utf8_escape_iff]

theorem utf8_number {t : List UInt8} (h : isNumber t = true) : Utf8 t := by
  refine Utf8.of_ascii fun c hc => ?_
  have hall : ∀ c : UInt8, isNumByte c = true → c.toNat ≤ 0x7F := forall_byte (by decide)
  exact hall c (isNumber_bytes h c hc)

theorem utf8_brackets_iff {a b : UInt8} (ha : a.toNat ≤ 0x7F) (hb : b.toNat ≤ 0x7F)
    (s : List UInt8) : Utf8 ([a] ++ s ++ [b]) ↔ Utf8 s := by
  rw [Utf8.concat_iff hb, List.singleton_append, Utf8.cons_iff ha]

/-- A key, a colon and a value. -/
theorem utf8_member_iff (k s : List UInt8) :
    Utf8 (printString k ++ [0x3A] ++ s) ↔ Utf8 k ∧ Utf8 s := by
  rw [List.append_assoc, List.singleton_append, Utf8.append_cons_iff (by decide),
    utf8_printString_iff]

/-- Two parts with a comma between them. -/
theorem utf8_comma_iff (s t : List UInt8) : Utf8 (s ++ [0x2C] ++ t) ↔ Utf8 s ∧ Utf8 t := by
  rw [List.append_assoc, List.singleton_append, Utf8.append_cons_iff (by decide)]

mutual

theorem utf8_print_iff (v : Value) (h : v.ok = true) : Utf8 (print v) ↔ AllUtf8 v.texts := by
  cases v with
  | null =>
      simp only [print, Value.texts, allUtf8_nil, iff_true]
      exact Utf8.of_all (by decide)
  | bool b =>
      cases b <;> simp only [print, Value.texts, allUtf8_nil, iff_true] <;>
        exact Utf8.of_all (by decide)
  | number t =>
      simp only [print, Value.texts, allUtf8_nil, iff_true]
      exact utf8_number (by rwa [Value.ok] at h)
  | string s =>
      rw [print, Value.texts, utf8_printString_iff]
      simp
  | array items =>
      rw [Value.ok] at h
      rw [print, Value.texts, utf8_brackets_iff (by decide) (by decide)]
      exact utf8_printItems_iff items h
  | object members =>
      rw [Value.ok] at h
      rw [print, Value.texts, utf8_brackets_iff (by decide) (by decide)]
      exact utf8_printMembers_iff members h

theorem utf8_printItems_iff (items : List Value) (h : itemsOk items = true) :
    Utf8 (printItems items) ↔ AllUtf8 (itemsTexts items) := by
  match items with
  | [] =>
      simp only [printItems, itemsTexts, allUtf8_nil, iff_true]
      exact Utf8.nil
  | [v] =>
      simp only [itemsOk, Bool.and_true] at h
      rw [printItems, utf8_print_iff v h]
      simp [itemsTexts]
  | v :: w :: vs =>
      rw [itemsOk, Bool.and_eq_true] at h
      have htexts : itemsTexts (v :: w :: vs) = v.texts ++ itemsTexts (w :: vs) := rfl
      rw [printItems, utf8_comma_iff, utf8_print_iff v h.1, utf8_printItems_iff (w :: vs) h.2,
        htexts, allUtf8_append]

theorem utf8_printMembers_iff (members : List (List UInt8 × Value)) (h : membersOk members = true) :
    Utf8 (printMembers members) ↔ AllUtf8 (membersTexts members) := by
  match members with
  | [] =>
      simp only [printMembers, membersTexts, allUtf8_nil, iff_true]
      exact Utf8.nil
  | [(k, v)] =>
      simp only [membersOk, Bool.and_true] at h
      rw [printMembers, utf8_member_iff, utf8_print_iff v h]
      simp [membersTexts]
  | (k, v) :: m :: ms =>
      rw [membersOk, Bool.and_eq_true] at h
      have htexts : membersTexts ((k, v) :: m :: ms) =
          k :: (v.texts ++ membersTexts (m :: ms)) := rfl
      rw [printMembers, utf8_comma_iff, utf8_member_iff, utf8_print_iff v h.1,
        utf8_printMembers_iff (m :: ms) h.2, htexts, allUtf8_cons, allUtf8_append, and_assoc]

end

end Lib.Json
