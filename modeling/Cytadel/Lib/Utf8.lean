import Mathlib.Data.List.Basic

/-!
# UTF-8 as a set of byte strings

A byte string is UTF-8 when it is the encoding of some characters, one after
the other. Which strings encode one character is a table of byte ranges, and
since every byte of a longer encoding has its top bit set, an ASCII byte
always stands for itself: a text can be cut at one.
-/

namespace Lib

/-- The encodings of some characters, laid end to end. -/
def Utf8 (s : List UInt8) : Prop := ∃ cs : List Char, s = cs.flatMap String.utf8EncodeChar

namespace Utf8

def IsCont (b : UInt8) : Prop := 0x80 ≤ b.toNat ∧ b.toNat ≤ 0xBF

/-- The table of the byte strings that encode one character. The first byte
behind `E0` and `F0` is kept from an overlong form, the one behind `ED` from
a surrogate, and the one behind `F4` from a number that is no character. -/
inductive Seq : List UInt8 → Prop
  | one {b : UInt8} : b.toNat ≤ 0x7F → Seq [b]
  | two {b c : UInt8} : 0xC2 ≤ b.toNat → b.toNat ≤ 0xDF → IsCont c → Seq [b, c]
  | three {b c d : UInt8} : 0xE0 ≤ b.toNat → b.toNat ≤ 0xEF → IsCont c → IsCont d →
      (b.toNat = 0xE0 → 0xA0 ≤ c.toNat) → (b.toNat = 0xED → c.toNat ≤ 0x9F) → Seq [b, c, d]
  | four {b c d e : UInt8} : 0xF0 ≤ b.toNat → b.toNat ≤ 0xF4 → IsCont c → IsCont d → IsCont e →
      (b.toNat = 0xF0 → 0x90 ≤ c.toNat) → (b.toNat = 0xF4 → c.toNat ≤ 0x8F) →
      Seq [b, c, d, e]

theorem exists_char {v : ℕ} (hv : v < 0xD800 ∨ (0xDFFF < v ∧ v < 0x110000)) :
    ∃ c : Char, c.val.toNat = v := by
  have hmod : (UInt32.ofNat v).toNat = v := by
    rw [UInt32.toNat_ofNat']
    omega
  refine ⟨⟨UInt32.ofNat v, ?_⟩, hmod⟩
  rw [UInt32.isValidChar, hmod]
  exact hv

theorem ofNat_eq {n : ℕ} {b : UInt8} (h : n = b.toNat) : UInt8.ofNat n = b := by
  rw [h, UInt8.ofNat_toNat]

/-- A string of the table encodes the character that its payload bits spell. -/
theorem Seq.exists_encode {s : List UInt8} (h : Seq s) :
    ∃ c : Char, s = String.utf8EncodeChar c := by
  cases h with
  | @one b hb =>
      obtain ⟨c, hc⟩ := exists_char (v := b.toNat) (by omega)
      refine ⟨c, ?_⟩
      rw [String.utf8EncodeChar]
      simp only [hc, if_pos hb]
      rw [ofNat_eq rfl]
  | @two b c hb hb' hc =>
      have hc' := hc
      rw [IsCont] at hc'
      obtain ⟨x, hx⟩ := exists_char (v := (b.toNat - 0xC0) * 64 + (c.toNat - 0x80)) (by omega)
      refine ⟨x, ?_⟩
      rw [String.utf8EncodeChar]
      simp only [hx]
      rw [if_neg (by omega), if_pos (by omega), ofNat_eq (b := b) (by omega),
        ofNat_eq (b := c) (by omega)]
  | @three b c d hb hb' hc hd hlow hsur =>
      rw [IsCont] at hc hd
      obtain ⟨x, hx⟩ := exists_char
        (v := (b.toNat - 0xE0) * 4096 + (c.toNat - 0x80) * 64 + (d.toNat - 0x80)) (by omega)
      refine ⟨x, ?_⟩
      rw [String.utf8EncodeChar]
      simp only [hx]
      rw [if_neg (by omega), if_neg (by omega), if_pos (by omega), ofNat_eq (b := b) (by omega),
        ofNat_eq (b := c) (by omega), ofNat_eq (b := d) (by omega)]
  | @four b c d e hb hb' hc hd he hlow hhigh =>
      rw [IsCont] at hc hd he
      obtain ⟨x, hx⟩ := exists_char
        (v := (b.toNat - 0xF0) * 262144 + (c.toNat - 0x80) * 4096 + (d.toNat - 0x80) * 64 +
          (e.toNat - 0x80)) (by omega)
      refine ⟨x, ?_⟩
      rw [String.utf8EncodeChar]
      simp only [hx]
      rw [if_neg (by omega), if_neg (by omega), if_neg (by omega), ofNat_eq (b := b) (by omega),
        ofNat_eq (b := c) (by omega), ofNat_eq (b := d) (by omega), ofNat_eq (b := e) (by omega)]

theorem toNat_ofNat {n : ℕ} (h : n < 256) : (UInt8.ofNat n).toNat = n := by
  rw [UInt8.toNat_ofNat']
  exact Nat.mod_eq_of_lt h

/-- The encoding of a character is in the table. -/
theorem seq_encode (c : Char) : Seq (String.utf8EncodeChar c) := by
  have hvalid : c.val.toNat < 0xD800 ∨ (0xDFFF < c.val.toNat ∧ c.val.toNat < 0x110000) := c.valid
  rw [String.utf8EncodeChar]
  generalize c.val.toNat = v at hvalid
  have hcont : ∀ n, IsCont (UInt8.ofNat (n % 64 + 128)) := by
    intro n
    rw [IsCont, toNat_ofNat (by omega)]
    omega
  split
  · exact .one (by rw [toNat_ofNat (by omega)]; omega)
  · split
    · exact .two (by rw [toNat_ofNat (by omega)]; omega) (by rw [toNat_ofNat (by omega)]; omega)
        (hcont _)
    · split
      · have hb : (UInt8.ofNat (v / 4096 % 16 + 224)).toNat = v / 4096 % 16 + 224 :=
          toNat_ofNat (by omega)
        have hc : (UInt8.ofNat (v / 64 % 64 + 128)).toNat = v / 64 % 64 + 128 :=
          toNat_ofNat (by omega)
        exact .three (by omega) (by omega) (hcont _) (hcont _) (by omega) (by omega)
      · have hb : (UInt8.ofNat (v / 262144 % 8 + 240)).toNat = v / 262144 % 8 + 240 :=
          toNat_ofNat (by omega)
        have hc : (UInt8.ofNat (v / 4096 % 64 + 128)).toNat = v / 4096 % 64 + 128 :=
          toNat_ofNat (by omega)
        exact .four (by omega) (by omega) (hcont _) (hcont _) (hcont _) (by omega) (by omega)

/-! ## Laying texts end to end, and cutting them -/

theorem nil : Utf8 [] := ⟨[], rfl⟩

theorem Seq.utf8 {s : List UInt8} (h : Seq s) : Utf8 s := by
  obtain ⟨c, rfl⟩ := h.exists_encode
  exact ⟨[c], by simp⟩

theorem append {a b : List UInt8} (ha : Utf8 a) (hb : Utf8 b) : Utf8 (a ++ b) := by
  obtain ⟨cs, rfl⟩ := ha
  obtain ⟨ds, rfl⟩ := hb
  exact ⟨cs ++ ds, List.flatMap_append.symm⟩

/-- A text is empty, or one encoding and a text. -/
theorem cases_seq {s : List UInt8} (h : Utf8 s) :
    s = [] ∨ ∃ q r, Seq q ∧ Utf8 r ∧ s = q ++ r := by
  obtain ⟨cs, rfl⟩ := h
  cases cs with
  | nil => exact Or.inl rfl
  | cons c cs => exact Or.inr ⟨_, _, seq_encode c, ⟨cs, rfl⟩, List.flatMap_cons⟩

/-- The texts are the rows of the table laid end to end. -/
theorem iff_flatten (s : List UInt8) :
    Utf8 s ↔ ∃ qs : List (List UInt8), (∀ q ∈ qs, Seq q) ∧ s = qs.flatten := by
  constructor
  · rintro ⟨cs, rfl⟩
    refine ⟨cs.map String.utf8EncodeChar, ?_, List.flatMap_def⟩
    rw [List.forall_mem_map]
    exact fun c _ => seq_encode c
  · rintro ⟨qs, hqs, rfl⟩
    induction qs with
    | nil => exact nil
    | cons q qs ih =>
        rw [List.forall_mem_cons] at hqs
        rw [List.flatten_cons]
        exact hqs.1.utf8.append (ih hqs.2)

/-- An ASCII byte is an encoding by itself, and part of no other. -/
theorem Seq.eq_of_ascii {q : List UInt8} (h : Seq q) {b : UInt8} (hb : b.toNat ≤ 0x7F)
    (hmem : b ∈ q) : q = [b] := by
  cases h with
  | one => rw [List.mem_singleton.mp hmem]
  | @two a c ha _ hc =>
      rw [IsCont] at hc
      simp only [List.mem_cons, List.not_mem_nil, or_false] at hmem
      rcases hmem with rfl | rfl <;> omega
  | @three a c d ha _ hc hd =>
      rw [IsCont] at hc hd
      simp only [List.mem_cons, List.not_mem_nil, or_false] at hmem
      rcases hmem with rfl | rfl | rfl <;> omega
  | @four a c d e ha _ hc hd he =>
      rw [IsCont] at hc hd he
      simp only [List.mem_cons, List.not_mem_nil, or_false] at hmem
      rcases hmem with rfl | rfl | rfl | rfl <;> omega

theorem Seq.ne_nil {q : List UInt8} (h : Seq q) : q ≠ [] := by
  cases h <;> simp

/-- A text can be cut at an ASCII byte. -/
theorem cut {a b : List UInt8} {q : UInt8} (hq : q.toNat ≤ 0x7F) (h : Utf8 (a ++ q :: b)) :
    Utf8 a ∧ Utf8 b := by
  obtain ⟨n, hn⟩ : ∃ n, a.length ≤ n := ⟨_, Nat.le_refl _⟩
  induction n generalizing a with
  | zero =>
      obtain rfl := List.length_eq_zero_iff.mp (Nat.le_zero.mp hn)
      rcases h.cases_seq with h | ⟨s, r, hs, hr, heq⟩
      · cases h
      · obtain ⟨c, s', rfl⟩ := List.exists_cons_of_ne_nil hs.ne_nil
        obtain ⟨rfl, hb⟩ := List.cons_eq_cons.mp heq
        obtain ⟨-, rfl⟩ := List.cons_eq_cons.mp (hs.eq_of_ascii hq List.mem_cons_self)
        exact ⟨nil, by rw [hb]; exact hr⟩
  | succ n ih =>
      rcases h.cases_seq with h | ⟨s, r, hs, hr, heq⟩
      · simp at h
      rcases List.append_eq_append_iff.mp heq with ⟨s', hs', hr'⟩ | ⟨a', ha', hr'⟩
      · -- the byte would be inside of a longer encoding, unless nothing is before it
        cases s' with
        | nil =>
            rw [List.append_nil] at hs'
            rw [List.nil_append] at hr'
            subst hs'
            rw [← hr'] at hr
            have hone := ih (a := []) hr (Nat.zero_le n)
            exact ⟨hs.utf8, hone.2⟩
        | cons c s' =>
            obtain ⟨rfl, rfl⟩ := List.cons_eq_cons.mp hr'
            have hsingle := hs.eq_of_ascii hq (by rw [hs']; simp)
            rw [hs', List.append_eq_singleton_iff] at hsingle
            obtain ⟨rfl, hs''⟩ | ⟨-, hs''⟩ := hsingle
            · obtain ⟨-, rfl⟩ := List.cons_eq_cons.mp hs''
              exact ⟨nil, hr⟩
            · cases hs''
      · have hlen : a'.length ≤ n := by
          have hpos := List.length_pos_of_ne_nil hs.ne_nil
          rw [ha', List.length_append] at hn
          omega
        rw [hr'] at hr
        obtain ⟨ha, hb⟩ := ih hr hlen
        rw [ha']
        exact ⟨hs.utf8.append ha, hb⟩

theorem append_cons_iff {a b : List UInt8} {q : UInt8} (hq : q.toNat ≤ 0x7F) :
    Utf8 (a ++ q :: b) ↔ Utf8 a ∧ Utf8 b :=
  ⟨cut hq, fun h => h.1.append ((Seq.one hq).utf8.append h.2)⟩

theorem cons_iff {b : List UInt8} {q : UInt8} (hq : q.toNat ≤ 0x7F) : Utf8 (q :: b) ↔ Utf8 b := by
  rw [← List.nil_append (q :: b), append_cons_iff hq]
  exact ⟨fun h => h.2, fun h => ⟨nil, h⟩⟩

theorem concat_iff {a : List UInt8} {q : UInt8} (hq : q.toNat ≤ 0x7F) :
    Utf8 (a ++ [q]) ↔ Utf8 a := by
  rw [append_cons_iff hq]
  exact ⟨fun h => h.1, fun h => ⟨h, nil⟩⟩

/-- ASCII in front of a text says nothing about it. -/
theorem ascii_append_iff {a b : List UInt8} (ha : ∀ x ∈ a, x.toNat ≤ 0x7F) :
    Utf8 (a ++ b) ↔ Utf8 b := by
  induction a with
  | nil => rw [List.nil_append]
  | cons x a ih =>
      rw [List.cons_append, cons_iff (ha x List.mem_cons_self)]
      exact ih fun y hy => ha y (List.mem_cons_of_mem _ hy)

theorem of_ascii {s : List UInt8} (h : ∀ b ∈ s, b.toNat ≤ 0x7F) : Utf8 s := by
  rw [← List.append_nil s, ascii_append_iff h]
  exact nil

theorem of_all {s : List UInt8} (h : (s.all fun b => b.toNat ≤ 0x7F) = true) : Utf8 s :=
  of_ascii fun b hb => of_decide_eq_true (List.all_eq_true.mp h b hb)

/-- A map that puts ASCII for every ASCII byte, and leaves the others alone,
keeps the texts. -/
theorem flatMap_iff {f : UInt8 → List UInt8}
    (hascii : ∀ q, q.toNat ≤ 0x7F → f q ≠ [] ∧ ∀ x ∈ f q, x.toNat ≤ 0x7F)
    (hother : ∀ q, 0x7F < q.toNat → f q = [q]) (s : List UInt8) :
    Utf8 (s.flatMap f) ↔ Utf8 s := by
  -- what comes before the first ASCII byte stays as it is
  have hrun : ∀ a : List UInt8, (∀ x ∈ a, 0x7F < x.toNat) → a.flatMap f = a := by
    intro a ha
    induction a with
    | nil => rfl
    | cons x a ih =>
        rw [List.flatMap_cons, hother x (ha x List.mem_cons_self),
          ih fun y hy => ha y (List.mem_cons_of_mem _ hy)]
        rfl
  obtain ⟨n, hn⟩ : ∃ n, s.length ≤ n := ⟨_, Nat.le_refl _⟩
  induction n generalizing s with
  | zero =>
      obtain rfl := List.length_eq_zero_iff.mp (Nat.le_zero.mp hn)
      rfl
  | succ n ih =>
      by_cases hall : ∀ x ∈ s, 0x7F < x.toNat
      · rw [hrun s hall]
      · obtain ⟨a, q, b, rfl, ha, hq⟩ : ∃ a q b, s = a ++ q :: b ∧
            (∀ x ∈ a, 0x7F < x.toNat) ∧ q.toNat ≤ 0x7F := by
          clear hn ih
          induction s with
          | nil => simp at hall
          | cons x s ihs =>
              by_cases hx : x.toNat ≤ 0x7F
              · exact ⟨[], x, s, rfl, by simp, hx⟩
              · have hrest : ¬ ∀ y ∈ s, 0x7F < y.toNat := by
                  intro hs
                  refine hall fun y hy => ?_
                  rcases List.mem_cons.mp hy with rfl | hy
                  · omega
                  · exact hs y hy
                obtain ⟨a, q, b, rfl, ha, hq⟩ := ihs hrest
                refine ⟨x :: a, q, b, rfl, fun y hy => ?_, hq⟩
                rcases List.mem_cons.mp hy with rfl | hy
                · omega
                · exact ha y hy
        obtain ⟨hne, hf⟩ := hascii q hq
        obtain ⟨q', qs, hq'⟩ := List.exists_cons_of_ne_nil hne
        rw [hq'] at hf
        have hlen : b.length ≤ n := by
          rw [List.length_append, List.length_cons] at hn
          omega
        have hrest : Utf8 (b.flatMap f) ↔ Utf8 b := ih b hlen
        rw [List.flatMap_append, List.flatMap_cons, hrun a ha, hq', List.cons_append,
          append_cons_iff (hf q' List.mem_cons_self),
          ascii_append_iff (fun x hx => hf x (List.mem_cons_of_mem _ hx)), hrest,
          append_cons_iff hq]

end Utf8

end Lib
