import Mathlib.Data.List.Basic
import Mathlib.Data.Nat.Init
import Cytadel.Lib.AllBytes

/-!
# JSON texts

A decoder for the grammar of RFC 8259 on bytes, and a printer that it reads
back. A byte from `80` on is taken as content of a string, as the grammar
leaves the encoding to section 8.1. A number is the token that spells it.

The decoder runs on fuel, one unit for each value and each separator; a text
is longer than the fuel that it needs, so its length is enough.
-/

namespace Lib.Json

inductive Value
  | null
  | bool (b : Bool)
  | number (token : List UInt8)
  | string (s : List UInt8)
  | array (items : List Value)
  | object (members : List (List UInt8 × Value))

/-! ## Numbers -/

/-- Where a reader stands in a number token. -/
inductive NumState
  | start
  | minus
  | zero
  | int
  | point
  | frac
  | exp
  | expSign
  | expInt
  deriving DecidableEq

def isDigit (c : UInt8) : Bool := 0x30 ≤ c && c ≤ 0x39

def numStep : NumState → UInt8 → Option NumState
  | .start, c => if c = 0x2D then some .minus else if c = 0x30 then some .zero
      else if isDigit c then some .int else none
  | .minus, c => if c = 0x30 then some .zero else if isDigit c then some .int else none
  | .zero, c => if c = 0x2E then some .point else if c = 0x65 ∨ c = 0x45 then some .exp else none
  | .int, c => if isDigit c then some .int else if c = 0x2E then some .point
      else if c = 0x65 ∨ c = 0x45 then some .exp else none
  | .point, c => if isDigit c then some .frac else none
  | .frac, c => if isDigit c then some .frac
      else if c = 0x65 ∨ c = 0x45 then some .exp else none
  | .exp, c => if c = 0x2B ∨ c = 0x2D then some .expSign
      else if isDigit c then some .expInt else none
  | .expSign, c => if isDigit c then some .expInt else none
  | .expInt, c => if isDigit c then some .expInt else none

/-- The states in which a number may end. -/
def NumState.complete : NumState → Bool
  | .zero | .int | .frac | .expInt => true
  | _ => false

def isNumber (t : List UInt8) : Bool := ((t.foldlM numStep .start).map (·.complete)).getD false

/-- The bytes that occur in numbers. -/
def isNumByte (c : UInt8) : Bool :=
  isDigit c || c = 0x2D || c = 0x2B || c = 0x2E || c = 0x65 || c = 0x45

/-! ## Strings -/

def hexVal (c : UInt8) : Option ℕ :=
  if isDigit c then some (c.toNat - 0x30)
  else if 0x61 ≤ c ∧ c ≤ 0x66 then some (c.toNat - 0x61 + 10)
  else if 0x41 ≤ c ∧ c ≤ 0x46 then some (c.toNat - 0x41 + 10)
  else none

/-- The bytes of a code point. A surrogate that has lost its partner is put
into bytes like any other number. -/
def codePoint (n : ℕ) : List UInt8 :=
  if n < 0x80 then [.ofNat n]
  else if n < 0x800 then [.ofNat (0xC0 + n / 64), .ofNat (0x80 + n % 64)]
  else if n < 0x10000 then
    [.ofNat (0xE0 + n / 4096), .ofNat (0x80 + n / 64 % 64), .ofNat (0x80 + n % 64)]
  else
    [.ofNat (0xF0 + n / 262144), .ofNat (0x80 + n / 4096 % 64), .ofNat (0x80 + n / 64 % 64),
      .ofNat (0x80 + n % 64)]

inductive StrMode
  | plain
  | escape
  | hex (left value : ℕ)
  deriving DecidableEq

/-- Inside a string: a first half of a surrogate pair, if one came just before,
and where the reader stands. -/
structure StrState where
  high : Option ℕ
  mode : StrMode
  deriving DecidableEq

def StrState.start : StrState := ⟨none, .plain⟩

/-- A first half that stays alone. -/
def StrState.lone (st : StrState) : List UInt8 := (st.high.map codePoint).getD []

/-- The escapes of one letter. -/
def simpleEscape (c : UInt8) : Option UInt8 :=
  if c = 0x22 ∨ c = 0x5C ∨ c = 0x2F then some c
  else if c = 0x62 then some 0x08
  else if c = 0x66 then some 0x0C
  else if c = 0x6E then some 0x0A
  else if c = 0x72 then some 0x0D
  else if c = 0x74 then some 0x09
  else none

/-- The sixteen bits of a complete `\u` escape. -/
def StrState.unit (st : StrState) (u : ℕ) : List UInt8 × StrState :=
  match st.high with
  | some h =>
      if 0xDC00 ≤ u ∧ u < 0xE000 then
        (codePoint (0x10000 + (h - 0xD800) * 0x400 + (u - 0xDC00)), .start)
      else if 0xD800 ≤ u ∧ u < 0xDC00 then (codePoint h, ⟨some u, .plain⟩)
      else (codePoint h ++ codePoint u, .start)
  | none =>
      if 0xD800 ≤ u ∧ u < 0xDC00 then ([], ⟨some u, .plain⟩) else (codePoint u, .start)

/-- One byte that does not close the string: the bytes it completes. -/
def strStep (st : StrState) (c : UInt8) : Option (List UInt8 × StrState) :=
  match st.mode with
  | .plain =>
      if c = 0x5C then some ([], { st with mode := .escape })
      else if c < 0x20 ∨ c = 0x22 then none
      else some (st.lone ++ [c], .start)
  | .escape =>
      if c = 0x75 then some ([], { st with mode := .hex 4 0 })
      else (simpleEscape c).map fun b => (st.lone ++ [b], .start)
  | .hex left value =>
      match hexVal c with
      | none => none
      | some v =>
          if left ≤ 1 then some (st.unit (16 * value + v))
          else some ([], { st with mode := .hex (left - 1) (16 * value + v) })

/-- The rest of a string and what stands behind its closing quote. -/
def scanString : StrState → List UInt8 → Option (List UInt8 × List UInt8)
  | _, [] => none
  | st, c :: cs =>
      if st.mode = .plain ∧ c = 0x22 then some (st.lone, cs)
      else
        match strStep st c with
        | none => none
        | some (out, st') => (scanString st' cs).map fun p => (out ++ p.1, p.2)

/-! ## Values -/

def isWs (c : UInt8) : Bool := c = 0x20 || c = 0x09 || c = 0x0A || c = 0x0D

def skipWs (bs : List UInt8) : List UInt8 := bs.dropWhile isWs

mutual

def parseValue : ℕ → List UInt8 → Option (Value × List UInt8)
  | 0, _ => none
  | fuel + 1, bs =>
      match bs with
      | 0x22 :: rest => (scanString .start rest).map fun p => (.string p.1, p.2)
      | 0x7B :: rest =>
          match skipWs rest with
          | 0x7D :: rest => some (.object [], rest)
          | rest => (parseMembers fuel rest).map fun p => (.object p.1, p.2)
      | 0x5B :: rest =>
          match skipWs rest with
          | 0x5D :: rest => some (.array [], rest)
          | rest => (parseItems fuel rest).map fun p => (.array p.1, p.2)
      | 0x6E :: 0x75 :: 0x6C :: 0x6C :: rest => some (.null, rest)
      | 0x74 :: 0x72 :: 0x75 :: 0x65 :: rest => some (.bool true, rest)
      | 0x66 :: 0x61 :: 0x6C :: 0x73 :: 0x65 :: rest => some (.bool false, rest)
      | bs =>
          let token := bs.takeWhile isNumByte
          if isNumber token then some (.number token, bs.dropWhile isNumByte) else none

/-- One item at least, and the bracket that closes the array. -/
def parseItems : ℕ → List UInt8 → Option (List Value × List UInt8)
  | 0, _ => none
  | fuel + 1, bs =>
      match parseValue fuel bs with
      | none => none
      | some (v, rest) =>
          match skipWs rest with
          | 0x5D :: rest => some ([v], rest)
          | 0x2C :: rest => (parseItems fuel (skipWs rest)).map fun p => (v :: p.1, p.2)
          | _ => none

/-- One member at least, and the brace that closes the object. -/
def parseMembers : ℕ → List UInt8 → Option (List (List UInt8 × Value) × List UInt8)
  | 0, _ => none
  | fuel + 1, bs =>
      match bs with
      | 0x22 :: rest =>
          match scanString .start rest with
          | none => none
          | some (key, rest) =>
              match skipWs rest with
              | 0x3A :: rest =>
                  match parseValue fuel (skipWs rest) with
                  | none => none
                  | some (v, rest) =>
                      match skipWs rest with
                      | 0x7D :: rest => some ([(key, v)], rest)
                      | 0x2C :: rest =>
                          (parseMembers fuel (skipWs rest)).map fun p => ((key, v) :: p.1, p.2)
                      | _ => none
              | _ => none
      | _ => none

end

/-- A text is one value, with whitespace around it. -/
def decode (bs : List UInt8) : Option Value :=
  match parseValue (bs.length + 1) (skipWs bs) with
  | some (v, rest) => if (skipWs rest).isEmpty then some v else none
  | none => none

/-! ## A printer -/

def hexDigit (n : ℕ) : UInt8 := .ofNat (if n < 10 then 0x30 + n else 0x61 + (n - 10))

/-- A byte of a string, escaped where the grammar asks for it. -/
def escapeByte (c : UInt8) : List UInt8 :=
  if c = 0x22 then [0x5C, 0x22]
  else if c = 0x5C then [0x5C, 0x5C]
  else if c = 0x08 then [0x5C, 0x62]
  else if c = 0x0C then [0x5C, 0x66]
  else if c = 0x0A then [0x5C, 0x6E]
  else if c = 0x0D then [0x5C, 0x72]
  else if c = 0x09 then [0x5C, 0x74]
  else if c < 0x20 then
    [0x5C, 0x75, 0x30, 0x30, hexDigit (c.toNat / 16), hexDigit (c.toNat % 16)]
  else [c]

def printString (s : List UInt8) : List UInt8 := [0x22] ++ s.flatMap escapeByte ++ [0x22]

mutual

def print : Value → List UInt8
  | .null => [0x6E, 0x75, 0x6C, 0x6C]
  | .bool true => [0x74, 0x72, 0x75, 0x65]
  | .bool false => [0x66, 0x61, 0x6C, 0x73, 0x65]
  | .number t => t
  | .string s => printString s
  | .array items => [0x5B] ++ printItems items ++ [0x5D]
  | .object members => [0x7B] ++ printMembers members ++ [0x7D]

def printItems : List Value → List UInt8
  | [] => []
  | [v] => print v
  | v :: w :: vs => print v ++ [0x2C] ++ printItems (w :: vs)

def printMembers : List (List UInt8 × Value) → List UInt8
  | [] => []
  | [(k, v)] => printString k ++ [0x3A] ++ print v
  | (k, v) :: m :: ms => printString k ++ [0x3A] ++ print v ++ [0x2C] ++ printMembers (m :: ms)

end

mutual

/-- Every number in the value is spelled by a number token. -/
def Value.ok : Value → Bool
  | .number t => isNumber t
  | .array items => itemsOk items
  | .object members => membersOk members
  | _ => true

def itemsOk : List Value → Bool
  | [] => true
  | v :: vs => v.ok && itemsOk vs

def membersOk : List (List UInt8 × Value) → Bool
  | [] => true
  | (_, v) :: ms => v.ok && membersOk ms

end

/-! ## The printer is read back -/

/-- The steps of a part of a string that does not close it. -/
def strSteps : StrState → List UInt8 → Option (List UInt8 × StrState)
  | st, [] => some ([], st)
  | st, c :: cs =>
      if st.mode = .plain ∧ c = 0x22 then none
      else
        match strStep st c with
        | none => none
        | some (out, st') => (strSteps st' cs).map fun p => (out ++ p.1, p.2)

/-- A part that has steps has a first one, and it is not at a closing quote. -/
theorem strSteps_cons {st st' : StrState} {c : UInt8} {cs out : List UInt8}
    (h : strSteps st (c :: cs) = some (out, st')) :
    ¬ (st.mode = .plain ∧ c = 0x22) ∧ ∃ out₁ st₁ out₂, strStep st c = some (out₁, st₁) ∧
      strSteps st₁ cs = some (out₂, st') ∧ out₁ ++ out₂ = out := by
  rw [strSteps] at h
  split at h
  · cases h
  · next hquote =>
      cases hstep : strStep st c with
      | none => simp [hstep] at h
      | some q =>
          obtain ⟨out₁, st₁⟩ := q
          simp only [hstep, Option.map_eq_some_iff] at h
          obtain ⟨⟨out₂, st₂⟩, hsteps, heq⟩ := h
          obtain ⟨rfl, rfl⟩ : out₁ ++ out₂ = out ∧ st₂ = st' := by simpa using heq
          exact ⟨hquote, out₁, st₁, out₂, rfl, hsteps, rfl⟩

theorem scanString_append {st st' : StrState} {part out : List UInt8}
    (h : strSteps st part = some (out, st')) (rest : List UInt8) :
    scanString st (part ++ rest) = (scanString st' rest).map fun p => (out ++ p.1, p.2) := by
  induction part generalizing st out with
  | nil =>
      obtain ⟨rfl, rfl⟩ : [] = out ∧ st = st' := by simpa [strSteps] using h
      rw [List.nil_append]
      cases scanString st rest <;> rfl
  | cons c cs ih =>
      obtain ⟨hquote, out₁, st₁, out₂, hstep, hsteps, rfl⟩ := strSteps_cons h
      rw [List.cons_append, scanString, if_neg hquote]
      simp only [hstep, ih hsteps, Option.map_map]
      cases scanString st' rest with
      | none => rfl
      | some p => simp

/-- An escaped byte is read as the byte. -/
theorem strSteps_escapeByte (c : UInt8) :
    strSteps .start (escapeByte c) = some ([c], .start) := by
  have hall : ∀ c : UInt8, strSteps .start (escapeByte c) = some ([c], .start) :=
    forall_byte (by decide)
  exact hall c

theorem strSteps_append {st st' : StrState} {part out : List UInt8}
    (h : strSteps st part = some (out, st')) (rest : List UInt8) :
    strSteps st (part ++ rest) = (strSteps st' rest).map fun p => (out ++ p.1, p.2) := by
  induction part generalizing st out with
  | nil =>
      obtain ⟨rfl, rfl⟩ : [] = out ∧ st = st' := by simpa [strSteps] using h
      rw [List.nil_append]
      cases strSteps st rest <;> rfl
  | cons c cs ih =>
      obtain ⟨hquote, out₁, st₁, out₂, hstep, hsteps, rfl⟩ := strSteps_cons h
      rw [List.cons_append, strSteps, if_neg hquote]
      simp only [hstep, ih hsteps, Option.map_map]
      cases strSteps st' rest with
      | none => rfl
      | some p => simp

/-- The content of a string, from what stands between its quotes. -/
def unescape (s : List UInt8) : Option (List UInt8) :=
  match strSteps .start s with
  | none => none
  | some (out, st) => if st.mode = .plain then some (out ++ st.lone) else none

theorem strSteps_escape (s : List UInt8) :
    strSteps .start (s.flatMap escapeByte) = some (s, .start) := by
  induction s with
  | nil => rfl
  | cons c cs ih =>
      rw [List.flatMap_cons, strSteps_append (strSteps_escapeByte c), ih]
      rfl

theorem unescape_escape (s : List UInt8) : unescape (s.flatMap escapeByte) = some s := by
  rw [unescape, strSteps_escape]
  exact congrArg some (List.append_nil s)

/-! A quote is escaped when an odd number of backslashes stands before it. -/

/-- One byte, behind an open backslash or not; nothing at a bare quote. -/
def quoteStep (escaped : Bool) (c : UInt8) : Option Bool :=
  if escaped then some false
  else if c = 0x22 then none
  else some (decide (c = 0x5C))

/-- No quote of the text is bare. -/
def quotesEscaped (s : List UInt8) : Bool := (s.foldlM quoteStep false).isSome

theorem quoteSteps_escape (s : List UInt8) :
    (s.flatMap escapeByte).foldlM quoteStep false = some false := by
  have hone : ∀ c : UInt8, (escapeByte c).foldlM quoteStep false = some false :=
    forall_byte (by decide)
  induction s with
  | nil => rfl
  | cons c cs ih =>
      have hc : (escapeByte c).foldlM quoteStep false = some false := hone c
      rw [List.flatMap_cons, List.foldlM_append, hc]
      exact ih

theorem escape_no_control (s : List UInt8) : ∀ c ∈ s.flatMap escapeByte, 0x20 ≤ c := by
  have hone : ∀ c : UInt8, ((escapeByte c).all fun c => 0x20 ≤ c) = true := forall_byte (by decide)
  intro c hc
  obtain ⟨b, -, hb⟩ := List.mem_flatMap.mp hc
  exact of_decide_eq_true (List.all_eq_true.mp (hone b) c hb)

theorem scanString_print (s rest : List UInt8) :
    scanString .start (s.flatMap escapeByte ++ 0x22 :: rest) = some (s, rest) := by
  induction s with
  | nil => rfl
  | cons c cs ih =>
      rw [List.flatMap_cons, List.append_assoc, scanString_append (strSteps_escapeByte c), ih]
      rfl

mutual

/-- The fuel that reading a value takes. -/
def weight : Value → ℕ
  | .null => 1
  | .bool _ => 1
  | .number _ => 1
  | .string _ => 1
  | .array items => 1 + itemsWeight items
  | .object members => 1 + membersWeight members

def itemsWeight : List Value → ℕ
  | [] => 0
  | v :: vs => 1 + weight v + itemsWeight vs

def membersWeight : List (List UInt8 × Value) → ℕ
  | [] => 0
  | (_, v) :: ms => 1 + weight v + membersWeight ms

end

/-- What follows is not taken for more of a number. -/
def Ends (rest : List UInt8) : Prop := ∀ c ∈ rest.head?, isNumByte c = false

theorem Ends.nil : Ends [] := by simp [Ends]

theorem Ends.cons {c : UInt8} {rest : List UInt8} (h : isNumByte c = false) : Ends (c :: rest) := by
  simpa [Ends] using h

theorem skipWs_cons {c : UInt8} {cs : List UInt8} (h : isWs c = false) :
    skipWs (c :: cs) = c :: cs := by
  rw [skipWs, List.dropWhile_cons, h]
  rfl

theorem numStep_isNumByte {st st' : NumState} {c : UInt8} (h : numStep st c = some st') :
    isNumByte c = true := by
  have hall : ∀ c : UInt8, (numStep st c).isSome = true →
      isNumByte c = true := by
    cases st <;> exact forall_byte (by decide)
  refine hall c ?_
  rw [h]
  rfl

/-- A number token consists of bytes of numbers. -/
theorem isNumber_bytes {t : List UInt8} (h : isNumber t = true) : ∀ c ∈ t, isNumByte c = true := by
  have hrun : ∀ (t : List UInt8) (st : NumState), (t.foldlM numStep st).isSome = true →
      ∀ c ∈ t, isNumByte c = true := by
    intro t
    induction t with
    | nil => simp
    | cons c cs ih =>
        intro st hsome
        rw [List.foldlM_cons] at hsome
        cases hstep : numStep st c with
        | none => simp [hstep] at hsome
        | some st' =>
            rw [hstep] at hsome
            intro b hb
            obtain rfl | hb := List.mem_cons.mp hb
            · exact numStep_isNumByte hstep
            · exact ih st' hsome b hb
  refine hrun t .start ?_
  rw [isNumber] at h
  cases hf : t.foldlM numStep .start with
  | none => simp [hf] at h
  | some st => rfl

/-- It begins with a sign or a digit. -/
theorem isNumber_head {t : List UInt8} (h : isNumber t = true) :
    ∃ c cs, t = c :: cs ∧ (c = 0x2D ∨ isDigit c = true) := by
  cases t with
  | nil => simp [isNumber, NumState.complete] at h
  | cons c cs =>
      refine ⟨c, cs, rfl, ?_⟩
      by_contra hc
      push Not at hc
      have hzero : c ≠ 0x30 := by
        rintro rfl
        exact hc.2 rfl
      have hnone : numStep .start c = none := by
        rw [numStep, if_neg hc.1, if_neg hzero, if_neg hc.2]
      rw [isNumber, List.foldlM_cons, hnone] at h
      cases h

/-- What a value can begin with. -/
theorem print_head {v : Value} (h : v.ok = true) :
    ∃ c cs, print v = c :: cs ∧ isWs c = false ∧ c ≠ 0x5D ∧ c ≠ 0x7D := by
  cases v with
  | null => exact ⟨_, _, by rw [print], by decide, by decide, by decide⟩
  | bool b => cases b <;> exact ⟨_, _, by rw [print], by decide, by decide, by decide⟩
  | number t =>
      obtain ⟨c, cs, rfl, hc⟩ := isNumber_head h
      refine ⟨c, cs, by rw [print], ?_⟩
      obtain rfl | hc := hc
      · decide
      · simp only [isDigit, Bool.and_eq_true, decide_eq_true_eq, UInt8.le_iff_toNat_le,
          UInt8.reduceToNat] at hc
        simp only [isWs, Bool.or_eq_false_iff, decide_eq_false_iff_not, ne_eq, ← UInt8.toNat_inj,
          UInt8.reduceToNat]
        omega
  | string s => exact ⟨_, _, by rw [print, printString]; rfl, by decide, by decide, by decide⟩
  | array items => exact ⟨_, _, by rw [print]; rfl, by decide, by decide, by decide⟩
  | object members => exact ⟨_, _, by rw [print]; rfl, by decide, by decide, by decide⟩

theorem parseValue_number {t rest : List UInt8} (fuel : ℕ) (h : isNumber t = true)
    (hrest : Ends rest) :
    parseValue (fuel + 1) (t ++ rest) = some (.number t, rest) := by
  have htake : (t ++ rest).takeWhile isNumByte = t := by
    rw [List.takeWhile_append_of_pos (isNumber_bytes h)]
    cases rest with
    | nil => simp
    | cons c cs => rw [List.takeWhile_cons, hrest c rfl]; simp
  have hdrop : (t ++ rest).dropWhile isNumByte = rest := by
    rw [List.dropWhile_append_of_pos (isNumber_bytes h)]
    cases rest with
    | nil => rfl
    | cons c cs => rw [List.dropWhile_cons, hrest c rfl]; rfl
  obtain ⟨c, cs, rfl, hc⟩ := isNumber_head h
  have hne : c ≠ 0x22 ∧ c ≠ 0x7B ∧ c ≠ 0x5B ∧ c ≠ 0x6E ∧ c ≠ 0x74 ∧ c ≠ 0x66 := by
    obtain rfl | hc := hc
    · decide
    · simp only [isDigit, Bool.and_eq_true, decide_eq_true_eq, UInt8.le_iff_toNat_le,
        UInt8.reduceToNat] at hc
      simp only [ne_eq, ← UInt8.toNat_inj, UInt8.reduceToNat]
      omega
  rw [List.cons_append] at htake hdrop ⊢
  unfold parseValue
  split <;> simp_all

theorem parseValue_array {fuel : ℕ} {c : UInt8} {cs : List UInt8} (hws : isWs c = false)
    (hc : c ≠ 0x5D) :
    parseValue (fuel + 1) (0x5B :: c :: cs) =
      (parseItems fuel (c :: cs)).map fun p => (.array p.1, p.2) := by
  unfold parseValue
  simp only [skipWs_cons hws]
  split
  · next heq => exact absurd (List.cons.inj heq).1 hc
  · rfl

theorem parseValue_object {fuel : ℕ} {c : UInt8} {cs : List UInt8} (hws : isWs c = false)
    (hc : c ≠ 0x7D) :
    parseValue (fuel + 1) (0x7B :: c :: cs) =
      (parseMembers fuel (c :: cs)).map fun p => (.object p.1, p.2) := by
  unfold parseValue
  simp only [skipWs_cons hws]
  split
  · next heq => exact absurd (List.cons.inj heq).1 hc
  · rfl

theorem printItems_head {v : Value} {vs : List Value} (h : itemsOk (v :: vs) = true)
    (rest : List UInt8) :
    ∃ c cs, printItems (v :: vs) ++ rest = c :: cs ∧ isWs c = false ∧ c ≠ 0x5D := by
  rw [itemsOk, Bool.and_eq_true] at h
  obtain ⟨c, cs, hprint, hws, hc, -⟩ := print_head h.1
  cases vs with
  | nil => exact ⟨c, _, by rw [printItems, hprint]; rfl, hws, hc⟩
  | cons w ws => exact ⟨c, _, by rw [printItems, hprint]; rfl, hws, hc⟩

theorem printMembers_head (m : List UInt8 × Value) (ms : List (List UInt8 × Value))
    (rest : List UInt8) :
    ∃ cs, printMembers (m :: ms) ++ rest = 0x22 :: cs := by
  obtain ⟨k, v⟩ := m
  cases ms with
  | nil => exact ⟨_, by rw [printMembers, printString]; rfl⟩
  | cons m ms => exact ⟨_, by rw [printMembers, printString]; rfl⟩

/-- One member, read up to its value. -/
theorem parseMembers_cons {fuel : ℕ} {k : List UInt8} {v : Value} {rest : List UInt8}
    (hv : parseValue fuel (print v ++ rest) = some (v, rest)) (hok : v.ok = true) :
    parseMembers (fuel + 1) (printString k ++ [0x3A] ++ print v ++ rest) =
      match skipWs rest with
      | 0x7D :: rest => some ([(k, v)], rest)
      | 0x2C :: rest => (parseMembers fuel (skipWs rest)).map fun p => ((k, v) :: p.1, p.2)
      | _ => none := by
  obtain ⟨c, cs, hprint, hws, -, -⟩ := print_head hok
  have htext : printString k ++ [0x3A] ++ print v ++ rest =
      0x22 :: (k.flatMap escapeByte ++ 0x22 :: 0x3A :: (print v ++ rest)) := by
    simp [printString]
  have hskip : skipWs (print v ++ rest) = print v ++ rest := by
    rw [hprint, List.cons_append, skipWs_cons hws]
  rw [htext, parseMembers]
  simp only [scanString_print]
  rw [skipWs_cons (by decide)]
  simp only [hskip, hv]

/-- Every value is read back off what it is printed as, and so are the items of
an array and the members of an object, up to their closing bracket. -/
theorem parse_print (fuel : ℕ) :
    (∀ v rest, v.ok = true → Ends rest → weight v ≤ fuel →
      parseValue fuel (print v ++ rest) = some (v, rest)) ∧
    (∀ v vs rest, itemsOk (v :: vs) = true → itemsWeight (v :: vs) ≤ fuel →
      parseItems fuel (printItems (v :: vs) ++ 0x5D :: rest) = some (v :: vs, rest)) ∧
    (∀ m ms rest, membersOk (m :: ms) = true → membersWeight (m :: ms) ≤ fuel →
      parseMembers fuel (printMembers (m :: ms) ++ 0x7D :: rest) = some (m :: ms, rest)) := by
  induction fuel with
  | zero =>
      refine ⟨fun v rest _ _ hw => ?_, fun v vs rest _ hw => ?_, fun m ms rest _ hw => ?_⟩
      · cases v <;> simp [weight] at hw
      · simp [itemsWeight] at hw
      · simp [membersWeight] at hw
  | succ fuel ih =>
      obtain ⟨ihValue, ihItems, ihMembers⟩ := ih
      refine ⟨fun v rest hok hrest hw => ?_, fun v vs rest hok hw => ?_, fun m ms rest hok hw => ?_⟩
      · cases v with
        | null => rw [print]; rfl
        | bool b => cases b <;> rw [print] <;> rfl
        | number t =>
            rw [print]
            exact parseValue_number fuel hok hrest
        | string s =>
            rw [print, printString, List.append_assoc, List.append_assoc]
            change (scanString .start (s.flatMap escapeByte ++ 0x22 :: rest)).map _ = _
            rw [scanString_print]
            rfl
        | array items =>
            cases items with
            | nil => rw [print, printItems]; rfl
            | cons v vs =>
                have hok' : itemsOk (v :: vs) = true := by rwa [Value.ok] at hok
                rw [weight] at hw
                obtain ⟨c, cs, hhead, hws, hc⟩ := printItems_head hok' (0x5D :: rest)
                have htext : print (.array (v :: vs)) ++ rest = 0x5B :: c :: cs := by
                  rw [print, ← hhead]
                  simp
                rw [htext, parseValue_array hws hc, ← hhead,
                  ihItems v vs rest hok' (by omega)]
                rfl
        | object members =>
            cases members with
            | nil => rw [print, printMembers]; rfl
            | cons m ms =>
                have hok' : membersOk (m :: ms) = true := by rwa [Value.ok] at hok
                rw [weight] at hw
                obtain ⟨cs, hhead⟩ := printMembers_head m ms (0x7D :: rest)
                have htext : print (.object (m :: ms)) ++ rest = 0x7B :: 0x22 :: cs := by
                  rw [print, ← hhead]
                  simp
                rw [htext, parseValue_object (by decide) (by decide), ← hhead,
                  ihMembers m ms rest hok' (by omega)]
                rfl
      · have hok' := hok
        rw [itemsOk, Bool.and_eq_true] at hok'
        rw [itemsWeight] at hw
        cases vs with
        | nil =>
            rw [printItems, parseItems, ihValue v _ hok'.1 (.cons (by decide)) (by omega)]
            simp only
            rw [skipWs_cons (by decide)]
            rfl
        | cons w ws =>
            have htext : printItems (v :: w :: ws) ++ 0x5D :: rest =
                print v ++ 0x2C :: (printItems (w :: ws) ++ 0x5D :: rest) := by
              rw [printItems]
              simp
            obtain ⟨c, cs, hhead, hws, -⟩ := printItems_head hok'.2 (0x5D :: rest)
            rw [htext, parseItems, ihValue v _ hok'.1 (.cons (by decide)) (by omega)]
            simp only
            rw [skipWs_cons (by decide)]
            simp only
            rw [hhead, skipWs_cons hws, ← hhead, ihItems w ws rest hok'.2 (by omega)]
            rfl
      · obtain ⟨k, v⟩ := m
        rw [membersOk, Bool.and_eq_true] at hok
        rw [membersWeight] at hw
        cases ms with
        | nil =>
            rw [printMembers, parseMembers_cons
              (ihValue v _ hok.1 (.cons (by decide)) (by omega)) hok.1]
            rw [skipWs_cons (by decide)]
            rfl
        | cons m ms =>
            have htext : printMembers ((k, v) :: m :: ms) ++ 0x7D :: rest =
                printString k ++ [0x3A] ++ print v ++
                  0x2C :: (printMembers (m :: ms) ++ 0x7D :: rest) := by
              rw [printMembers]
              simp
            obtain ⟨cs, hhead⟩ := printMembers_head m ms (0x7D :: rest)
            rw [htext, parseMembers_cons
              (ihValue v _ hok.1 (.cons (by decide)) (by omega)) hok.1]
            rw [skipWs_cons (by decide)]
            simp only
            rw [hhead, skipWs_cons (by decide), ← hhead, ihMembers m ms rest hok.2 (by omega)]
            rfl

mutual

/-- A value takes no more fuel than it has bytes. -/
theorem weight_le : ∀ v : Value, v.ok = true → weight v ≤ (print v).length
  | .null, _ => by rw [weight, print]; decide
  | .bool true, _ => by rw [weight, print]; decide
  | .bool false, _ => by rw [weight, print]; decide
  | .number t, h => by
      obtain ⟨c, cs, rfl, -⟩ := isNumber_head h
      rw [weight, print, List.length_cons]
      omega
  | .string s, _ => by
      rw [weight, print, printString]
      simp
  | .array items, h => by
      rw [Value.ok] at h
      have hle := itemsWeight_le items h
      rw [weight, print]
      simp only [List.length_append, List.length_singleton]
      omega
  | .object members, h => by
      rw [Value.ok] at h
      have hle := membersWeight_le members h
      rw [weight, print]
      simp only [List.length_append, List.length_singleton]
      omega

theorem itemsWeight_le : ∀ vs : List Value, itemsOk vs = true →
    itemsWeight vs ≤ (printItems vs).length + 1
  | [], _ => by rw [itemsWeight]; omega
  | [v], h => by
      rw [itemsOk, Bool.and_eq_true] at h
      have hle := weight_le v h.1
      rw [itemsWeight, itemsWeight, printItems]
      omega
  | v :: w :: ws, h => by
      rw [itemsOk, Bool.and_eq_true] at h
      have hle := weight_le v h.1
      have hrest := itemsWeight_le (w :: ws) h.2
      rw [itemsWeight, printItems]
      simp only [List.length_append, List.length_singleton]
      omega

theorem membersWeight_le : ∀ ms : List (List UInt8 × Value), membersOk ms = true →
    membersWeight ms ≤ (printMembers ms).length + 1
  | [], _ => by rw [membersWeight]; omega
  | [(k, v)], h => by
      rw [membersOk, Bool.and_eq_true] at h
      have hle := weight_le v h.1
      rw [membersWeight, membersWeight, printMembers]
      simp only [List.length_append]
      omega
  | (k, v) :: m :: ms, h => by
      rw [membersOk, Bool.and_eq_true] at h
      have hle := weight_le v h.1
      have hrest := membersWeight_le (m :: ms) h.2
      rw [membersWeight, printMembers]
      simp only [List.length_append, List.length_singleton]
      omega

end

/-- A value whose numbers are spelled right is what its print decodes to. -/
theorem decode_print {v : Value} (h : v.ok = true) : decode (print v) = some v := by
  obtain ⟨c, cs, hprint, hws, -⟩ := print_head h
  have hparse := (parse_print ((print v).length + 1)).1 v [] h .nil
    (Nat.le_succ_of_le (weight_le v h))
  rw [List.append_nil] at hparse
  have hskip : skipWs (print v) = print v := by rw [hprint, skipWs_cons hws]
  rw [decode, hskip, hparse]
  rfl

end Lib.Json
