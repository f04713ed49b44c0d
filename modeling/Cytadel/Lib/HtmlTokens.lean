import Mathlib.Data.List.Basic

/-!
# The tokens of an HTML document

A byte machine after the tokenizer of the HTML standard, with what it says on
where a reader stands: in text, in a tag, in the value of an attribute, in the
text of an element that has no tags inside. Its output is the skeleton of the
document: every tag with its attributes, every byte of a declaration, of a
comment and of a raw text, and the values of attributes that are not in double
quotes. Of the text between tags and of the double-quoted values nothing is
kept, so documents with one skeleton differ there and nowhere else.

A character reference never starts or ends a tag or a value, so `&` is text like
any other byte; `script` is read like the other raw text elements.
-/

namespace Lib.Html

/-- The value of an attribute. -/
inductive AttrValue
  | missing
  /-- In double quotes, whatever it is. -/
  | quoted
  | single (text : List UInt8)
  | unquoted (text : List UInt8)
  deriving DecidableEq

structure Attr where
  name : List UInt8
  value : AttrValue
  deriving DecidableEq

/-- A tag, as far as it has been read. -/
structure Tag where
  close : Bool
  name : List UInt8
  attrs : List Attr
  deriving DecidableEq

inductive Token
  | tag (t : Tag) (selfClosing : Bool)
  /-- A byte of a declaration or a comment. -/
  | markup (c : UInt8)
  /-- A byte in a raw text element. -/
  | raw (c : UInt8)
  deriving DecidableEq

/-- How much of the end of a comment has been read. -/
inductive CommentEnd
  | start
  | startDash
  | no
  | dash
  | dashes
  | bang
  deriving DecidableEq

/-- Where the reader stands. -/
inductive Mode
  | text
  | tagOpen
  | endTagOpen
  | tagName (t : Tag)
  | beforeAttr (t : Tag)
  | attrName (t : Tag) (name : List UInt8)
  | afterName (t : Tag) (name : List UInt8)
  | beforeValue (t : Tag) (name : List UInt8)
  | quoted (t : Tag) (name : List UInt8)
  | single (t : Tag) (name value : List UInt8)
  | unquoted (t : Tag) (name value : List UInt8)
  | afterValue (t : Tag)
  | slash (t : Tag)
  /-- Behind `<!`, with the bytes since. -/
  | declaration (seen : List UInt8)
  | doctype
  | bogus
  | comment (e : CommentEnd)
  | raw (name : List UInt8)
  | rawLt (name : List UInt8)
  | rawEndOpen (name : List UInt8)
  | rawEndName (name seen : List UInt8)
  deriving DecidableEq

def isBlank (c : UInt8) : Bool := c == 0x09 || c == 0x0A || c == 0x0C || c == 0x0D || c == 0x20

def isAlpha (c : UInt8) : Bool := (0x41 ≤ c && c ≤ 0x5A) || (0x61 ≤ c && c ≤ 0x7A)

def lower (c : UInt8) : UInt8 := if 0x41 ≤ c && c ≤ 0x5A then c + 0x20 else c

def name (s : String) : List UInt8 := s.toList.map fun c => UInt8.ofNat c.toNat

/-- The elements whose text has no tags inside. -/
def rawElements : List (List UInt8) :=
  [name "title", name "textarea", name "style", name "xmp", name "iframe", name "noembed",
    name "noframes", name "script"]

/-- A tag is complete. -/
def Tag.finish (t : Tag) (selfClosing : Bool) : Mode × List Token :=
  (if !t.close && rawElements.contains t.name then .raw t.name else .text, [.tag t selfClosing])

def Tag.add (t : Tag) (name : List UInt8) (value : AttrValue) : Tag :=
  { t with attrs := t.attrs ++ [⟨name, value⟩] }

/-- Before the name of an attribute. -/
def beforeAttrStep (t : Tag) (c : UInt8) : Mode × List Token :=
  if isBlank c then (.beforeAttr t, [])
  else if c = 0x2F then (.slash t, [])
  else if c = 0x3E then t.finish false
  else (.attrName t [lower c], [])

/-- Behind a value in quotes. -/
def afterValueStep (t : Tag) (c : UInt8) : Mode × List Token :=
  if isBlank c then (.beforeAttr t, [])
  else if c = 0x2F then (.slash t, [])
  else if c = 0x3E then t.finish false
  else beforeAttrStep t c

def commentStep (e : CommentEnd) (c : UInt8) : Mode × List Token :=
  (match e with
    | .start =>
        if c = 0x2D then .comment .startDash else if c = 0x3E then .text else .comment .no
    | .startDash =>
        if c = 0x2D then .comment .dashes else if c = 0x3E then .text else .comment .no
    | .no => if c = 0x2D then .comment .dash else .comment .no
    | .dash => if c = 0x2D then .comment .dashes else .comment .no
    | .dashes =>
        if c = 0x3E then .text else if c = 0x21 then .comment .bang
        else if c = 0x2D then .comment .dashes else .comment .no
    | .bang =>
        if c = 0x2D then .comment .dash else if c = 0x3E then .text else .comment .no,
    [.markup c])

def declarationStep (seen : List UInt8) (c : UInt8) : Mode × List Token :=
  let seen := seen ++ [lower c]
  (if seen = name "--" then .comment .start
    else if seen = name "doctype" then .doctype
    else if seen.isPrefixOf (name "--") || seen.isPrefixOf (name "doctype") then .declaration seen
    else if c = 0x3E then .text
    else .bogus,
    [.markup c])

/-- A raw text goes on at this byte. -/
def rawStep (elem : List UInt8) (c : UInt8) : Mode × List Token :=
  if c = 0x3C then (.rawLt elem, []) else (.raw elem, [.raw c])

/-- One byte. -/
def step (m : Mode) (c : UInt8) : Mode × List Token :=
  match m with
  | .text => if c = 0x3C then (.tagOpen, []) else (.text, [])
  | .tagOpen =>
      if c = 0x21 then (.declaration [], [.markup c])
      else if c = 0x2F then (.endTagOpen, [])
      else if isAlpha c then (.tagName ⟨false, [lower c], []⟩, [])
      else if c = 0x3F then (.bogus, [.markup c])
      else if c = 0x3C then (.tagOpen, [])
      else (.text, [])
  | .endTagOpen =>
      if isAlpha c then (.tagName ⟨true, [lower c], []⟩, [])
      else if c = 0x3E then (.text, [])
      else (.bogus, [.markup c])
  | .tagName t =>
      if isBlank c then (.beforeAttr t, [])
      else if c = 0x2F then (.slash t, [])
      else if c = 0x3E then t.finish false
      else (.tagName { t with name := t.name ++ [lower c] }, [])
  | .beforeAttr t => beforeAttrStep t c
  | .attrName t n =>
      if isBlank c then (.afterName t n, [])
      else if c = 0x2F then (.slash (t.add n .missing), [])
      else if c = 0x3E then (t.add n .missing).finish false
      else if c = 0x3D then (.beforeValue t n, [])
      else (.attrName t (n ++ [lower c]), [])
  | .afterName t n =>
      if isBlank c then (.afterName t n, [])
      else if c = 0x2F then (.slash (t.add n .missing), [])
      else if c = 0x3D then (.beforeValue t n, [])
      else if c = 0x3E then (t.add n .missing).finish false
      else (.attrName (t.add n .missing) [lower c], [])
  | .beforeValue t n =>
      if isBlank c then (.beforeValue t n, [])
      else if c = 0x22 then (.quoted t n, [])
      else if c = 0x27 then (.single t n [], [])
      else if c = 0x3E then (t.add n .missing).finish false
      else (.unquoted t n [c], [])
  | .quoted t n => if c = 0x22 then (.afterValue (t.add n .quoted), []) else (.quoted t n, [])
  | .single t n v =>
      if c = 0x27 then (.afterValue (t.add n (.single v)), []) else (.single t n (v ++ [c]), [])
  | .unquoted t n v =>
      if isBlank c then (.beforeAttr (t.add n (.unquoted v)), [])
      else if c = 0x3E then (t.add n (.unquoted v)).finish false
      else (.unquoted t n (v ++ [c]), [])
  | .afterValue t => afterValueStep t c
  | .slash t => if c = 0x3E then t.finish true else beforeAttrStep t c
  | .declaration seen => declarationStep seen c
  | .doctype => (if c = 0x3E then .text else .doctype, [.markup c])
  | .bogus => (if c = 0x3E then .text else .bogus, [.markup c])
  | .comment e => commentStep e c
  | .raw elem => rawStep elem c
  | .rawLt elem =>
      if c = 0x2F then (.rawEndOpen elem, [])
      else ((rawStep elem c).1, .raw 0x3C :: (rawStep elem c).2)
  | .rawEndOpen elem =>
      if isAlpha c then (.rawEndName elem [c], [])
      else ((rawStep elem c).1, .raw 0x3C :: .raw 0x2F :: (rawStep elem c).2)
  | .rawEndName elem seen =>
      let t : Tag := ⟨true, elem, []⟩
      if isAlpha c then (.rawEndName elem (seen ++ [c]), [])
      else if seen.map lower = elem ∧ isBlank c then (.beforeAttr t, [])
      else if seen.map lower = elem ∧ c = 0x2F then (.slash t, [])
      else if seen.map lower = elem ∧ c = 0x3E then t.finish false
      else ((rawStep elem c).1,
        .raw 0x3C :: .raw 0x2F :: (seen.map .raw ++ (rawStep elem c).2))

/-- A run of bytes. -/
def read : Mode → List UInt8 → Mode × List Token
  | m, [] => (m, [])
  | m, c :: cs =>
      let one := step m c
      let rest := read one.1 cs
      (rest.1, one.2 ++ rest.2)

theorem read_append (m : Mode) (s t : List UInt8) :
    read m (s ++ t) =
      ((read (read m s).1 t).1, (read m s).2 ++ (read (read m s).1 t).2) := by
  induction s generalizing m with
  | nil => rfl
  | cons c s ih =>
      rw [List.cons_append, read, read, ih]
      simp only [List.append_assoc]

/-! ## Elements -/

/-- The elements without content. -/
def voidElements : List (List UInt8) :=
  [name "area", name "base", name "br", name "col", name "embed", name "hr", name "img",
    name "input", name "link", name "meta", name "source", name "track", name "wbr"]

/-- The open elements behind a token, the innermost first. An end tag closes up
to its element; one that has none is left out. -/
def openElements (stack : List (List UInt8)) : Token → List (List UInt8)
  | .tag t _ =>
      if t.close then
        if stack.contains t.name then (stack.dropWhile fun n => n ≠ t.name).drop 1 else stack
      else if voidElements.contains t.name then stack
      else t.name :: stack
  | _ => stack

/-- Every token with the elements that are open behind it. -/
def nest (stack : List (List UInt8)) : List Token → List (Token × List (List UInt8))
  | [] => []
  | k :: ks => (k, openElements stack k) :: nest (openElements stack k) ks

/-- The skeleton of a document: its tokens, each with the open elements, and
where the reader stands at its end. -/
def skeleton (doc : List UInt8) : Mode × List (Token × List (List UInt8)) :=
  ((read .text doc).1, nest [] (read .text doc).2)

/-! ## Text that stays where it is -/

/-- A run of bytes that leaves the reader where it stands and adds nothing to
the skeleton. -/
def Silent (m : Mode) (s : List UInt8) : Prop := read m s = (m, [])

theorem silent_of_step {m : Mode} {s : List UInt8} (h : ∀ c ∈ s, step m c = (m, [])) :
    Silent m s := by
  rw [Silent]
  induction s with
  | nil => rfl
  | cons c s ih =>
      rw [read, h c List.mem_cons_self, ih fun x hx => h x (List.mem_cons_of_mem _ hx)]
      rfl

theorem silent_text {s : List UInt8} (h : 0x3C ∉ s) : Silent .text s := by
  refine silent_of_step fun c hc => ?_
  rw [step, if_neg]
  rintro rfl
  exact h hc

theorem silent_quoted {t : Tag} {n s : List UInt8} (h : 0x22 ∉ s) : Silent (.quoted t n) s := by
  refine silent_of_step fun c hc => ?_
  rw [step, if_neg]
  rintro rfl
  exact h hc

/-- A raw text without the start of a tag is kept as it is. -/
theorem read_raw {elem s : List UInt8} (h : 0x3C ∉ s) : (read (.raw elem) s).1 = .raw elem := by
  induction s with
  | nil => rfl
  | cons c s ih =>
      have hc : c ≠ 0x3C := by
        rintro rfl
        exact h List.mem_cons_self
      have hstep : step (.raw elem) c = (.raw elem, [.raw c]) := by
        rw [step, rawStep, if_neg hc]
      rw [read, hstep]
      exact ih fun hm => h (List.mem_cons_of_mem _ hm)

end Lib.Html
