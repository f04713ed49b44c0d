import Cytadel.Lib.HtmlTokens

/-!
# The tree of an HTML document

What the reader of the tokens leaves out is kept here: the text and the values
in double quotes. The marks of a document are put together to a tree by a stack
of open elements, and strictly so: an end tag has to be that of the innermost
open element, and at the end none is open. A document that has a tree closes
each of its elements once, in the element that it was opened in.

A search of a tree finds its elements in the order of their start tags.
-/

namespace Lib.Html

/-! ## Marks -/

/-- What a reader notices. -/
inductive Mark
  | text (c : UInt8)
  /-- A byte of a value in double quotes. -/
  | value (c : UInt8)
  | endValue
  | token (k : Token)
  deriving DecidableEq

/-- The text and the values at a byte. A `<` that starts nothing is text. -/
def mark (m : Mode) (c : UInt8) : List Mark :=
  match m with
  | .text => if c = 0x3C then [] else [.text c]
  | .tagOpen =>
      match (step .tagOpen c).1 with
      | .tagOpen => [.text 0x3C]
      | .text => [.text 0x3C, .text c]
      | _ => []
  | .quoted _ _ => if c = 0x22 then [.endValue] else [.value c]
  | _ => []

/-- The marks of a run of bytes, and where the reader stands behind it. -/
def marks : Mode → List UInt8 → Mode × List Mark
  | m, [] => (m, [])
  | m, c :: cs =>
      let one := step m c
      let rest := marks one.1 cs
      (rest.1, mark m c ++ one.2.map .token ++ rest.2)

theorem marks_append (m : Mode) (s t : List UInt8) :
    marks m (s ++ t) =
      ((marks (marks m s).1 t).1, (marks m s).2 ++ (marks (marks m s).1 t).2) := by
  induction s generalizing m with
  | nil => rfl
  | cons c s ih =>
      rw [List.cons_append, marks, marks, ih]
      simp only [List.append_assoc]

/-- Bytes that leave the reader where it stands. -/
theorem marks_map {m : Mode} {s : List UInt8} {f : UInt8 → Mark}
    (h : ∀ c ∈ s, (step m c).1 = m ∧ mark m c ++ (step m c).2.map .token = [f c]) :
    marks m s = (m, s.map f) := by
  induction s with
  | nil => rfl
  | cons c s ih =>
      obtain ⟨hmode, hmarks⟩ := h c List.mem_cons_self
      rw [marks, hmode, hmarks, ih fun x hx => h x (List.mem_cons_of_mem _ hx)]
      rfl

theorem marks_text {s : List UInt8} (h : 0x3C ∉ s) : marks .text s = (.text, s.map .text) := by
  refine marks_map fun c hc => ?_
  have hne : c ≠ 0x3C := ne_of_mem_of_not_mem hc h
  rw [step, mark, if_neg hne, if_neg hne]
  exact ⟨rfl, rfl⟩

theorem marks_quoted {t : Tag} {n s : List UInt8} (h : 0x22 ∉ s) :
    marks (.quoted t n) s = (.quoted t n, s.map .value) := by
  refine marks_map fun c hc => ?_
  have hne : c ≠ 0x22 := ne_of_mem_of_not_mem hc h
  rw [step, mark, if_neg hne, if_neg hne]
  exact ⟨rfl, rfl⟩

theorem marks_raw {elem s : List UInt8} (h : 0x3C ∉ s) :
    marks (.raw elem) s = (.raw elem, s.map fun c => .token (.raw c)) := by
  refine marks_map fun c hc => ?_
  have hstep : step (.raw elem) c = (.raw elem, [.raw c]) :=
    if_neg (ne_of_mem_of_not_mem hc h)
  rw [hstep]
  exact ⟨rfl, rfl⟩

/-! ## Trees -/

def isVoid (name : List UInt8) : Bool := voidElements.contains name

/-- A start tag, with its values in double quotes in their order. -/
structure Opening where
  name : List UInt8
  attrs : List Attr
  values : List (List UInt8)

inductive Node
  | text (c : UInt8)
  | markup (c : UInt8)
  | raw (c : UInt8)
  | void (o : Opening) (h : isVoid o.name = true)
  | elem (o : Opening) (h : isVoid o.name = false) (kids : List Node)

/-- An element that is open, with what stands before it. -/
structure OpenElement where
  opening : Opening
  content : isVoid opening.name = false
  before : List Node

/-- A tree in the making. -/
structure Build where
  /-- In the innermost open element. -/
  kids : List Node
  /-- The innermost first. -/
  elements : List OpenElement
  values : List (List UInt8)
  value : List UInt8

/-- A tag is complete. -/
def Build.tag (b : Build) (t : Tag) : Option Build :=
  if t.close then
    match b.elements with
    | [] => none
    | e :: outer =>
        if e.opening.name = t.name then
          some ⟨e.before ++ [.elem e.opening e.content b.kids], outer, [], []⟩
        else none
  else
    let o : Opening := ⟨t.name, t.attrs, b.values⟩
    if h : isVoid o.name = true then some ⟨b.kids ++ [.void o h], b.elements, [], []⟩
    else some ⟨[], ⟨o, eq_false_of_ne_true h, b.kids⟩ :: b.elements, [], []⟩

def Build.add (b : Build) : Mark → Option Build
  | .text c => some { b with kids := b.kids ++ [.text c] }
  | .value c => some { b with value := b.value ++ [c] }
  | .endValue => some { b with values := b.values ++ [b.value], value := [] }
  | .token (.markup c) => some { b with kids := b.kids ++ [.markup c] }
  | .token (.raw c) => some { b with kids := b.kids ++ [.raw c] }
  | .token (.tag t _) => b.tag t

/-- The tree of a document that ends in text with no element open. -/
def tree (doc : List UInt8) : Option (List Node) :=
  match marks .text doc with
  | (.text, ms) =>
      match ms.foldlM Build.add ⟨[], [], [], []⟩ with
      | some ⟨kids, [], _, _⟩ => some kids
      | _ => none
  | _ => none

/-! ## The marks of a tree -/

def textMarks (s : List UInt8) : List Mark := s.map .text

def valueMarks (s : List UInt8) : List Mark := s.map .value ++ [.endValue]

def Opening.marks (o : Opening) : List Mark :=
  o.values.flatMap valueMarks ++ [.token (.tag ⟨false, o.name, o.attrs⟩ false)]

def endMark (name : List UInt8) : Mark := .token (.tag ⟨true, name, []⟩ false)

mutual

def Node.marks : Node → List Mark
  | .text c => [.text c]
  | .markup c => [.token (.markup c)]
  | .raw c => [.token (.raw c)]
  | .void o _ => o.marks
  | .elem o _ kids => o.marks ++ nodeMarks kids ++ [endMark o.name]

def nodeMarks : List Node → List Mark
  | [] => []
  | n :: ns => n.marks ++ nodeMarks ns

end

theorem nodeMarks_append (ns ms : List Node) :
    nodeMarks (ns ++ ms) = nodeMarks ns ++ nodeMarks ms := by
  induction ns with
  | nil => rfl
  | cons n ns ih => rw [List.cons_append, nodeMarks, nodeMarks, ih, List.append_assoc]

theorem nodeMarks_map {f : UInt8 → Node} {g : UInt8 → Mark} (h : ∀ c, (f c).marks = [g c])
    (s : List UInt8) : nodeMarks (s.map f) = s.map g := by
  induction s with
  | nil => rfl
  | cons c s ih =>
      rw [List.map_cons, nodeMarks, h, ih]
      rfl

theorem build_one (m : Mark) (b : Build) : [m].foldlM Build.add b = b.add m := bind_pure (b.add m)

/-- A value of a tag that is being read. -/
theorem build_value (s : List UInt8) (b : Build) :
    (valueMarks s).foldlM Build.add b =
      some { b with values := b.values ++ [b.value ++ s], value := [] } := by
  have hbytes : (s.map Mark.value).foldlM Build.add b =
      some { b with value := b.value ++ s } := by
    induction s generalizing b with
    | nil => rw [List.append_nil]; rfl
    | cons c s ih =>
        rw [List.map_cons, List.foldlM_cons, Build.add, Option.bind_eq_bind, Option.bind_some, ih,
          List.append_assoc]
        rfl
  rw [valueMarks, List.foldlM_append, hbytes]
  rfl

theorem build_values (vs : List (List UInt8)) {b : Build} (h : b.value = []) :
    (vs.flatMap valueMarks).foldlM Build.add b = some { b with values := b.values ++ vs } := by
  induction vs generalizing b with
  | nil => rw [List.append_nil]; rfl
  | cons v vs ih =>
      rw [List.flatMap_cons, List.foldlM_append, build_value, Option.bind_eq_bind,
        Option.bind_some, ih rfl, h, List.nil_append, List.append_assoc]
      rfl

theorem build_opening (o : Opening) (kids : List Node) (elements : List OpenElement) :
    o.marks.foldlM Build.add ⟨kids, elements, [], []⟩ =
      Build.tag ⟨kids, elements, o.values, []⟩ ⟨false, o.name, o.attrs⟩ := by
  rw [Opening.marks, List.foldlM_append, build_values _ rfl, Option.bind_eq_bind,
    Option.bind_some, build_one]
  rfl

mutual

/-- The marks of a node build it. -/
theorem Node.build (n : Node) (kids : List Node) (elements : List OpenElement) :
    n.marks.foldlM Build.add ⟨kids, elements, [], []⟩ = some ⟨kids ++ [n], elements, [], []⟩ := by
  cases n with
  | text c => rfl
  | markup c => rfl
  | raw c => rfl
  | void o h => rw [Node.marks, build_opening, Build.tag, if_neg Bool.false_ne_true, dif_pos h]
  | elem o h inner =>
      have hne : ¬isVoid o.name = true := ne_true_of_eq_false h
      rw [Node.marks, List.foldlM_append, List.foldlM_append, build_opening, Build.tag,
        if_neg Bool.false_ne_true, dif_neg hne, Option.bind_eq_bind, Option.bind_some,
        nodes_build inner, Option.bind_some, build_one, List.nil_append]
      exact if_pos rfl

theorem nodes_build (ns : List Node) (kids : List Node) (elements : List OpenElement) :
    (nodeMarks ns).foldlM Build.add ⟨kids, elements, [], []⟩ =
      some ⟨kids ++ ns, elements, [], []⟩ := by
  cases ns with
  | nil => rw [List.append_nil]; rfl
  | cons n ns =>
      rw [nodeMarks, List.foldlM_append, n.build, Option.bind_eq_bind, Option.bind_some,
        nodes_build ns, List.append_assoc]
      rfl

end

/-- A document with the marks of a tree is read as that tree. -/
theorem tree_of_marks {doc : List UInt8} {ns : List Node}
    (h : marks .text doc = (.text, nodeMarks ns)) : tree doc = some ns := by
  rw [tree, h]
  simp only [nodes_build, List.nil_append]

/-! ## Searches -/

/-- The first attribute of this name; one in double quotes takes its value from
the list. -/
def attrValue (n : List UInt8) : List Attr → List (List UInt8) → Option (List UInt8)
  | [], _ => none
  | ⟨m, .quoted⟩ :: as, v :: vs => if m = n then some v else attrValue n as vs
  | ⟨_, .quoted⟩ :: _, [] => none
  | ⟨m, .missing⟩ :: as, vs => if m = n then some [] else attrValue n as vs
  | ⟨m, .single v⟩ :: as, vs => if m = n then some v else attrValue n as vs
  | ⟨m, .unquoted v⟩ :: as, vs => if m = n then some v else attrValue n as vs

def Opening.attr (o : Opening) (n : List UInt8) : Option (List UInt8) :=
  attrValue n o.attrs o.values

/-- The words of a value. -/
def words (s : List UInt8) : List (List UInt8) := (s.splitOnP isBlank).filter (· ≠ [])

/-- The start tag of an element of this name, and of this class if one is
given. -/
def Opening.isA (elem : List UInt8) (cls : Option (List UInt8)) (o : Opening) : Bool :=
  o.name = elem && cls.all fun c => (o.attr (Html.name "class")).any fun v => (words v).contains c

def Node.opening? : Node → Option Opening
  | .void o _ => some o
  | .elem o _ _ => some o
  | _ => none

def Node.attr (n : Node) (attr : List UInt8) : Option (List UInt8) :=
  n.opening?.bind fun o => o.attr attr

mutual

/-- What is written below a node, without its tags. -/
def Node.content : Node → List UInt8
  | .text c => [c]
  | .raw c => [c]
  | .elem _ _ kids => contents kids
  | _ => []

def contents : List Node → List UInt8
  | [] => []
  | n :: ns => n.content ++ contents ns

end

mutual

/-- The nodes in a tree that have a property, its root included. -/
def Node.find (p : Node → Bool) : Node → List Node
  | .elem o h kids => (if p (.elem o h kids) then [.elem o h kids] else []) ++ findAll p kids
  | n => if p n then [n] else []

def findAll (p : Node → Bool) : List Node → List Node
  | [] => []
  | n :: ns => n.find p ++ findAll p ns

end

theorem contents_append (ns ms : List Node) : contents (ns ++ ms) = contents ns ++ contents ms := by
  induction ns with
  | nil => rfl
  | cons n ns ih => rw [List.cons_append, contents, contents, ih, List.append_assoc]

variable {p : Node → Bool}

theorem findAll_append (ns ms : List Node) :
    findAll p (ns ++ ms) = findAll p ns ++ findAll p ms := by
  induction ns with
  | nil => rfl
  | cons n ns ih => rw [List.cons_append, findAll, findAll, ih, List.append_assoc]

theorem findAll_flatMap {α : Type*} (f : α → List Node) (as : List α) :
    findAll p (as.flatMap f) = as.flatMap fun a => findAll p (f a) := by
  induction as with
  | nil => rfl
  | cons a as ih => rw [List.flatMap_cons, List.flatMap_cons, findAll_append, ih]

/-- Nodes without children that lack the property. -/
theorem findAll_map {f : UInt8 → Node} (h : ∀ c, (f c).find p = []) (s : List UInt8) :
    findAll p (s.map f) = [] := by
  induction s with
  | nil => rfl
  | cons c s ih => rw [List.map_cons, findAll, h, ih, List.append_nil]

theorem contents_map {f : UInt8 → Node} (h : ∀ c, (f c).content = [c]) (s : List UInt8) :
    contents (s.map f) = s := by
  induction s with
  | nil => rfl
  | cons c s ih =>
      rw [List.map_cons, contents, h, ih]
      rfl

/-! ## Words -/

theorem words_single {w : List UInt8} (hne : w ≠ []) (h : ∀ c ∈ w, isBlank c = false) :
    words w = [w] := by
  rw [words, List.splitOnP_eq_singleton h, List.filter_cons_of_pos (by simpa using hne),
    List.filter_nil]

theorem words_cons {w : List UInt8} (hne : w ≠ []) (h : ∀ c ∈ w, isBlank c = false) {b : UInt8}
    (hb : isBlank b = true) (s : List UInt8) : words (w ++ b :: s) = w :: words s := by
  rw [words, List.splitOnP_append_cons_of_forall_mem h b hb,
    List.filter_cons_of_pos (by simpa using hne), words]

end Lib.Html
