import SheetTemplate.Keyed

/-!
# XML trees

A part of a workbook is an ordered tree: elements with attributes in the order they were written,
and between them text, character data sections and comments. Attribute values and text are kept
unescaped. Elements do not know their parents; an edit gives back a changed copy.

Each operation concerns the first attribute or child of a name, or all children of a name; nodes of
other kinds and names stay where they are.
-/

namespace SheetTemplate.Xml

mutual
/-- An element. -/
structure Element where
  /-- The name as written, with its namespace prefix. -/
  name : String
  attributes : List (String × String) := []
  children : List Node := []

/-- What stands inside an element. -/
inductive Node where
  | element (e : Element)
  | text (t : String)
  /-- A character data section, without its brackets. -/
  | cdata (t : String)
  | comment (t : String)
end

mutual
def Element.decEq : (a b : Element) → Decidable (a = b)
  | ⟨n, a, c⟩, ⟨n', a', c'⟩ =>
    match decEq n n', decEq a a', Node.decEqList c c' with
    | .isTrue h₁, .isTrue h₂, .isTrue h₃ => .isTrue (by rw [h₁, h₂, h₃])
    | .isFalse h, _, _ => .isFalse (by simp [h])
    | _, .isFalse h, _ => .isFalse (by simp [h])
    | _, _, .isFalse h => .isFalse (by simp [h])

def Node.decEq : (a b : Node) → Decidable (a = b)
  | .element a, .element b =>
    match Element.decEq a b with
    | .isTrue h => .isTrue (by rw [h])
    | .isFalse h => .isFalse (by simp [h])
  | .text a, .text b => if h : a = b then .isTrue (by rw [h]) else .isFalse (by simp [h])
  | .cdata a, .cdata b => if h : a = b then .isTrue (by rw [h]) else .isFalse (by simp [h])
  | .comment a, .comment b => if h : a = b then .isTrue (by rw [h]) else .isFalse (by simp [h])
  | .element _, .text _ | .element _, .cdata _ | .element _, .comment _
  | .text _, .element _ | .text _, .cdata _ | .text _, .comment _
  | .cdata _, .element _ | .cdata _, .text _ | .cdata _, .comment _
  | .comment _, .element _ | .comment _, .text _ | .comment _, .cdata _ => .isFalse (by simp)

def Node.decEqList : (a b : List Node) → Decidable (a = b)
  | [], [] => .isTrue rfl
  | a :: r, b :: s =>
    match Node.decEq a b, Node.decEqList r s with
    | .isTrue h₁, .isTrue h₂ => .isTrue (by rw [h₁, h₂])
    | .isFalse h, _ => .isFalse (by simp [h])
    | _, .isFalse h => .isFalse (by simp [h])
  | [], _ :: _ | _ :: _, [] => .isFalse (by simp)
end

instance : DecidableEq Element := Element.decEq

instance : DecidableEq Node := Node.decEq

instance : Inhabited Element := ⟨{ name := "" }⟩

/-- A part: its root element, and whether a declaration precedes it. -/
structure Document where
  declaration : Bool := true
  root : Element
deriving DecidableEq, Inhabited

namespace Node

/-- The element that a node is. -/
def element? : Node → Option Element
  | .element e => some e
  | _ => none

/-- Whether a node is an element for which `p` holds. -/
def isElement (p : Element → Bool) : Node → Bool
  | .element e => p e
  | _ => false

/-- The character content of a node. -/
def content : Node → String
  | .text t => t
  | .cdata t => t
  | _ => ""

/-- Changes an element and leaves all else. -/
def mapElement (f : Element → Element) : Node → Node
  | .element e => .element (f e)
  | n => n

/-- Changes the first element for which `p` holds. -/
def mapFirst (p : Element → Bool) (f : Element → Element) : List Node → List Node
  | [] => []
  | n :: r => if n.isElement p then n.mapElement f :: r else n :: mapFirst p f r

end Node

namespace Element

/-- The value of an attribute. -/
def attr? (e : Element) (key : String) : Option String := e.attributes.lookup key

/-- Sets an attribute, at its place or at the end. -/
def setAttr (e : Element) (key value : String) : Element :=
  { e with attributes := Keyed.set key value e.attributes }

/-- Removes an attribute. -/
def removeAttr (e : Element) (key : String) : Element :=
  { e with attributes := e.attributes.eraseP (·.1 == key) }

/-- The child elements. -/
def elements (e : Element) : List Element := e.children.filterMap Node.element?

/-- The child elements of a name. -/
def named (e : Element) (name : String) : List Element := e.elements.filter (·.name == name)

/-- The first child element of a name. -/
def child? (e : Element) (name : String) : Option Element := e.elements.find? (·.name == name)

/-- Changes the first child element of a name. -/
def mapChild (e : Element) (name : String) (f : Element → Element) : Element :=
  { e with children := Node.mapFirst (·.name == name) f e.children }

/-- Changes all child elements of a name. -/
def mapNamed (e : Element) (name : String) (f : Element → Element) : Element :=
  { e with children := e.children.map (Node.mapElement fun c => if c.name == name then f c else c) }

/-- Follows names of child elements, the first of its name at each step. -/
def descend (e : Element) : List String → Option Element
  | [] => some e
  | name :: names => (e.child? name).bind (·.descend names)

/-- Changes the element that names of child elements lead to. -/
def mapDescendant (e : Element) (f : Element → Element) : List String → Element
  | [] => f e
  | name :: names => e.mapChild name (mapDescendant · f names)

/-- The place of the first child element of a name among all children. -/
def position? (e : Element) (name : String) : Option Nat :=
  e.children.findIdx? (·.isElement (·.name == name))

/-- Adds a child element at the end. -/
def push (e child : Element) : Element := { e with children := e.children ++ [.element child] }

/-- Adds child elements at the end. -/
def pushAll (e : Element) (children : List Element) : Element :=
  { e with children := e.children ++ children.map .element }

/-- Adds a child element at a place among all children, at the end if there are fewer. -/
def insert (e : Element) (place : Nat) (child : Element) : Element :=
  { e with children := e.children.take place ++ .element child :: e.children.drop place }

/-- Removes the child elements for which `p` holds. -/
def removeWhere (e : Element) (p : Element → Bool) : Element :=
  { e with children := e.children.filter (!·.isElement p) }

/-- Removes the child elements of a name. -/
def removeNamed (e : Element) (name : String) : Element := e.removeWhere (·.name == name)

/-- Removes all child elements. -/
def removeElements (e : Element) : Element := e.removeWhere fun _ => true

/-- The character content of the children, joined. -/
def text (e : Element) : String := String.join (e.children.map Node.content)

/-- Replaces all children by one text. -/
def setText (e : Element) (t : String) : Element := { e with children := [.text t] }

/-- The element without children. -/
def shallow (e : Element) : Element := { e with children := [] }

/-- The number of child elements of a name. -/
def countNamed (e : Element) (name : String) : Nat := (e.named name).length

/-- An element with one text inside. -/
def ofText (name t : String) : Element := { name, children := [.text t] }

/-- An element with attributes and child elements. -/
def ofChildren (name : String) (attributes : List (String × String)) (children : List Element) :
    Element :=
  { name, attributes, children := children.map .element }

/-- An attribute that is set has its value. -/
@[simp]
theorem attr?_setAttr_self (e : Element) (key value : String) :
    (e.setAttr key value).attr? key = some value := Keyed.lookup_set_self ..

/-- The other attributes keep theirs. -/
theorem attr?_setAttr_of_ne (e : Element) {key other : String} (h : other ≠ key) (value : String) :
    (e.setAttr key value).attr? other = e.attr? other := Keyed.lookup_set_of_ne h ..

/-- A child that is put in comes last. -/
@[simp]
theorem elements_push (e child : Element) : (e.push child).elements = e.elements ++ [child] := by
  simp [elements, push, Node.element?]

/-- So do many. -/
@[simp]
theorem elements_pushAll (e : Element) (children : List Element) :
    (e.pushAll children).elements = e.elements ++ children := by
  simp [elements, pushAll, List.filterMap_map, Function.comp_def, Node.element?]

/-- A text that is set is the text. -/
@[simp]
theorem text_setText (e : Element) (t : String) : (e.setText t).text = t := by
  simp [text, setText, Node.content, String.join]

end Element

end SheetTemplate.Xml
