import SheetTemplate.Error
import SheetTemplate.Xml.Entity
import SheetTemplate.Xml.Token
import SheetTemplate.Xml.Tree

/-!
# Reading markup

`Document.parse` builds a tree from tokens on a stack of open elements. Text counts only inside an
element; of several roots the last one is kept. What is no markup at all is refused first, then an
element that is never closed, then the lack of any element.
-/

namespace SheetTemplate.Xml

open Text (Glyph)
open Text.Utf8 (lossy strict? glyphs)

namespace Token

/-- The name at the beginning of a tag. -/
def tagName (tag : List Glyph) : List Glyph := tag.takeWhile (!isBlank ·)

/-- The name in a closing tag. Blanks after it do not count, nor do form feeds; a name of nothing
else stays as it is. -/
def closingName (name : List Glyph) : List Glyph :=
  match name.reverse.dropWhile fun g => isBlank g || g == .char '\x0c' with
  | [] => name
  | bare => bare.reverse

/-- The value in quotes that a text begins with, after blanks, and what follows it. -/
def quoted? (s : List Glyph) : Option (List Glyph × List Glyph) :=
  match s.dropWhile isBlank with
  | q :: r =>
    if (q = .char '"' ∨ q = .char '\x27') ∧ q ∈ r then
      some (r.takeWhile (· != q), (r.dropWhile (· != q)).drop 1)
    else none
  | [] => none

/-- The attribute that a text begins with, after blanks, and what follows it; none at all if only
blanks are left. Key and value are given as written. -/
def attribute? (s : List Glyph) : Option (Option ((List Glyph × List Glyph) × List Glyph)) :=
  match s.dropWhile isBlank with
  | [] => some none
  | g :: r =>
    let key := g :: r.takeWhile fun x => x != .char '=' && !isBlank x
    match (r.dropWhile fun x => x != .char '=' && !isBlank x).dropWhile isBlank with
    | .char '=' :: afterEqual =>
      (quoted? afterEqual).map fun (value, rest) => some ((key, value), rest)
    | _ => none

/-- The attributes of a tag as written, none with the key of an earlier one. There are fewer
attributes than glyphs. -/
def attributes? (done : List (List Glyph × List Glyph)) :
    Nat → List Glyph → Option (List (List Glyph × List Glyph))
  | 0, s => if s.all isBlank then some done.reverse else none
  | steps + 1, s =>
    match attribute? s with
    | some none => some done.reverse
    | some (some (pair, rest)) =>
      if done.any (·.1 == pair.1) then none else attributes? (pair :: done) steps rest
    | none => none

/-- The text that a written text stands for; none if it is not UTF-8 or has a bad entity. -/
def unescaped? (s : List Glyph) : Option String :=
  ((strict? s).bind Entity.unescape?).map String.ofList

/-- The characters of a text in which entities do not count. -/
def verbatim (s : List Glyph) : String := String.ofList (lossy s)

/-- The element that a tag opens, without children. -/
def element? (tag : List Glyph) : Option Element := do
  let name := tagName tag
  let written ← attributes? [] tag.length (tag.drop name.length)
  let attributes ← written.mapM fun (key, value) => (unescaped? value).map (verbatim key, ·)
  return { name := verbatim name, attributes }

end Token

/-- An element that is not closed yet: its name as written, the element, and its children so far,
the last first. -/
structure OpenElement where
  written : List Glyph
  element : Element
  children : List Node := []

/-- What has been read of a document. -/
structure Reader where
  declaration : Bool := false
  stack : List OpenElement := []
  root : Option Element := none

namespace Reader

/-- Adds a node to the innermost open element; without one it is dropped. -/
def attach (r : Reader) (n : Node) : Reader :=
  match r.stack with
  | [] => r
  | top :: rest => { r with stack := { top with children := n :: top.children } :: rest }

/-- Adds a whole element; without an open element it becomes the root. -/
def attachElement (r : Reader) (e : Element) : Reader :=
  if r.stack.isEmpty then { r with root := some e } else r.attach (.element e)

/-- Reads one token; none if it is no markup in its place. -/
def step (r : Reader) : Token → Option Reader
  | .opening tag =>
    (Token.element? tag).map fun e =>
      { r with stack := { written := Token.tagName tag, element := e } :: r.stack }
  | .lone tag => (Token.element? tag).map r.attachElement
  | .closing name =>
    match r.stack with
    | top :: rest =>
      if Token.closingName name = top.written then
        some ({ r with stack := rest }.attachElement
          { top.element with children := top.children.reverse })
      else none
    | [] => none
  | .text content =>
    if r.stack.isEmpty then some r else (Token.unescaped? content).map fun t => r.attach (.text t)
  | .cdata content => some (r.attach (.cdata (Token.verbatim content)))
  | .comment content => some (r.attach (.comment (Token.verbatim content)))
  | .declaration => some { r with declaration := true }
  | .skipped => some r

/-- Reads all tokens. Each takes at least one glyph, so as many steps as there are glyphs
suffice. -/
def run (r : Reader) : Nat → List Glyph → Option Reader
  | 0, _ => some r
  | steps + 1, s =>
    match Token.next? s with
    | some none => some r
    | some (some (token, rest)) =>
      match r.step token with
      | some next => next.run steps rest
      | none => none
    | none => none

/-- The document, once all has been read. -/
def finish (r : Reader) : Except Error Document :=
  if !r.stack.isEmpty then .error (.invalidFormat .unclosedElement)
  else
    match r.root with
    | some root => .ok { declaration := r.declaration, root }
    | none => .error (.invalidFormat .emptyPart)

end Reader

/-- Drops a byte order mark. -/
def dropByteOrderMark : List Glyph → List Glyph
  | .char '\uFEFF' :: r => r
  | s => s

/-- Reads a document from glyphs. -/
def Document.ofGlyphs (s : List Glyph) : Except Error Document :=
  match Reader.run {} s.length s with
  | some r => r.finish
  | none => .error .markup

/-- Reads a document from bytes. -/
def Document.parse (bytes : ByteArray) : Except Error Document :=
  Document.ofGlyphs (dropByteOrderMark (glyphs bytes.toList))

end SheetTemplate.Xml
