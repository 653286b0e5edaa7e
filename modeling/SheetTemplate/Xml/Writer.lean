import SheetTemplate.Xml.Entity
import SheetTemplate.Xml.Tree

/-!
# Writing markup

`Document.render` writes a tree: attributes in double quotes, reserved characters as entities, an
element without children as a single tag. Sections and comments are written as they are.
-/

namespace SheetTemplate.Xml

/-- A text with its reserved characters as entities. -/
def escaped (s : String) : String := String.ofList (Entity.escape s.toList)

/-- Writes the attributes of a tag. -/
def writeAttributes (out : String) (attributes : List (String × String)) : String :=
  attributes.foldl (fun out (key, value) => out ++ " " ++ key ++ "=\"" ++ escaped value ++ "\"") out

mutual
/-- Writes an element after what has been written. -/
def Element.write (out : String) : Element → String
  | ⟨name, attributes, []⟩ => writeAttributes (out ++ "<" ++ name) attributes ++ "/>"
  | ⟨name, attributes, child :: children⟩ =>
    Node.writeAll (writeAttributes (out ++ "<" ++ name) attributes ++ ">") (child :: children) ++
      "</" ++ name ++ ">"

/-- Writes a node after what has been written. -/
def Node.write (out : String) : Node → String
  | .element e => e.write out
  | .text t => out ++ escaped t
  | .cdata t => out ++ "<![CDATA[" ++ t ++ "]]>"
  | .comment t => out ++ "<!--" ++ t ++ "-->"

/-- Writes nodes one after another. -/
def Node.writeAll (out : String) : List Node → String
  | [] => out
  | n :: r => Node.writeAll (n.write out) r
end

/-- The written form of an element. -/
def Element.render (e : Element) : String := e.write ""

/-- The declaration of a document. -/
def declarationText : String := "<?xml version=\"1.0\" encoding=\"UTF-8\" standalone=\"yes\"?>"

/-- The written form of a document. -/
def Document.render (d : Document) : String :=
  d.root.write (if d.declaration then declarationText else "")

/-- The bytes of a document. -/
def Document.toBytes (d : Document) : ByteArray := d.render.toUTF8

end SheetTemplate.Xml
