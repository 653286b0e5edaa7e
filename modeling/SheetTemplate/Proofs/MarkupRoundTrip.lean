import Mathlib.Data.List.Infix
import SheetTemplate.Proofs.MarkupTokens

/-!
# Documents written and read again

A document is read back from what is written of it, but for texts: what is written of texts that
stand side by side is read as one text, and nothing is read of an empty one. `tidy` makes a tree of
which all is read back.

The reader works on a stack of open elements, and the writer goes down the tree. `Reads` relates
them: by induction on the tree, the tokens of an element take the reader from any stack to the same
stack with the element attached. A text is read only when the next bracket is reached, so in the
nodes of an element the induction carries along the text that is written but not read yet.

## Key results

- `run_eq_of_reads`: the number of steps that the reader is given does not matter
- `reads_element`: an element on top of any stack
- `Document.parse_toBytes`: a document
-/

namespace SheetTemplate.Xml

open Text (Glyph)

/-! ### Documents that can be written -/

mutual
/-- An element that the writer can write: it and its attributes have names of XML, no two of its
attributes have the same one, and no section or comment in it contains the mark that ends it. -/
def Element.Writable : Element → Prop
  | ⟨name, attributes, children⟩ => NamedTag name attributes ∧ Node.AllWritable children

/-- A node that the writer can write. -/
def Node.Writable : Node → Prop
  | .element e => e.Writable
  | .text _ => True
  | .cdata t => ¬[']', ']', '>'] <:+: t.toList
  | .comment t => ¬['-', '-', '>'] <:+: t.toList

/-- Nodes that the writer can write. -/
def Node.AllWritable : List Node → Prop
  | [] => True
  | n :: r => n.Writable ∧ Node.AllWritable r
end

mutual
/-- Whether the writer can write an element. -/
def Element.decideWritable : (e : Element) → Decidable e.Writable
  | ⟨name, attributes, children⟩ =>
    have := Node.decideAllWritable children
    inferInstanceAs (Decidable (NamedTag name attributes ∧ Node.AllWritable children))

def Node.decideWritable : (n : Node) → Decidable n.Writable
  | .element e => e.decideWritable
  | .text _ => inferInstanceAs (Decidable True)
  | .cdata t => inferInstanceAs (Decidable (¬[']', ']', '>'] <:+: t.toList))
  | .comment t => inferInstanceAs (Decidable (¬['-', '-', '>'] <:+: t.toList))

def Node.decideAllWritable : (nodes : List Node) → Decidable (Node.AllWritable nodes)
  | [] => inferInstanceAs (Decidable True)
  | n :: r =>
    have := n.decideWritable
    have := Node.decideAllWritable r
    inferInstanceAs (Decidable (n.Writable ∧ Node.AllWritable r))
end

instance (e : Element) : Decidable e.Writable := e.decideWritable

/-- A document that the writer can write. -/
def Document.Writable (d : Document) : Prop := d.root.Writable

instance (d : Document) : Decidable d.Writable := inferInstanceAs (Decidable d.root.Writable)

/-! ### Tidy trees -/

/-- Puts a text before nodes: an empty one is left out, and one before a text is joined to it. -/
def joinText (t : String) (nodes : List Node) : List Node :=
  match nodes with
  | .text u :: r => .text (t ++ u) :: r
  | _ => if t = "" then nodes else .text t :: nodes

mutual
/-- The element with adjacent texts joined, and without empty texts. -/
def Element.tidy : Element → Element
  | ⟨name, attributes, children⟩ => ⟨name, attributes, Node.tidyAll children⟩

/-- Nodes with adjacent texts joined, and without empty texts. -/
def Node.tidyAll : List Node → List Node
  | [] => []
  | .text t :: r => joinText t (Node.tidyAll r)
  | .element e :: r => .element e.tidy :: Node.tidyAll r
  | .cdata t :: r => .cdata t :: Node.tidyAll r
  | .comment t :: r => .comment t :: Node.tidyAll r
end

/-- The document with adjacent texts joined, and without empty texts. -/
def Document.tidy (d : Document) : Document := { d with root := d.root.tidy }

mutual
/-- An element in which no text is empty and no two texts are adjacent. -/
def Element.IsTidy : Element → Prop
  | ⟨_, _, children⟩ => Node.AllTidy children

/-- Nodes of which no text is empty and no two texts are adjacent, inside elements included. -/
def Node.AllTidy : List Node → Prop
  | [] => True
  | .text t :: r => t ≠ "" ∧ (∀ u, r.head? ≠ some (.text u)) ∧ Node.AllTidy r
  | .element e :: r => e.IsTidy ∧ Node.AllTidy r
  | .cdata _ :: r => Node.AllTidy r
  | .comment _ :: r => Node.AllTidy r
end

/-- A text as a node, unless it is empty. -/
def textNodes (t : String) : List Node := if t = "" then [] else [.text t]

/-- Joining nothing changes nothing. -/
theorem joinText_empty (nodes : List Node) : joinText "" nodes = nodes := by
  unfold joinText
  split
  · rw [String.empty_append]
  · rw [if_pos rfl]

/-- Before anything but a text, a text stays by itself. -/
theorem joinText_eq_append {nodes : List Node} (h : ∀ u, nodes.head? ≠ some (.text u))
    (t : String) : joinText t nodes = textNodes t ++ nodes := by
  unfold joinText textNodes
  split
  · rename_i u r
    exact absurd rfl (h u)
  · split <;> rfl

/-- Texts that are joined in turn are joined together. -/
theorem joinText_joinText (t u : String) (nodes : List Node) :
    joinText t (joinText u nodes) = joinText (t ++ u) nodes := by
  -- The next node is a text, with which both are joined, or it is not.
  by_cases htext : ∃ v r, nodes = .text v :: r
  · obtain ⟨v, r, rfl⟩ := htext
    show [Node.text (t ++ (u ++ v))] ++ r = [Node.text (t ++ u ++ v)] ++ r
    rw [String.append_assoc]
  · have hhead : ∀ v, nodes.head? ≠ some (.text v) := by
      intro v hv
      obtain ⟨r, hr⟩ := List.head?_eq_some_iff.1 hv
      exact htext ⟨v, r, hr⟩
    rw [joinText_eq_append hhead u, joinText_eq_append hhead (t ++ u)]
    by_cases hu : u = ""
    · subst hu
      rw [String.append_empty]
      exact joinText_eq_append hhead t
    · have hne : t ++ u ≠ "" := fun hempty => hu (String.append_eq_empty_iff.1 hempty).2
      rw [textNodes, textNodes, if_neg hu, if_neg hne]
      rfl

/-- A text before tidy nodes is joined to them. -/
private theorem allTidy_joinText (t : String) {nodes : List Node} (h : Node.AllTidy nodes) :
    Node.AllTidy (joinText t nodes) := by
  -- As above; a text is put in front only if it is not empty.
  by_cases htext : ∃ u r, nodes = .text u :: r
  · obtain ⟨u, r, rfl⟩ := htext
    exact ⟨fun hempty => h.1 (String.append_eq_empty_iff.1 hempty).2, h.2⟩
  · have hhead : ∀ u, nodes.head? ≠ some (.text u) := by
      intro u hu
      obtain ⟨r, hr⟩ := List.head?_eq_some_iff.1 hu
      exact htext ⟨u, r, hr⟩
    rw [joinText_eq_append hhead, textNodes]
    split
    · exact h
    · rename_i hne
      exact ⟨hne, hhead, h⟩

mutual
/-- What tidying makes is tidy. -/
theorem Element.isTidy_tidy : (e : Element) → e.tidy.IsTidy
  | ⟨_, _, children⟩ => by
    rw [Element.tidy, Element.IsTidy]
    exact Node.allTidy_tidyAll children

/-- So is what it makes of a list of nodes. -/
theorem Node.allTidy_tidyAll : (nodes : List Node) → Node.AllTidy (Node.tidyAll nodes)
  | [] => trivial
  | .text t :: r => by
    rw [Node.tidyAll]
    exact allTidy_joinText t (Node.allTidy_tidyAll r)
  | .element e :: r => by
    rw [Node.tidyAll]
    exact ⟨e.isTidy_tidy, Node.allTidy_tidyAll r⟩
  | .cdata _ :: r => by
    rw [Node.tidyAll]
    exact Node.allTidy_tidyAll r
  | .comment _ :: r => by
    rw [Node.tidyAll]
    exact Node.allTidy_tidyAll r
end

mutual
/-- A tidy tree stays as it is. -/
theorem Element.tidy_of_isTidy : (e : Element) → e.IsTidy → e.tidy = e
  | ⟨_, _, children⟩, h => by
    rw [Element.tidy, Node.tidyAll_of_allTidy children h]

/-- A tidy list is its own tidy form. -/
theorem Node.tidyAll_of_allTidy :
    (nodes : List Node) → Node.AllTidy nodes → Node.tidyAll nodes = nodes
  | [], _ => by rw [Node.tidyAll]
  | .text t :: r, h => by
    rw [Node.tidyAll, Node.tidyAll_of_allTidy r h.2.2, joinText_eq_append h.2.1, textNodes,
      if_neg h.1]
    rfl
  | .element e :: r, h => by
    rw [Node.tidyAll, Element.tidy_of_isTidy e h.1, Node.tidyAll_of_allTidy r h.2]
  | .cdata _ :: r, h => by
    rw [Node.tidyAll, Node.tidyAll_of_allTidy r h]
  | .comment _ :: r, h => by
    rw [Node.tidyAll, Node.tidyAll_of_allTidy r h]
end

/-! ### Written characters -/

mutual
/-- What is written of an element. -/
def Element.chars : Element → List Char
  | ⟨name, attributes, []⟩ => '<' :: (tagChars name attributes ++ ['/', '>'])
  | ⟨name, attributes, child :: children⟩ =>
    '<' :: (tagChars name attributes ++ '>' :: (Node.charsAll (child :: children) ++
      '<' :: '/' :: (name.toList ++ ['>'])))

/-- What is written of a node. -/
def Node.chars : Node → List Char
  | .element e => e.chars
  | .text t => Entity.escape t.toList
  | .cdata t => Token.sectionChars t
  | .comment t => Token.commentChars t

/-- What is written of nodes. -/
def Node.charsAll : List Node → List Char
  | [] => []
  | n :: r => n.chars ++ Node.charsAll r
end

/-- A written element begins with a bracket. -/
theorem Element.head?_chars (e : Element) : e.chars.head? = some '<' := by
  obtain ⟨name, attributes, children⟩ := e
  cases children <;> rfl

/-- Attributes are written behind what is written already. -/
theorem toList_writeAttributes (out : String) (attributes : List (String × String)) :
    (writeAttributes out attributes).toList = out.toList ++ attributeChars attributes := by
  unfold writeAttributes attributeChars
  induction attributes generalizing out with
  | nil => simp
  | cons a rest ih =>
    rw [List.foldl_cons, ih]
    simp [escaped]

/-- So is what stands between two marks. -/
private theorem toList_marked (out opening t closing : String) :
    (out ++ opening ++ t ++ closing).toList =
      out.toList ++ (opening.toList ++ (t.toList ++ closing.toList)) := by
  simp

mutual
/-- The writer appends what is written of an element. -/
theorem toList_write (out : String) : (e : Element) → (e.write out).toList = out.toList ++ e.chars
  | ⟨name, attributes, []⟩ => by
    rw [Element.write, Element.chars, String.toList_append, toList_writeAttributes]
    simp [tagChars]
  | ⟨name, attributes, child :: children⟩ => by
    rw [Element.write, Element.chars]
    simp only [String.toList_append, toList_writeAll, toList_writeAttributes]
    simp [tagChars]

/-- So is a node. -/
theorem toList_writeNode (out : String) : (n : Node) → (n.write out).toList = out.toList ++ n.chars
  | .element e => by
    rw [Node.write, Node.chars, toList_write]
  | .text t => by
    rw [Node.write, Node.chars, String.toList_append, escaped, String.toList_ofList]
  | .cdata t => by
    rw [Node.write, Node.chars, toList_marked]
    rfl
  | .comment t => by
    rw [Node.write, Node.chars, toList_marked]
    rfl

/-- And a list of nodes. -/
theorem toList_writeAll (out : String) :
    (nodes : List Node) → (Node.writeAll out nodes).toList = out.toList ++ Node.charsAll nodes
  | [] => by
    rw [Node.writeAll, Node.charsAll, List.append_nil]
  | n :: r => by
    rw [Node.writeAll, Node.charsAll, toList_writeAll, toList_writeNode, List.append_assoc]
end

/-! ### Steps of the reader -/

namespace Reader

/-- The tokens at the beginning of some glyphs take one state of the reader to another. -/
inductive Reads : Reader → List Glyph → Reader → List Glyph → Prop
  | refl (r : Reader) (s : List Glyph) : Reads r s r s
  | step {r r₁ r' : Reader} {s s₁ s' : List Glyph} {token : Token}
      (hnext : Token.next? s = some (some (token, s₁))) (hstep : r.step token = some r₁)
      (hrest : Reads r₁ s₁ r' s') : Reads r s r' s'

theorem Reads.trans {r r₁ r' : Reader} {s s₁ s' : List Glyph} (h : Reads r s r₁ s₁)
    (h' : Reads r₁ s₁ r' s') : Reads r s r' s' := by
  induction h with
  | refl => exact h'
  | step hnext hstep _ ih => exact .step hnext hstep (ih h')

/-- A single token is a part. -/
theorem Reads.single {r r' : Reader} {s s' : List Glyph} {token : Token}
    (hnext : Token.next? s = some (some (token, s'))) (hstep : r.step token = some r') :
    Reads r s r' s' := .step hnext hstep (.refl ..)

/-- Enough steps read all there is. -/
theorem run_eq_of_reads {r r' : Reader} {s : List Glyph} (h : Reads r s r' []) {steps : Nat}
    (hsteps : s.length ≤ steps) : r.run steps s = some r' := by
  generalize hend : ([] : List Glyph) = rest at h
  -- Each token takes at least one glyph, so there are enough steps for all of them.
  induction h generalizing steps with
  | refl r s =>
    subst hend
    cases steps <;> rfl
  | @step r r₁ r' s s₁ s' token hnext hstep _ ih =>
    have hlt := Token.next?_length_lt hnext
    cases steps with
    | zero => omega
    | succ steps =>
      rw [run, hnext]
      dsimp only
      rw [hstep]
      exact ih (by omega) hend

/-! ### Texts -/

/-- The reader with nodes added to the innermost of its open elements. -/
def withNodes (r : Reader) (top : OpenElement) (rest : List OpenElement) (nodes : List Node) :
    Reader :=
  { r with stack := { top with children := nodes.reverse ++ top.children } :: rest }

/-- A written text is read when the next bracket is reached. -/
private theorem reads_text {r : Reader} {top : OpenElement} {rest : List OpenElement}
    (hstack : r.stack = top :: rest) (t : String) (more : List Glyph) :
    Reads r ((Entity.escape t.toList).map .char ++ .char '<' :: more)
      (r.withNodes top rest (textNodes t)) (.char '<' :: more) := by
  unfold textNodes
  -- An empty text is written as nothing, and so nothing is read.
  split
  · rename_i hempty
    subst hempty
    obtain ⟨declaration, stack, root⟩ := r
    cases hstack
    exact .refl ..
  · rename_i hne
    have hescaped : Entity.escape t.toList ≠ [] := by
      rw [ne_eq, Entity.escape_eq_nil, String.toList_eq_nil_iff]
      exact hne
    refine .single (Token.next?_text hescaped (Entity.not_mem_escape (by simp) _) more) ?_
    have hread : Token.unescaped? ((Entity.escape t.toList).map .char) = some t := by
      simp [Token.unescaped?]
    simp [step, hstack, hread, attach, withNodes]

/-! ### Trees -/

/-- A name of XML in a closing tag is read as it is. -/
private theorem closingName_of_isName {name : String} (h : IsName name) :
    Token.closingName (name.toList.map .char) = name.toList.map .char := by
  -- The name does not end with a blank, therefore nothing is cut off at its end.
  obtain ⟨start, c, hconcat⟩ : ∃ start c, name.toList = start ++ [c] :=
    ⟨_, _, (List.dropLast_append_getLast h.ne_nil).symm⟩
  have hc : ∀ m ∈ markupChars, c ≠ m := fun m hm heq => by
    have := h.not_mem hm
    rw [hconcat, heq] at this
    simp at this
  have hkept : (Token.isBlank (.char c) || Glyph.char c == .char '\x0c') = false := by
    simp [Token.isBlank, hc ' ' (by decide), hc '\r' (by decide), hc '\n' (by decide),
      hc '\t' (by decide), hc '\x0c' (by decide)]
  unfold Token.closingName
  rw [hconcat]
  simp only [List.map_append, List.map_cons, List.map_nil, List.reverse_append, List.reverse_cons,
    List.reverse_nil, List.nil_append, List.singleton_append, List.dropWhile_cons, hkept,
    Bool.false_eq_true, if_false]
  simp

/-- A node that begins with a bracket is read after the text before it. -/
private theorem reads_cons {t : String} {r : Reader} {top : OpenElement} {rest : List OpenElement}
    (hstack : r.stack = top :: rest) {more : List Glyph} {n n' : Node} {nodes : List Node}
    (hbracket : n.chars.head? = some '<') (htext : ∀ u, n' ≠ .text u)
    (hnode : ∀ (r : Reader) (more : List Glyph), r.stack ≠ [] →
      Reads r (n.chars.map .char ++ more) (r.attach n') more)
    (hnodes : ∀ (r : Reader) (top : OpenElement), r.stack = top :: rest →
      Reads r ((Entity.escape "".toList ++ Node.charsAll nodes).map .char ++ .char '<' :: more)
        (r.withNodes top rest (joinText "" (Node.tidyAll nodes))) (.char '<' :: more)) :
    Reads r ((Entity.escape t.toList ++ (n.chars ++ Node.charsAll nodes)).map .char ++
      .char '<' :: more) (r.withNodes top rest (joinText t (n' :: Node.tidyAll nodes)))
      (.char '<' :: more) := by
  obtain ⟨cs, hcs⟩ := List.head?_eq_some_iff.1 hbracket
  -- First the text, then the node, and then the nodes after it.
  have hfirst := reads_text hstack t
    (cs.map .char ++ ((Node.charsAll nodes).map .char ++ .char '<' :: more))
  have hthen := hnode (r.withNodes top rest (textNodes t))
    ((Node.charsAll nodes).map .char ++ .char '<' :: more) (by simp [withNodes])
  have hlast := hnodes ((r.withNodes top rest (textNodes t)).attach n')
    { top with children := n' :: ((textNodes t).reverse ++ top.children) } rfl
  have hjoin : joinText t (n' :: Node.tidyAll nodes) =
      textNodes t ++ n' :: Node.tidyAll nodes :=
    joinText_eq_append (fun u hu => htext u (by simpa using hu)) t
  rw [hcs] at hthen ⊢
  have hread := (hfirst.trans hthen).trans hlast
  rw [hjoin]
  simpa [withNodes, attach, joinText_empty] using hread

mutual
/-- What is written of an element is read as the element. -/
theorem reads_element (r : Reader) (more : List Glyph) :
    (e : Element) → e.Writable →
      Reads r (e.chars.map .char ++ more) (r.attachElement e.tidy) more
  -- Without nodes inside the tag is closed at once.
  | ⟨name, attributes, []⟩, h => by
    have hnext := Token.next?_lone h.1 more
    have hstep : r.step (.lone ((tagChars name attributes).map .char)) =
        some (r.attachElement { name, attributes }) := by
      rw [step, Token.element?_tagChars h.1]
      rfl
    refine .single ?_ hstep
    rw [Element.chars]
    simpa using hnext
  | ⟨name, attributes, child :: children⟩, h => by
    -- The element is opened, its nodes are attached to it, and it is closed.
    let top : OpenElement :=
      { written := name.toList.map .char, element := { name, attributes } }
    have hopen : r.step (.opening ((tagChars name attributes).map .char)) =
        some { r with stack := top :: r.stack } := by
      rw [step, Token.element?_tagChars h.1, Token.tagName_tagChars h.1.name]
      rfl
    have hnodes := reads_nodes "" { r with stack := top :: r.stack } top r.stack rfl
      (.char '/' :: (name.toList.map .char ++ .char '>' :: more)) (child :: children) h.2
    have hclose : (Reader.withNodes { r with stack := top :: r.stack } top r.stack
        (joinText "" (Node.tidyAll (child :: children)))).step
          (.closing (name.toList.map .char)) =
        some (r.attachElement ⟨name, attributes, Node.tidyAll (child :: children)⟩) := by
      rw [step, withNodes]
      dsimp only
      rw [if_pos (closingName_of_isName h.1.name), joinText_empty, List.reverse_append,
        List.reverse_reverse]
      rfl
    have hread := (Reads.step (Token.next?_opening h.1 _) hopen hnodes).trans
      (.single (Token.next?_closing h.1.name more) hclose)
    rw [Element.chars, Element.tidy]
    simpa [Entity.escape] using hread

/-- What is written of the nodes in an element is read as the nodes, after a text that has been
written before. -/
theorem reads_nodes (t : String) (r : Reader) (top : OpenElement) (rest : List OpenElement)
    (hstack : r.stack = top :: rest) (more : List Glyph) :
    (nodes : List Node) → Node.AllWritable nodes →
      Reads r ((Entity.escape t.toList ++ Node.charsAll nodes).map .char ++ .char '<' :: more)
        (r.withNodes top rest (joinText t (Node.tidyAll nodes))) (.char '<' :: more)
  -- At the end the text that is still to come is read; a further text is joined to it, and anything
  -- else ends it.
  | [], _ => by
    rw [Node.charsAll, List.append_nil, Node.tidyAll, joinText_eq_append (by simp), List.append_nil]
    exact reads_text hstack t more
  | .text u :: nodes, h => by
    have := reads_nodes (t ++ u) r top rest hstack more nodes h.2
    rw [Node.tidyAll, joinText_joinText]
    rw [String.toList_append, Entity.escape_append, List.append_assoc] at this
    exact this
  | .element e :: nodes, h => by
    refine reads_cons hstack (n := .element e) e.head?_chars (by simp) (fun r more hr => ?_)
      fun r top hstack => reads_nodes "" r top rest hstack more nodes h.2
    have hread := reads_element r more e h.1
    rwa [attachElement, if_neg (by simpa using hr)] at hread
  | .cdata u :: nodes, h => by
    refine reads_cons hstack (n := .cdata u) rfl (by simp) (fun r more hr => ?_)
      fun r top hstack => reads_nodes "" r top rest hstack more nodes h.2
    exact .single (Token.next?_cdata h.1 more) (by simp [step, Token.verbatim])
  | .comment u :: nodes, h => by
    refine reads_cons hstack (n := .comment u) rfl (by simp) (fun r more hr => ?_)
      fun r top hstack => reads_nodes "" r top rest hstack more nodes h.2
    exact .single (Token.next?_comment h.1 more) (by simp [step, Token.verbatim])
end

end Reader

/-! ### Documents -/

/-- The glyphs of a written document. -/
private theorem glyphs_toBytes (d : Document) :
    Text.Utf8.glyphs d.toBytes.toList =
      ((if d.declaration then declarationText.toList else []) ++ d.root.chars).map .char := by
  rw [Document.toBytes, Text.Utf8.glyphs_toUTF8, Document.render, toList_write]
  cases d.declaration <;> rfl

/-- A written document begins with a bracket. -/
private theorem dropByteOrderMark_glyphs (d : Document) :
    dropByteOrderMark (Text.Utf8.glyphs d.toBytes.toList) =
      Text.Utf8.glyphs d.toBytes.toList := by
  obtain ⟨cs, hcs⟩ := List.head?_eq_some_iff.1 d.root.head?_chars
  rw [glyphs_toBytes, hcs]
  cases d.declaration <;> rfl

/-- What is written of a document is read as the document, but for empty and adjacent texts. -/
theorem Document.parse_toBytes {d : Document} (h : d.Writable) :
    Document.parse d.toBytes = .ok d.tidy := by
  have hroot : ∀ r : Reader, r.stack = [] →
      r.Reads (d.root.chars.map .char) { r with root := some d.root.tidy } [] := by
    intro r hr
    have := Reader.reads_element r [] d.root h
    rwa [List.append_nil, Reader.attachElement, if_pos (by simp [hr])] at this
  have hreads : Reader.Reads {} (Text.Utf8.glyphs d.toBytes.toList)
      { declaration := d.declaration, root := some d.root.tidy } [] := by
    rw [glyphs_toBytes, List.map_append]
    cases d.declaration with
    | false => exact hroot {} rfl
    | true => exact .step (Token.next?_declaration _) rfl (hroot { declaration := true } rfl)
  rw [Document.parse, dropByteOrderMark_glyphs, Document.ofGlyphs,
    Reader.run_eq_of_reads hreads (Nat.le_refl _)]
  rfl

/-- Round trip of a document: the declaration and the tree come back, the tree with adjacent texts
joined and without empty ones, and so unchanged if it has neither. -/
theorem document_read_back {d : Document} (h : d.Writable) :
    Document.parse d.toBytes = .ok { declaration := d.declaration, root := d.root.tidy } ∧
      d.root.tidy.IsTidy ∧ (d.root.IsTidy → Document.parse d.toBytes = .ok d) := by
  refine ⟨Document.parse_toBytes h, d.root.isTidy_tidy, fun htidy => ?_⟩
  rw [Document.parse_toBytes h, Document.tidy, d.root.tidy_of_isTidy htidy]

/-- A document with texts side by side, an empty text in an element of its own, and marks in all
places where they are no marks. -/
def markedDocument : Document where
  root := {
    name := "t", attributes := [("xml:space", "a < \"b\" & 'ü'"), ("größe", "")]
    children := [
      .text "x", .text "", .text " > y", .element { name := "si", children := [.text ""] },
      .cdata "<&]] >", .comment ">->", .text "&amp;"] }

/-- A document with texts side by side, an empty section and a comment, as it is read back. -/
theorem document_read_back_sample :
    Document.parse markedDocument.toBytes = .ok { root := {
      name := "t", attributes := [("xml:space", "a < \"b\" & 'ü'"), ("größe", "")]
      children := [
        .text "x > y", .element { name := "si" }, .cdata "<&]] >", .comment ">->",
        .text "&amp;"] } } := by
  refine (document_read_back (by decide +kernel)).1.trans (congrArg Except.ok ?_)
  decide +kernel

end SheetTemplate.Xml
