import Mathlib.Data.List.Forall2
import SheetTemplate.Proofs.ElementEdits
import SheetTemplate.Proofs.MarkupRoundTrip

/-!
# Edits of trees that are written to the same markup

An element that was written and read again is tidy, while the one it was written from may have texts
side by side. `SameTree` relates elements that read back as one and the same tree. What a program
asks of an element, its attributes, its child elements and their texts, has the same answer for
both, and an edit that looks at nothing else takes them to elements that are related again.

An edit works on the list of children. If it passes over all that is no element, it does not matter
whether the texts on its way are joined before or after it, which is one induction for all edits.

## Key results

- `TidyEdit`: what is asked of an edit, with one lemma for each edit
- `SameTree`: elements that read back as the same tree
-/

namespace SheetTemplate.Xml

/-! ### Nodes that can be written -/

/-- Nodes are writable all together when each of them is. -/
theorem Node.allWritable_iff {nodes : List Node} :
    Node.AllWritable nodes ↔ ∀ n ∈ nodes, n.Writable := by
  induction nodes with
  | nil => simp [Node.AllWritable]
  | cons n r ih => simp [Node.AllWritable, ih]

/-- So two lists of nodes are writable when both are. -/
theorem Node.allWritable_append {nodes more : List Node} :
    Node.AllWritable (nodes ++ more) ↔ Node.AllWritable nodes ∧ Node.AllWritable more := by
  simp only [Node.allWritable_iff, List.mem_append, or_imp, forall_and]

/-- What becomes of a text before nodes. -/
private theorem joinText_cases (t : String) (nodes : List Node) :
    (∃ u r, nodes = .text u :: r ∧ joinText t nodes = .text (t ++ u) :: r) ∨
      (t = "" ∧ joinText t nodes = nodes) ∨ joinText t nodes = .text t :: nodes := by
  unfold joinText
  split
  · exact .inl ⟨_, _, rfl, rfl⟩
  · split
    · rename_i hempty
      exact .inr (.inl ⟨hempty, rfl⟩)
    · exact .inr (.inr rfl)

/-- A text that is joined to the next one is written like both. -/
private theorem allWritable_joinText {nodes : List Node} (h : Node.AllWritable nodes) (t : String) :
    Node.AllWritable (joinText t nodes) := by
  rcases joinText_cases t nodes with ⟨u, r, rfl, hjoin⟩ | ⟨-, hjoin⟩ | hjoin <;> rw [hjoin]
  · exact ⟨trivial, h.2⟩
  · exact h
  · exact ⟨trivial, h⟩

mutual
/-- What can be written can be written in its tidy form. -/
theorem Element.writable_tidy : (e : Element) → e.Writable → e.tidy.Writable
  | ⟨_, _, children⟩, h => ⟨h.1, Node.allWritable_tidyAll children h.2⟩

/-- Joining texts leaves the nodes writable. -/
theorem Node.allWritable_tidyAll :
    (nodes : List Node) → Node.AllWritable nodes → Node.AllWritable (Node.tidyAll nodes)
  | [], _ => trivial
  | .text t :: r, h => allWritable_joinText (Node.allWritable_tidyAll r h.2) t
  | .element e :: r, h => ⟨e.writable_tidy h.1, Node.allWritable_tidyAll r h.2⟩
  | .cdata _ :: r, h => ⟨h.1, Node.allWritable_tidyAll r h.2⟩
  | .comment _ :: r, h => ⟨h.1, Node.allWritable_tidyAll r h.2⟩
end

/-! ### The same questions of a tidy tree -/

/-- Texts that have been joined do not stand side by side any more. -/
@[simp]
theorem Node.tidyAll_tidyAll (nodes : List Node) :
    Node.tidyAll (Node.tidyAll nodes) = Node.tidyAll nodes :=
  Node.tidyAll_of_allTidy _ (Node.allTidy_tidyAll nodes)

/-- A tidy element is its own tidy form. -/
@[simp]
theorem Element.tidy_tidy (e : Element) : e.tidy.tidy = e.tidy :=
  e.tidy.tidy_of_isTidy e.isTidy_tidy

/-- Tidying keeps the name. -/
@[simp]
theorem Element.name_tidy (e : Element) : e.tidy.name = e.name := by
  cases e
  rw [Element.tidy]

/-- It keeps the attributes. -/
@[simp]
theorem Element.attributes_tidy (e : Element) : e.tidy.attributes = e.attributes := by
  cases e
  rw [Element.tidy]

/-- It joins the texts of the list of children. -/
@[simp]
theorem Element.children_tidy (e : Element) : e.tidy.children = Node.tidyAll e.children := by
  cases e
  rw [Element.tidy]

/-- Hence each attribute. -/
@[simp]
theorem Element.attr?_tidy (e : Element) (key : String) : e.tidy.attr? key = e.attr? key := by
  rw [attr?, attr?, attributes_tidy]

/-- Joining a text to the next one drops no element. -/
private theorem filterMap_joinText (t : String) (nodes : List Node) :
    (joinText t nodes).filterMap Node.element? = nodes.filterMap Node.element? := by
  rcases joinText_cases t nodes with ⟨u, r, rfl, hjoin⟩ | ⟨-, hjoin⟩ | hjoin <;> rw [hjoin] <;> rfl

/-- The child elements stay, each in its tidy form. -/
@[simp]
theorem Element.elements_tidy (e : Element) : e.tidy.elements = e.elements.map Element.tidy := by
  unfold elements
  rw [children_tidy]
  induction e.children with
  | nil => rfl
  | cons n r ih =>
    cases n with
    | text t => rw [Node.tidyAll, filterMap_joinText, ih]; rfl
    | element c => simp [Node.tidyAll, Node.element?, ih]
    | cdata t | comment t => rw [Node.tidyAll]; exact ih

/-- The children of a name are the tidy forms of those there were. -/
@[simp]
theorem Element.named_tidy (e : Element) (n : String) :
    e.tidy.named n = (e.named n).map Element.tidy := by
  simp [named, List.filter_map, Function.comp_def]

/-- Likewise the first of them. -/
@[simp]
theorem Element.child?_tidy (e : Element) (n : String) :
    e.tidy.child? n = (e.child? n).map Element.tidy := by
  simp only [child?, Element.elements_tidy, List.find?_map, Function.comp_def, Element.name_tidy]

/-- The contents of joined texts are joined. -/
private theorem join_joinText (t : String) (nodes : List Node) :
    String.join ((joinText t nodes).map Node.content) =
      t ++ String.join (nodes.map Node.content) := by
  rcases joinText_cases t nodes with ⟨u, r, rfl, hjoin⟩ | ⟨rfl, hjoin⟩ | hjoin <;> rw [hjoin]
  · simp [Node.content, String.append_assoc]
  · simp
  · simp [Node.content]

/-- The text of an element does not depend on how it is divided. -/
@[simp]
theorem Element.text_tidy (e : Element) : e.tidy.text = e.text := by
  unfold text
  rw [children_tidy]
  -- Along the nodes: a text goes into the one after it, all others stay.
  induction e.children with
  | nil => rfl
  | cons n r ih =>
    cases n with
    | text t =>
      rw [Node.tidyAll, join_joinText, ih]
      simp [Node.content]
    | element c | cdata t | comment t =>
      simp [Node.tidyAll, Node.content, ih]

/-! ### Edits of nodes -/

/-- An edit that passes over all that is no element. It does the same before and after texts are
joined if it does so for a first element. -/
private theorem tidyAll_edit {edit : List Node → List Node}
    (htext : ∀ t r, edit (.text t :: r) = .text t :: edit r)
    (hcdata : ∀ t r, edit (.cdata t :: r) = .cdata t :: edit r)
    (hcomment : ∀ t r, edit (.comment t :: r) = .comment t :: edit r)
    (helement : ∀ e r, Node.tidyAll (edit r) = Node.tidyAll (edit (Node.tidyAll r)) →
      Node.tidyAll (edit (.element e :: r)) =
        Node.tidyAll (edit (.element e.tidy :: Node.tidyAll r))) (nodes : List Node) :
    Node.tidyAll (edit nodes) = Node.tidyAll (edit (Node.tidyAll nodes)) := by
  -- A text may be joined to what follows before the edit or after it.
  have hjoin : ∀ t r, Node.tidyAll (edit (joinText t r)) = joinText t (Node.tidyAll (edit r)) := by
    intro t r
    rcases joinText_cases t r with ⟨u, r, rfl, hjoin⟩ | ⟨rfl, hjoin⟩ | hjoin <;> rw [hjoin]
    · rw [htext, htext, Node.tidyAll, Node.tidyAll, joinText_joinText]
    · rw [joinText_empty]
    · rw [htext, Node.tidyAll]
  induction nodes with
  | nil => rfl
  | cons n r ih =>
    cases n with
    | element e => exact helement e r ih
    | text t => rw [htext, Node.tidyAll, Node.tidyAll, hjoin, ih]
    | cdata t => rw [hcdata, Node.tidyAll, Node.tidyAll, hcdata, Node.tidyAll, ih]
    | comment t => rw [hcomment, Node.tidyAll, Node.tidyAll, hcomment, Node.tidyAll, ih]

/-- The children of an element are all that its tidy form changes. -/
private theorem tidy_eq_of_children {e e' : Element} (hname : e.name = e'.name)
    (hattributes : e.attributes = e'.attributes)
    (hchildren : Node.tidyAll e.children = Node.tidyAll e'.children) : e.tidy = e'.tidy := by
  obtain ⟨name, attributes, children⟩ := e
  obtain ⟨name', attributes', children'⟩ := e'
  dsimp only at hname hattributes hchildren
  rw [Element.tidy, Element.tidy, hname, hattributes, hchildren]

/-- An element is writable by its tag and by its nodes. -/
theorem Element.writable_iff {e : Element} :
    e.Writable ↔ NamedTag e.name e.attributes ∧ Node.AllWritable e.children := by
  cases e
  rw [Element.Writable]

private theorem isElement_element (p : Element → Bool) (e : Element) :
    Node.isElement p (.element e) = p e := rfl

/-- The child elements of what can be written can be written. -/
theorem Element.writable_of_mem {e c : Element} (h : e.Writable) (hc : c ∈ e.elements) :
    c.Writable := by
  obtain ⟨n, hn, hnode⟩ := List.mem_filterMap.1 hc
  have hwritable := Node.allWritable_iff.1 (writable_iff.1 h).2 n hn
  cases n with
  | element e =>
    cases hnode
    exact hwritable
  | text t | cdata t | comment t => cases hnode

/-! ### Edits of elements -/

/-- An edit whose results can be written if what is edited can, and which does the same before and
after texts are joined. -/
structure TidyEdit (edit : Element → Element) : Prop where
  writable : ∀ e, e.Writable → (edit e).Writable
  tidy : ∀ e, (edit e).tidy = (edit e.tidy).tidy

namespace TidyEdit

variable {edit edit' : Element → Element}

/-- Edits may be made one after the other. -/
theorem comp (h : TidyEdit edit) (h' : TidyEdit edit') : TidyEdit fun e => edit' (edit e) where
  writable e he := h'.writable _ (h.writable e he)
  tidy e := by rw [h'.tidy (edit e), h.tidy e, ← h'.tidy]

/-- Writing an attribute is such an edit if its key is a name. -/
theorem setAttr {key : String} (hkey : IsName key) (value : String) :
    TidyEdit (·.setAttr key value) where
  writable e he := by
    rw [Element.writable_iff] at he ⊢
    refine ⟨⟨he.1.name, fun a ha => ?_, ?_⟩, he.2⟩
    -- The keys are those there were, and the new one where it was not among them.
    · have hmem : a.1 ∈ (Keyed.set key value e.attributes).map Prod.fst := List.mem_map_of_mem ha
      rw [Keyed.map_fst_set] at hmem
      have hkeys : ∀ k ∈ e.attributes.map Prod.fst, IsName k := by
        intro k hk
        obtain ⟨b, hb, rfl⟩ := List.mem_map.1 hk
        exact he.1.keys b hb
      split at hmem
      · exact hkeys _ hmem
      · rcases List.mem_append.1 hmem with hold | hnew
        · exact hkeys _ hold
        · exact List.mem_singleton.1 hnew ▸ hkey
    · show ((Keyed.set key value e.attributes).map Prod.fst).Nodup
      rw [Keyed.map_fst_set]
      split
      · exact he.1.distinct
      · rename_i hnew
        exact List.nodup_append.2 ⟨he.1.distinct, by simp, by
          rintro k hk _ hk' rfl
          exact hnew (List.mem_singleton.1 hk' ▸ hk)⟩
  tidy e := tidy_eq_of_children (by simp) (by simp [Element.setAttr]) (by simp [Element.setAttr])

/-- Writing a text is one, if the text does not depend on the division of texts. -/
theorem setText {t : Element → String} (ht : ∀ e, t e.tidy = t e) :
    TidyEdit fun e => e.setText (t e) where
  writable e he := by
    rw [Element.writable_iff] at he ⊢
    exact ⟨he.1, trivial, trivial⟩
  tidy e :=
    tidy_eq_of_children (by simp) (by simp [Element.setText]) (by simp [Element.setText, ht])

/-- An edit of the children alone. -/
private theorem ofNodes {nodes : List Node → List Node}
    (hwritable : ∀ l, Node.AllWritable l → Node.AllWritable (nodes l))
    (htidy : ∀ l, Node.tidyAll (nodes l) = Node.tidyAll (nodes (Node.tidyAll l))) :
    TidyEdit fun e => { e with children := nodes e.children } where
  writable e he := by
    rw [Element.writable_iff] at he ⊢
    exact ⟨he.1, hwritable _ he.2⟩
  tidy e := tidy_eq_of_children (by simp) (by simp) (by simpa using htidy e.children)

/-- Putting writable children at the end is one. -/
theorem pushAll {children : List Element} (h : ∀ c ∈ children, c.Writable) :
    TidyEdit (·.pushAll children) := by
  have hlast : Node.AllWritable (children.map .element) := Node.allWritable_iff.2 fun n hn => by
    obtain ⟨c, hc, rfl⟩ := List.mem_map.1 hn
    exact h c hc
  exact ofNodes (fun l hl => Node.allWritable_append.2 ⟨hl, hlast⟩)
    (tidyAll_edit (fun _ _ => rfl) (fun _ _ => rfl) (fun _ _ => rfl) fun e r hr => by
      rw [List.cons_append, List.cons_append, Node.tidyAll, Node.tidyAll, hr, e.tidy_tidy])

/-- Putting one there is one. -/
theorem push {child : Element} (hchild : child.Writable) : TidyEdit (·.push child) :=
  pushAll (show ∀ c ∈ [child], c.Writable by simpa using hchild)

/-- So is removing children, if the test does not depend on the division of texts. -/
theorem removeWhere {p : Element → Bool} (hp : ∀ e, p e.tidy = p e) :
    TidyEdit (·.removeWhere p) :=
  ofNodes
    (fun l h => Node.allWritable_iff.2 fun n hn =>
      Node.allWritable_iff.1 h n (List.mem_of_mem_filter hn))
    (tidyAll_edit (fun _ _ => rfl) (fun _ _ => rfl) (fun _ _ => rfl) fun e r h => by
      cases hremoved : p e with
      | true => simpa [isElement_element, hp, hremoved] using h
      | false => simp [isElement_element, hp, hremoved, Node.tidyAll, h])

/-- So is an edit of the first child of a name, made by such an edit. -/
theorem mapChild (h : TidyEdit edit) (n : String) : TidyEdit (·.mapChild n edit) :=
  -- The nodes stay writable, as only the child found is edited.
  ofNodes
    (fun l hl => by
      induction l with
      | nil => exact hl
      | cons node r ih =>
        unfold Node.mapFirst
        split
        · cases node with
          | element e => exact ⟨h.writable e hl.1, hl.2⟩
          | text t | cdata t | comment t => exact hl
        · exact ⟨hl.1, ih hl.2⟩)
    -- Tidying first or last comes to the same, because the search looks at names, which tidying
    -- keeps.
    (tidyAll_edit (fun _ _ => rfl) (fun _ _ => rfl) (fun _ _ => rfl) fun e r hr => by
      by_cases hname : e.name = n
      · simp [Node.mapFirst, isElement_element, Node.mapElement, hname, Node.tidyAll, ← h.tidy e]
      · simp [Node.mapFirst, isElement_element, hname, Node.tidyAll, hr])

/-- So is an edit of all children of a name. -/
theorem mapNamed (h : TidyEdit edit) (n : String) : TidyEdit (·.mapNamed n edit) :=
  ofNodes
    (fun l hl => Node.allWritable_iff.2 fun node hnode => by
      obtain ⟨old, hold, rfl⟩ := List.mem_map.1 hnode
      have hwritable := Node.allWritable_iff.1 hl old hold
      cases old with
      | element e =>
        show Element.Writable (if e.name == n then edit e else e)
        split
        · exact h.writable e hwritable
        · exact hwritable
      | text t | cdata t | comment t => exact hwritable)
    (tidyAll_edit (fun _ _ => rfl) (fun _ _ => rfl) (fun _ _ => rfl) fun e r hr => by
      rw [List.map_cons, List.map_cons, Node.mapElement, Node.mapElement, Node.tidyAll,
        Node.tidyAll, hr, e.name_tidy]
      split
      · rw [← h.tidy e]
      · rw [e.tidy_tidy])

/-- Puts a child element before the first of a name, or at the end. -/
private def insertNode (child : Element) (n : String) : List Node → List Node
  | [] => [.element child]
  | node :: r =>
    if node.isElement (·.name == n) then .element child :: node :: r
    else node :: insertNode child n r

/-- Inserting before the first child of a name, or at the end, written as one place. -/
private theorem insertNode_eq (child : Element) (n : String) (nodes : List Node) :
    insertNode child n nodes =
      let place := (nodes.findIdx? (·.isElement (·.name == n))).getD nodes.length
      nodes.take place ++ .element child :: nodes.drop place := by
  induction nodes with
  | nil => rfl
  | cons node r ih =>
    rw [insertNode, ih, List.findIdx?_cons]
    split
    · rfl
    · cases r.findIdx? (·.isElement (·.name == n)) <;> rfl

/-- Inserting a writable child is one, for the place is found by names. -/
theorem insert {child : Element} (hchild : child.Writable) (n : String) :
    TidyEdit fun e => e.insert ((e.position? n).getD e.children.length) child := by
  have hinsert : ∀ e : Element, e.insert ((e.position? n).getD e.children.length) child =
      { e with children := insertNode child n e.children } := by
    intro e
    rw [insertNode_eq]
    rfl
  simp only [hinsert]
  refine ofNodes (fun l hl => ?_)
    (tidyAll_edit (fun _ _ => rfl) (fun _ _ => rfl) (fun _ _ => rfl) fun e r hr => ?_)
  -- What is put in stands between two parts that were writable before.
  · rw [insertNode_eq]
    dsimp only
    rw [← List.take_append_drop ((l.findIdx? (·.isElement (·.name == n))).getD l.length) l] at hl
    have hparts := Node.allWritable_append.1 hl
    exact Node.allWritable_append.2 ⟨hparts.1, hchild, hparts.2⟩
  · by_cases hname : e.name = n
    · simp [insertNode, isElement_element, hname, Node.tidyAll]
    · simp [insertNode, isElement_element, hname, Node.tidyAll, hr]

end TidyEdit

/-! ### Elements that read back as the same tree -/

/-- Elements that can be written and read back as the same tree. -/
structure SameTree (e e' : Element) : Prop where
  left : e.Writable
  right : e'.Writable
  tidy : e.tidy = e'.tidy

namespace SameTree

variable {e e' e'' : Element}

theorem refl (h : e.Writable) : SameTree e e := ⟨h, h, rfl⟩

theorem trans (h : SameTree e e') (h' : SameTree e' e'') : SameTree e e'' :=
  ⟨h.left, h'.right, h.tidy.trans h'.tidy⟩

/-- What is read of an element that was written. -/
theorem tidy_right (h : e.Writable) : SameTree e e.tidy :=
  ⟨h, e.writable_tidy h, e.tidy_tidy.symm⟩

/-- A tidy edit keeps two such elements alike. -/
theorem edit (h : SameTree e e') {f : Element → Element} (hf : TidyEdit f) :
    SameTree (f e) (f e') :=
  ⟨hf.writable e h.left, hf.writable e' h.right, by rw [hf.tidy e, h.tidy, ← hf.tidy]⟩

/-- What tidying makes of the end of a list is all that counts of it. -/
private theorem tidyAll_append_congr (nodes : List Node) {more more' : List Node}
    (h : Node.tidyAll more = Node.tidyAll more') :
    Node.tidyAll (nodes ++ more) = Node.tidyAll (nodes ++ more') := by
  induction nodes with
  | nil => exact h
  | cons n r ih => cases n <;> simp [Node.tidyAll, ih]

/-- Elements are tidied one by one. -/
private theorem tidyAll_map_element (children : List Element) :
    Node.tidyAll (children.map .element) = (children.map Element.tidy).map .element := by
  induction children with
  | nil => rfl
  | cons c r ih => rw [List.map_cons, List.map_cons, List.map_cons, Node.tidyAll, ih]

/-- Children that read back as the same trees go into elements that do. -/
theorem pushAll (h : SameTree e e') {children children' : List Element}
    (hchildren : List.Forall₂ SameTree children children') :
    SameTree (e.pushAll children) (e'.pushAll children') := by
  -- The two lists are as long as each other and tidy to the same elements; this is all that is
  -- needed of them.
  have hboth : (∀ c ∈ children, c.Writable) ∧ (∀ c ∈ children', c.Writable) ∧
      children.map Element.tidy = children'.map Element.tidy := by
    induction hchildren with
    | nil => simp
    | cons hc _ ih =>
      simpa [hc.left, hc.right, hc.tidy, ih.2.2] using And.intro ih.1 ih.2.1
  obtain ⟨hleft, hright, htidy⟩ := hboth
  refine (h.edit (.pushAll hleft)).trans
    ⟨(TidyEdit.pushAll hleft).writable e' h.right, (TidyEdit.pushAll hright).writable e' h.right,
      ?_⟩
  refine tidy_eq_of_children rfl rfl (tidyAll_append_congr _ ?_)
  rw [tidyAll_map_element, tidyAll_map_element, htidy]

/-- The children of a name are alike too. -/
theorem named (h : SameTree e e') (n : String) :
    (e'.named n).map Element.tidy = (e.named n).map Element.tidy := by
  rw [← e.named_tidy, h.tidy, e'.named_tidy]

end SameTree

end SheetTemplate.Xml
