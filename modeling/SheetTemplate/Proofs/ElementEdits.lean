import SheetTemplate.Xml.Tree

/-!
# What an edit of an element leaves alone

An edit concerns the attribute, the child or the children it names. The lemmas here say what the
name, the attributes and the child elements of an edited element are, so that later proofs never
look at the list of its nodes.
-/

namespace SheetTemplate.Xml.Element

variable (e child : Element) (children : List Element) (key value n : String)
variable (f : Element → Element)

/-! ### The name -/

@[simp] theorem name_setAttr : (e.setAttr key value).name = e.name := rfl

@[simp] theorem name_removeAttr : (e.removeAttr key).name = e.name := rfl

@[simp] theorem name_mapChild : (e.mapChild n f).name = e.name := rfl

@[simp] theorem name_mapNamed : (e.mapNamed n f).name = e.name := rfl

@[simp] theorem name_push : (e.push child).name = e.name := rfl

@[simp] theorem name_pushAll : (e.pushAll children).name = e.name := rfl

@[simp] theorem name_insert (place : Nat) : (e.insert place child).name = e.name := rfl

@[simp] theorem name_removeNamed : (e.removeNamed n).name = e.name := rfl

@[simp] theorem name_removeElements : e.removeElements.name = e.name := rfl

@[simp] theorem name_shallow : e.shallow.name = e.name := rfl

@[simp] theorem name_setText : (e.setText value).name = e.name := rfl

/-! ### Attributes -/

@[simp] theorem attr?_mapChild : (e.mapChild n f).attr? key = e.attr? key := rfl

@[simp] theorem attr?_mapNamed : (e.mapNamed n f).attr? key = e.attr? key := rfl

@[simp] theorem attr?_push : (e.push child).attr? key = e.attr? key := rfl

@[simp] theorem attr?_pushAll : (e.pushAll children).attr? key = e.attr? key := rfl

@[simp] theorem attr?_insert (place : Nat) : (e.insert place child).attr? key = e.attr? key := rfl

@[simp] theorem attr?_removeNamed : (e.removeNamed n).attr? key = e.attr? key := rfl

@[simp] theorem attr?_removeElements : e.removeElements.attr? key = e.attr? key := rfl

@[simp] theorem attr?_shallow : e.shallow.attr? key = e.attr? key := rfl

@[simp] theorem attr?_setText : (e.setText value).attr? key = e.attr? key := rfl

variable {key} in
/-- Other attributes keep their values. -/
theorem attr?_removeAttr_of_ne {other : String} (h : other ≠ key) :
    (e.removeAttr key).attr? other = e.attr? other := by
  unfold removeAttr attr?
  induction e.attributes with
  | nil => rfl
  | cons p r ih =>
    obtain ⟨k, v⟩ := p
    by_cases hk : k = key
    · have hne : (other == k) = false := beq_eq_false_iff_ne.2 (hk ▸ h)
      simp [hk, List.lookup_cons, hk ▸ hne]
    · rw [List.eraseP_cons_of_neg (by simpa using hk), List.lookup_cons, List.lookup_cons, ih]

/-- Setting an attribute anew is setting it once. -/
@[simp]
theorem setAttr_setAttr (value' : String) :
    (e.setAttr key value).setAttr key value' = e.setAttr key value' := by
  simp [setAttr]

variable {e key value} in
/-- An attribute may be given the value that it has. -/
theorem setAttr_of_attr? (h : e.attr? key = some value) : e.setAttr key value = e := by
  obtain ⟨name, attributes, nodes⟩ := e
  unfold setAttr
  dsimp only
  rw [Keyed.set_of_lookup h]

/-- An attribute that is removed might have had any value. -/
@[simp]
theorem removeAttr_setAttr : (e.setAttr key value).removeAttr key = e.removeAttr key := by
  unfold setAttr removeAttr
  congr 1
  dsimp only
  induction e.attributes with
  | nil => simp [Keyed.set]
  | cons a r ih =>
    by_cases hk : a.1 = key
    · simp [Keyed.set, hk]
    · simp [Keyed.set, hk, ih]

variable {e key} in
/-- Removing an attribute that is not there changes nothing. -/
theorem removeAttr_of_attr? (h : e.attr? key = none) : e.removeAttr key = e := by
  obtain ⟨name, attributes, nodes⟩ := e
  unfold removeAttr
  dsimp only
  have hkey : ∀ a ∈ attributes, ¬(a.1 == key) = true := fun a ha => by
    simpa using Ne.symm (bne_iff_ne.1 (List.lookup_eq_none_iff.1 h a ha))
  rw [List.eraseP_of_forall_not hkey]

/-! ### Child elements -/

/-- An attribute is no child: the child elements stay. -/
@[simp] theorem elements_setAttr : (e.setAttr key value).elements = e.elements := rfl

/-- Likewise for the children of one name. -/
@[simp] theorem named_setAttr : (e.setAttr key value).named n = e.named n := rfl

/-- Likewise for the first child of a name. -/
@[simp] theorem child?_setAttr : (e.setAttr key value).child? n = e.child? n := rfl

/-- What is left of the child elements are those the test does not hold of, in their order. -/
theorem elements_removeWhere (p : Element → Bool) :
    (e.removeWhere p).elements = e.elements.filter (!p ·) := by
  unfold removeWhere elements
  induction e.children with
  | nil => rfl
  | cons node r ih =>
    cases node with
    | element c => cases hc : p c <;> simp_all [Node.isElement, Node.element?]
    | text t | cdata t | comment t => exact ih

/-- Without its elements an element has no child elements. -/
@[simp]
theorem elements_removeElements : e.removeElements.elements = [] := by
  simp [removeElements, elements_removeWhere]

variable {e} in
/-- Nothing is removed where the test holds of no child element. The text between the children stays
too. -/
theorem removeWhere_eq_self {p : Element → Bool} (h : ∀ c ∈ e.elements, p c = false) :
    e.removeWhere p = e := by
  obtain ⟨name, attributes, nodes⟩ := e
  -- The test is about elements; texts, character data and comments pass it whatever they hold.
  have hnodes : ∀ node ∈ nodes, (!node.isElement p) = true := by
    intro node hnode
    cases node with
    | element c =>
      have hc := h c (List.mem_filterMap.2 ⟨.element c, hnode, rfl⟩)
      simpa [Node.isElement] using hc
    | text t | cdata t | comment t => rfl
  unfold removeWhere
  dsimp only
  rw [List.filter_eq_self.2 hnodes]

variable {e} in
/-- Without child elements there is nothing to remove. -/
theorem removeElements_of_elements (h : e.elements = []) : e.removeElements = e :=
  removeWhere_eq_self (by simp [h])

variable {e n} in
/-- Removing the children of a name that no child has changes nothing. -/
theorem removeNamed_of_named (h : e.named n = []) : e.removeNamed n = e :=
  removeWhere_eq_self fun c hc => by simpa using List.filter_eq_nil_iff.1 h c hc

/-- Children that were added are removed with the others. -/
theorem removeElements_pushAll_eq : (e.pushAll children).removeElements = e.removeElements := by
  have hremoved : (children.map Node.element).filter (!·.isElement fun _ => true) = [] := by
    simp [List.filter_eq_nil_iff, Node.isElement]
  unfold removeElements removeWhere pushAll
  dsimp only
  rw [List.filter_append, hremoved, List.append_nil]

variable {e} in
/-- Children that were added can be taken away again. -/
theorem removeElements_pushAll (h : e.elements = []) : (e.pushAll children).removeElements = e := by
  rw [removeElements_pushAll_eq, removeElements_of_elements h]

/-- Putting no children behind the last one changes nothing. -/
@[simp]
theorem pushAll_nil : e.pushAll [] = e := by
  cases e
  simp [pushAll]

/-- Children put at the end in two goes are those of both lists, the first list before the
second. -/
@[simp]
theorem pushAll_pushAll (more : List Element) :
    (e.pushAll children).pushAll more = e.pushAll (children ++ more) := by
  simp [pushAll]

/-- The children of one name end with the new children of that name. -/
theorem named_pushAll :
    (e.pushAll children).named n = e.named n ++ children.filter (·.name == n) := by
  simp [named]

/-- Every child element is either edited, having the name, or as it was. -/
theorem elements_mapNamed :
    (e.mapNamed n f).elements = e.elements.map fun c => if c.name == n then f c else c := by
  unfold mapNamed elements
  induction e.children with
  | nil => rfl
  | cons node r ih =>
    dsimp only at ih
    cases node <;>
      simp only [List.map_cons, Node.mapElement, List.filterMap_cons, Node.element?, ih]

variable {f} (hf : ∀ c : Element, (f c).name = c.name)

include hf in
/-- The edit reaches all children of the name, and only their contents differ. -/
theorem named_mapNamed : (e.mapNamed n f).named n = (e.named n).map f := by
  unfold named
  rw [elements_mapNamed]
  induction e.elements with
  | nil => rfl
  | cons c r ih =>
    rw [List.map_cons, List.filter_cons, List.filter_cons, ih]
    by_cases hc : c.name = n
    · simp [hc, hf]
    · simp [hc]

include hf in
variable {n} in
/-- A change of the first child of a name is not seen under another name. -/
theorem named_mapChild_of_ne {other : String} (h : other ≠ n) :
    (e.mapChild n f).named other = e.named other := by
  unfold mapChild named elements
  dsimp only
  -- The induction follows the search for the first child of the name; at that child it stops, and
  -- what is behind it is untouched.
  induction e.children with
  | nil => rfl
  | cons node r ih =>
    cases node with
    | element c =>
      by_cases hc : c.name = n
      · have hne : (c.name == other) = false := beq_eq_false_iff_ne.2 (hc ▸ h.symm)
        simp [Node.mapFirst, Node.isElement, Node.mapElement, Node.element?, hc, hf, Ne.symm h]
      · simpa [Node.mapFirst, Node.isElement, Node.element?, hc, List.filter_cons] using
          congrArg (fun l => if c.name = other then c :: l else l) ih
    | text | cdata | comment =>
      simpa only [Node.mapFirst, Node.isElement, Bool.false_eq_true, ↓reduceIte,
        List.filterMap_cons, Node.element?] using ih

include hf in
/-- Changing the first child of a name changes what is found under this name only. -/
theorem child?_mapChild (other : String) :
    (e.mapChild n f).child? other =
      if other = n then (e.child? n).map f else e.child? other := by
  unfold mapChild child? elements
  induction e.children with
  | nil => simp [Node.mapFirst]
  | cons node r ih =>
    dsimp only at ih
    cases node with
    | element c =>
      -- At a child of the edited name the search ends; before it both sides pass the same nodes.
      by_cases hc : c.name = n
      · by_cases ho : other = n
        · simp [Node.mapFirst, Node.isElement, Node.mapElement, Node.element?, hc, hf, ho]
        · simp [Node.mapFirst, Node.isElement, Node.mapElement, Node.element?, hc, hf, ho,
            Ne.symm ho]
      · have hne : (c.name == n) = false := beq_eq_false_iff_ne.2 hc
        simp only [Node.mapFirst, Node.isElement, hne, Bool.false_eq_true, ↓reduceIte,
          List.filterMap_cons, Node.element?, List.find?_cons, ih]
        by_cases ho : other = n
        · simp [ho, hne]
        · simp [ho]
    | text t | cdata t | comment t =>
      simpa only [Node.mapFirst, Node.isElement, Bool.false_eq_true, ↓reduceIte,
        List.filterMap_cons, Node.element?] using ih

include hf in
/-- The case of the edited name itself. -/
@[simp]
theorem child?_mapChild_self : (e.mapChild n f).child? n = (e.child? n).map f := by
  simp [child?_mapChild e n hf]

include hf in
variable {n} in
/-- The case of another name. -/
theorem child?_mapChild_of_ne {other : String} (h : other ≠ n) :
    (e.mapChild n f).child? other = e.child? other := by
  simp [child?_mapChild e n hf, h]

/-- A new child stands somewhere among the others. -/
theorem elements_insert (place : Nat) : ∃ before after, e.elements = before ++ after ∧
    (e.insert place child).elements = before ++ child :: after := by
  refine ⟨(e.children.take place).filterMap Node.element?,
    (e.children.drop place).filterMap Node.element?, ?_, ?_⟩
  · rw [← List.filterMap_append, List.take_append_drop, elements]
  · simp [insert, elements, List.filterMap_append, Node.element?]

variable {child n} in
/-- A new child is not found under another name. -/
theorem child?_insert_of_ne (place : Nat) (h : child.name ≠ n) :
    (e.insert place child).child? n = e.child? n := by
  have hne : (child.name == n) = false := beq_eq_false_iff_ne.2 h
  obtain ⟨before, after, helements, hinsert⟩ := e.elements_insert child place
  rw [child?, child?, helements, hinsert]
  simp [List.find?_append, hne]

variable {e n} in
/-- No child of a name means no first child of it. -/
theorem child?_eq_none (h : e.named n = []) : e.child? n = none := by
  rw [named, List.filter_eq_nil_iff] at h
  exact List.find?_eq_none.2 h

/-- The first child of a name heads the list of its children of that name. -/
theorem child?_eq_head? : e.child? n = (e.named n).head? := List.head?_filter.symm

/-- A child found under a name has that name. -/
theorem name_of_mem_named {c : Element} (h : c ∈ e.named n) : c.name = n := by
  simp only [named, List.mem_filter, beq_iff_eq] at h
  exact h.2

/-! ### Edits that change nothing -/

/-- Editing all children of a name by a function that changes none changes nothing. -/
theorem mapNamed_of_id {g : Element → Element} (hg : ∀ c, g c = c) : e.mapNamed n g = e := by
  obtain ⟨name, attributes, nodes⟩ := e
  have hnode : ∀ node : Node, node.mapElement (fun c => if c.name == n then g c else c) = node := by
    intro node
    cases node <;> simp [Node.mapElement, hg]
  simp only [mapNamed, List.map_congr_left fun node _ => hnode node, List.map_id']

/-- The same for the first child of a name. -/
theorem mapChild_of_id {g : Element → Element} (hg : ∀ c, g c = c) : e.mapChild n g = e := by
  obtain ⟨name, attributes, nodes⟩ := e
  unfold mapChild
  congr 1
  -- Along the nodes, up to the first one of the name: there the function is applied and gives that
  -- node back.
  induction nodes with
  | nil => rfl
  | cons node r ih =>
    have hnode : node.mapElement g = node := by
      cases node <;> simp [Node.mapElement, hg]
    simp only [Node.mapFirst, hnode]
    split
    · rfl
    · exact congrArg (node :: ·) ih


/-! ### Edits after edits -/

/-- Only what the first child of a name becomes matters. -/
theorem mapChild_congr {f g : Element → Element} (h : ∀ c, e.child? n = some c → f c = g c) :
    e.mapChild n f = e.mapChild n g := by
  obtain ⟨name, attributes, nodes⟩ := e
  unfold mapChild
  congr 1
  unfold child? elements at h
  dsimp only at h ⊢
  induction nodes with
  | nil => rfl
  | cons node r ih =>
    unfold Node.mapFirst
    cases node with
    | element c =>
      -- The hypothesis speaks of the first child of the name, which is this child or one behind it.
      by_cases hc : c.name = n
      · have hfg := h c (by simp [Node.element?, hc])
        simp [Node.isElement, Node.mapElement, hc, hfg]
      · have hrest : ∀ d, (r.filterMap Node.element?).find? (·.name == n) = some d → f d = g d :=
          fun d hd => h d (by simpa [Node.element?, hc] using hd)
        simp [Node.isElement, hc, ih hrest]
    | text t | cdata t | comment t => exact congrArg (_ :: ·) (ih h)

/-- Two edits of one child in turn are one edit by the composed function, provided the first keeps
the name by which the second finds it. -/
theorem mapChild_mapChild {f g : Element → Element} (hf : ∀ c : Element, (f c).name = c.name) :
    (e.mapChild n f).mapChild n g = e.mapChild n fun c => g (f c) := by
  unfold mapChild
  congr 1
  induction e.children with
  | nil => rfl
  | cons node r ih =>
    cases node with
    | element c =>
      by_cases hc : c.name = n <;>
        simp [Node.mapFirst, Node.isElement, Node.mapElement, hc, hf, ih]
    | text t | cdata t | comment t => simp [Node.mapFirst, Node.isElement, ih]

variable {n} in
/-- Edits of children of different names do not meet. -/
theorem mapChild_comm {m : String} (h : n ≠ m) {f g : Element → Element}
    (hf : ∀ c : Element, (f c).name = c.name) (hg : ∀ c : Element, (g c).name = c.name) :
    (e.mapChild n f).mapChild m g = (e.mapChild m g).mapChild n f := by
  unfold mapChild
  congr 1
  induction e.children with
  | nil => rfl
  | cons node r ih =>
    cases node with
    | element c =>
      by_cases hc : c.name = n
      · simp [Node.mapFirst, Node.isElement, Node.mapElement, hc, hf, h]
      · by_cases hm : c.name = m <;>
          simp [Node.mapFirst, Node.isElement, Node.mapElement, hc, hm, hg, Ne.symm h, ih]
    | text t | cdata t | comment t => simp [Node.mapFirst, Node.isElement, ih]

/-- A child that was added is the first of its name if there was none. -/
theorem mapChild_push {f : Element → Element} (h : e.child? n = none) (hchild : child.name = n) :
    (e.push child).mapChild n f = e.push (f child) := by
  obtain ⟨name, attributes, nodes⟩ := e
  unfold mapChild push
  congr 1
  unfold child? elements at h
  dsimp only at h ⊢
  -- The old nodes hold no child of the name, so the search runs through them to the new one.
  induction nodes with
  | nil => simp [Node.mapFirst, Node.isElement, Node.mapElement, hchild]
  | cons node r ih =>
    cases node with
    | element c =>
      rw [List.filterMap_cons, Node.element?] at h
      dsimp only at h
      rw [List.find?_cons] at h
      split at h
      · cases h
      · rename_i hne
        simp [Node.mapFirst, Node.isElement, hne, ih h]
    | text t | cdata t | comment t => exact congrArg (_ :: ·) (ih h)

/-- After removing a name no child is found under it. -/
theorem child?_removeNamed_self : (e.removeNamed n).child? n = none := by
  rw [child?, removeNamed, elements_removeWhere, List.find?_eq_none]
  intro c hc
  simpa using (List.mem_filter.1 hc).2

/-- A child that is changed is removed all the same. -/
theorem removeNamed_mapChild {f : Element → Element} (hf : ∀ c : Element, (f c).name = c.name) :
    (e.mapChild n f).removeNamed n = e.removeNamed n := by
  unfold removeNamed removeWhere mapChild
  congr 1
  induction e.children with
  | nil => rfl
  | cons node r ih =>
    cases node with
    | element c =>
      by_cases hc : c.name = n <;>
        simp_all [Node.mapFirst, Node.isElement, Node.mapElement]
    | text t | cdata t | comment t => exact congrArg (_ :: ·) ih

/-- Removing a name twice is removing it once. -/
@[simp]
theorem removeNamed_removeNamed : (e.removeNamed n).removeNamed n = e.removeNamed n := by
  simp [removeNamed, removeWhere, List.filter_filter]

/-- No child of the removed name is left. -/
theorem named_removeNamed_self : (e.removeNamed n).named n = [] := by
  simp [named, removeNamed, elements_removeWhere]

variable {n} in
/-- Children of other names are not removed. -/
theorem named_removeNamed_of_ne {other : String} (h : other ≠ n) :
    (e.removeNamed n).named other = e.named other := by
  rw [named, named, removeNamed, elements_removeWhere, List.filter_filter]
  refine List.filter_congr fun c _ => ?_
  by_cases hc : c.name = other <;> simp [hc, h]

/-- A child of the removed name may as well not have been added. -/
theorem removeNamed_push (h : child.name = n) : (e.push child).removeNamed n = e.removeNamed n := by
  simp [removeNamed, removeWhere, push, Node.isElement, h]

/-- Two edits of all children of a name in turn are one edit by the composed function. -/
theorem mapNamed_mapNamed {f g : Element → Element} (hf : ∀ c : Element, (f c).name = c.name) :
    (e.mapNamed n f).mapNamed n g = e.mapNamed n fun c => g (f c) := by
  unfold mapNamed
  congr 1
  rw [List.map_map]
  refine List.map_congr_left fun node _ => ?_
  cases node with
  | element c => by_cases hc : c.name = n <;> simp [Node.mapElement, hc, hf]
  | text t | cdata t | comment t => rfl

/-- Only what the children of a name become matters. -/
theorem mapNamed_congr {f g : Element → Element}
    (h : ∀ c ∈ e.elements, c.name = n → f c = g c) : e.mapNamed n f = e.mapNamed n g := by
  unfold mapNamed
  congr 1
  refine List.map_congr_left fun node hnode => ?_
  cases node with
  | element c =>
    by_cases hc : c.name = n
    · have hmem : c ∈ e.elements := List.mem_filterMap.2 ⟨.element c, hnode, rfl⟩
      simp [Node.mapElement, h c hmem hc]
    · simp [Node.mapElement, hc]
  | text t | cdata t | comment t => rfl

/-- An edit of all children of a name reaches those added at the end as well. -/
theorem mapNamed_pushAll (f : Element → Element) :
    (e.pushAll children).mapNamed n f =
      (e.mapNamed n f).pushAll (children.map fun c => if c.name == n then f c else c) := by
  simp [mapNamed, pushAll, Node.mapElement, Function.comp_def]

/-- Edits of the children and of the attributes commute. -/
theorem mapNamed_setAttr (f : Element → Element) :
    (e.setAttr key value).mapNamed n f = (e.mapNamed n f).setAttr key value := rfl

/-- Likewise for children added at the end. -/
theorem setAttr_pushAll :
    (e.pushAll children).setAttr key value = (e.setAttr key value).pushAll children := rfl

/-! ### A new first child -/

/-- A new first child heads the children of its own name. -/
theorem named_insert_zero :
    (e.insert 0 child).named n = if child.name = n then child :: e.named n else e.named n := by
  by_cases h : child.name = n <;> simp [named, insert, elements, Node.element?, h]

variable {child n} in
/-- A new first child of the removed name may as well not have been put in. -/
theorem removeNamed_insert_zero (h : child.name = n) :
    (e.insert 0 child).removeNamed n = e.removeNamed n := by
  simp [removeNamed, removeWhere, insert, Node.isElement, h]

variable {child n} in
/-- Under another name the new first child stays where it is. -/
theorem removeNamed_insert_zero_of_ne (h : child.name ≠ n) :
    (e.insert 0 child).removeNamed n = (e.removeNamed n).insert 0 child := by
  simp [removeNamed, removeWhere, insert, Node.isElement, h]

end SheetTemplate.Xml.Element
