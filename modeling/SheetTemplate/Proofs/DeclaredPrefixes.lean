import SheetTemplate.Proofs.ElementEdits
import SheetTemplate.Text.Cut

/-!
# Declared prefixes

A name may have a prefix, which stands for a namespace. An `xmlns` attribute declares a prefix, for
the element it belongs to and all that is inside. `DeclaredIn` says that each prefix an element and
the elements inside it use is declared there or is in the scope that they stand in.

Most edits touch no declarations and use plain names, so they keep an element as it is declared in
its scope, as long as the elements they add or change are declared in the scope inside.

## Key results

- `declaredIn_iff`: an element by its prefixes and its child elements
- `DeclaredIn.mono`, `DeclaredIn.strengthen`: another scope
-/

namespace SheetTemplate.Xml

/-! ### Prefixes -/

/-- The prefix of a name, if it has to be declared. -/
def usedPrefix? (name : String) : Option String :=
  match Text.cutFirst? ':' name.toList with
  | some (p, _) =>
    if p.isEmpty || p == "xml".toList || p == "xmlns".toList then none else some (String.ofList p)
  | none => none

/-- The prefix that an attribute declares. -/
def declaredPrefix? (key : String) : Option String :=
  (Text.after? "xmlns:".toList key.toList).map String.ofList

/-- A name whose prefix, if it has one, is in a scope. -/
def NameIn (name : String) (scope : List String) : Prop := ∀ p ∈ usedPrefix? name, p ∈ scope

/-- A name without a prefix may stand anywhere. -/
theorem nameIn_of_plain {name : String} (h : usedPrefix? name = none) (scope : List String) :
    NameIn name scope := fun p hp => by rw [h] at hp; cases hp

/-- The prefixes that a tag uses. -/
def usedPrefixes (name : String) (attributes : List (String × String)) : List String :=
  (name :: attributes.map Prod.fst).filterMap usedPrefix?

/-- The prefixes that attributes declare. -/
def declaredPrefixes (attributes : List (String × String)) : List String :=
  (attributes.map Prod.fst).filterMap declaredPrefix?

mutual
/-- An element of which all prefixes, and all that are used inside it, are declared or are in a
scope. -/
def Element.DeclaredIn : Element → List String → Prop
  | ⟨name, attributes, children⟩, scope =>
    (∀ p ∈ usedPrefixes name attributes, p ∈ declaredPrefixes attributes ++ scope) ∧
      Node.AllDeclaredIn children (declaredPrefixes attributes ++ scope)

/-- Nodes of which all prefixes that elements among them use are declared or are in a scope. -/
def Node.AllDeclaredIn : List Node → List String → Prop
  | [], _ => True
  | .element e :: r, scope => e.DeclaredIn scope ∧ Node.AllDeclaredIn r scope
  | .text _ :: r, scope | .cdata _ :: r, scope | .comment _ :: r, scope =>
    Node.AllDeclaredIn r scope
end

mutual
/-- Whether all prefixes of an element are declared or are in a scope. -/
def Element.decideDeclaredIn : (e : Element) → (scope : List String) →
    Decidable (e.DeclaredIn scope)
  | ⟨name, attributes, children⟩, scope =>
    have := Node.decideAllDeclaredIn children (declaredPrefixes attributes ++ scope)
    inferInstanceAs (Decidable
      ((∀ p ∈ usedPrefixes name attributes, p ∈ declaredPrefixes attributes ++ scope) ∧
        Node.AllDeclaredIn children (declaredPrefixes attributes ++ scope)))

def Node.decideAllDeclaredIn : (nodes : List Node) → (scope : List String) →
    Decidable (Node.AllDeclaredIn nodes scope)
  | [], _ => inferInstanceAs (Decidable True)
  | .element e :: r, scope =>
    have := e.decideDeclaredIn scope
    have := Node.decideAllDeclaredIn r scope
    inferInstanceAs (Decidable (e.DeclaredIn scope ∧ Node.AllDeclaredIn r scope))
  | .text _ :: r, scope | .cdata _ :: r, scope | .comment _ :: r, scope =>
    Node.decideAllDeclaredIn r scope
end

instance (e : Element) (scope : List String) : Decidable (e.DeclaredIn scope) :=
  e.decideDeclaredIn scope

/-- A document that declares all its prefixes. -/
def Document.Declared (d : Document) : Prop := d.root.DeclaredIn []

instance (d : Document) : Decidable d.Declared := inferInstanceAs (Decidable (d.root.DeclaredIn []))

/-- An attribute that has no prefix and declares none. -/
def IsPlain (key : String) : Prop := usedPrefix? key = none ∧ declaredPrefix? key = none

instance (key : String) : Decidable (IsPlain key) :=
  inferInstanceAs (Decidable (usedPrefix? key = none ∧ declaredPrefix? key = none))

/-- Nodes are declared all together when each element among them is. -/
theorem Node.allDeclaredIn_iff {nodes : List Node} {scope : List String} :
    Node.AllDeclaredIn nodes scope ↔
      ∀ e ∈ nodes.filterMap Node.element?, Element.DeclaredIn e scope := by
  induction nodes with
  | nil => simp [Node.AllDeclaredIn]
  | cons n r ih => cases n <;> simp [Node.AllDeclaredIn, Node.element?, ih]

namespace Element

variable {e e' : Element} {scope scope' : List String}

/-- The prefixes that the tag of an element uses. -/
def used (e : Element) : List String := usedPrefixes e.name e.attributes

/-- The prefixes that an element declares. -/
def declared (e : Element) : List String := declaredPrefixes e.attributes

/-- An element is declared by its own names and by the elements inside. -/
theorem declaredIn_iff : e.DeclaredIn scope ↔
    (∀ p ∈ e.used, p ∈ e.declared ++ scope) ∧
      ∀ c ∈ e.elements, c.DeclaredIn (e.declared ++ scope) := by
  cases e
  exact and_congr_right fun _ => Node.allDeclaredIn_iff

/-- A plain attribute declares no prefix. -/
theorem declared_setAttr {key : String} (hkey : IsPlain key) (value : String) :
    (e.setAttr key value).declared = e.declared := by
  unfold declared declaredPrefixes setAttr
  rw [Keyed.map_fst_set]
  split
  · rfl
  · simp [List.filterMap_append, hkey.2]

mutual
/-- More prefixes may be in scope. -/
private theorem mono_aux : (e : Element) → (scope scope' : List String) → scope ⊆ scope' →
    e.DeclaredIn scope → e.DeclaredIn scope'
  | ⟨_, _, children⟩, _, _, hscope, h =>
    have hinside := List.append_subset.2
      ⟨List.subset_append_left .., List.subset_append_of_subset_right _ hscope⟩
    ⟨fun p hp => hinside (h.1 p hp), monoAll_aux children _ _ hinside h.2⟩

/-- The mutual part of this for lists of nodes. -/
private theorem monoAll_aux : (nodes : List Node) → (scope scope' : List String) →
    scope ⊆ scope' → Node.AllDeclaredIn nodes scope → Node.AllDeclaredIn nodes scope'
  | [], _, _, _, _ => trivial
  | .element e :: r, _, _, hscope, h => ⟨mono_aux e _ _ hscope h.1, monoAll_aux r _ _ hscope h.2⟩
  | .text _ :: r, _, _, hscope, h | .cdata _ :: r, _, _, hscope, h
  | .comment _ :: r, _, _, hscope, h => monoAll_aux r _ _ hscope h
end

namespace DeclaredIn

theorem mono (h : e.DeclaredIn scope) (hscope : scope ⊆ scope') : e.DeclaredIn scope' :=
  mono_aux e scope scope' hscope h

/-- What declares all its prefixes may stand anywhere. -/
theorem anywhere (h : e.DeclaredIn []) (scope : List String) : e.DeclaredIn scope :=
  h.mono (List.nil_subset _)

/-- The elements inside are declared in the scope that the element makes for them. -/
theorem child (h : e.DeclaredIn scope) {c : Element} (hc : c ∈ e.elements) :
    c.DeclaredIn (e.declared ++ scope) := (declaredIn_iff.1 h).2 c hc

/-- The prefix of the name is declared on the element or in scope. -/
theorem nameIn (h : e.DeclaredIn scope) : NameIn e.name (e.declared ++ scope) := fun p hp =>
  (declaredIn_iff.1 h).1 p (List.mem_filterMap.2 ⟨e.name, List.mem_cons_self, hp⟩)

/-- So are those of one name. -/
theorem named (h : e.DeclaredIn scope) {n : String} {c : Element} (hc : c ∈ e.named n) :
    c.DeclaredIn (e.declared ++ scope) := h.child (List.mem_filter.1 hc).1

/-- Prefixes that an element declares itself need not be in scope. -/
theorem strengthen (h : e.DeclaredIn scope) (hscope : scope ⊆ e.declared ++ scope') :
    e.DeclaredIn scope' := by
  obtain ⟨hused, hinside⟩ := declaredIn_iff.1 h
  have hall : e.declared ++ scope ⊆ e.declared ++ scope' :=
    List.append_subset.2 ⟨List.subset_append_left .., hscope⟩
  exact declaredIn_iff.2 ⟨fun p hp => hall (hused p hp), fun c hc => (hinside c hc).mono hall⟩

/-! ### Edits of what is inside -/

/-- An element with the same tag and other elements inside. -/
theorem of_tag (h : e.DeclaredIn scope) (hname : e'.name = e.name)
    (hattributes : e'.attributes = e.attributes)
    (hinside : ∀ c ∈ e'.elements, c.DeclaredIn (e.declared ++ scope)) : e'.DeclaredIn scope := by
  rw [declaredIn_iff, used, declared, hname, hattributes]
  exact ⟨(declaredIn_iff.1 h).1, hinside⟩

/-- A text uses no prefix. -/
theorem setText (h : e.DeclaredIn scope) (t : String) : (e.setText t).DeclaredIn scope :=
  h.of_tag rfl rfl fun c hc => by cases hc

/-- An element without its children keeps its tag. -/
theorem shallow (h : e.DeclaredIn scope) : e.shallow.DeclaredIn scope :=
  h.of_tag rfl rfl fun c hc => by cases hc

/-- Fewer children are declared as before. -/
theorem removeWhere (h : e.DeclaredIn scope) (p : Element → Bool) :
    (e.removeWhere p).DeclaredIn scope := by
  refine h.of_tag rfl rfl fun c hc => ?_
  rw [elements_removeWhere] at hc
  exact h.child (List.mem_filter.1 hc).1

/-- Further children have to be declared in the scope inside. -/
theorem pushAll (h : e.DeclaredIn scope) {children : List Element}
    (hchildren : ∀ c ∈ children, c.DeclaredIn (e.declared ++ scope)) :
    (e.pushAll children).DeclaredIn scope := by
  refine h.of_tag rfl rfl fun c hc => ?_
  rw [elements_pushAll, List.mem_append] at hc
  exact hc.elim h.child (hchildren c)

/-- So does one child at the end. -/
theorem push (h : e.DeclaredIn scope) {child : Element}
    (hchild : child.DeclaredIn (e.declared ++ scope)) : (e.push child).DeclaredIn scope :=
  h.pushAll fun _ hc => List.mem_singleton.1 hc ▸ hchild

/-- So does one at any other place. -/
theorem insert (h : e.DeclaredIn scope) (place : Nat) {child : Element}
    (hchild : child.DeclaredIn (e.declared ++ scope)) :
    (e.insert place child).DeclaredIn scope := by
  obtain ⟨before, after, hold, hnew⟩ := elements_insert e child place
  refine h.of_tag rfl rfl fun c hc => ?_
  rw [hnew, List.mem_append, List.mem_cons] at hc
  rcases hc with hbefore | rfl | hafter
  · exact h.child (hold ▸ List.mem_append_left _ hbefore)
  · exact hchild
  · exact h.child (hold ▸ List.mem_append_right _ hafter)

/-- Children of one name may be edited, if the edit keeps them declared in the scope inside. -/
theorem mapNamed (h : e.DeclaredIn scope) (n : String) {f : Element → Element}
    (hf : ∀ c : Element, c.DeclaredIn (e.declared ++ scope) →
      (f c).DeclaredIn (e.declared ++ scope)) : (e.mapNamed n f).DeclaredIn scope := by
  refine h.of_tag rfl rfl fun c hc => ?_
  rw [elements_mapNamed] at hc
  obtain ⟨old, hold, rfl⟩ := List.mem_map.1 hc
  split
  · exact hf old (h.child hold)
  · exact h.child hold

/-- So may the first child that passes a test. -/
theorem mapFirst (h : e.DeclaredIn scope) (p : Element → Bool) {f : Element → Element}
    (hf : ∀ c : Element, c.DeclaredIn (e.declared ++ scope) →
      (f c).DeclaredIn (e.declared ++ scope)) :
    Element.DeclaredIn { e with children := Node.mapFirst p f e.children } scope := by
  refine h.of_tag rfl rfl ?_
  have hinside := (declaredIn_iff.1 h).2
  unfold elements at hinside ⊢
  dsimp only
  generalize e.children = nodes at hinside ⊢
  -- Along the nodes, up to the first one that passes the test; nodes that are no elements are none
  -- of those inside.
  induction nodes with
  | nil => exact hinside
  | cons n r ih =>
    unfold Node.mapFirst
    split
    · cases n with
      | element c =>
        exact List.forall_mem_cons.2 ⟨hf c (hinside c List.mem_cons_self),
          fun d hd => hinside d (List.mem_cons_of_mem _ hd)⟩
      | text t | cdata t | comment t => exact hinside
    · cases n with
      | element c =>
        exact List.forall_mem_cons.2 ⟨hinside c List.mem_cons_self,
          ih fun d hd => hinside d (List.mem_cons_of_mem _ hd)⟩
      | text t | cdata t | comment t => exact ih hinside

/-- So may the first child of a name. -/
theorem mapChild (h : e.DeclaredIn scope) (n : String) {f : Element → Element}
    (hf : ∀ c : Element, c.DeclaredIn (e.declared ++ scope) →
      (f c).DeclaredIn (e.declared ++ scope)) : (e.mapChild n f).DeclaredIn scope :=
  h.mapFirst _ hf

/-- Only the first child of its name is changed. -/
theorem mapChild_of_child? (h : e.DeclaredIn scope) (n : String) {f : Element → Element}
    (hf : ∀ c, e.child? n = some c → (f c).DeclaredIn (e.declared ++ scope)) :
    (e.mapChild n f).DeclaredIn scope := by
  cases hchild : e.child? n with
  | none =>
    have hsame : e.mapChild n f = e.mapChild n id :=
      mapChild_congr e n fun c hc => by simp [hchild] at hc
    rwa [hsame, mapChild_of_id (g := id) e n fun _ => rfl]
  | some c =>
    have hsame : e.mapChild n f = e.mapChild n fun _ => f c :=
      mapChild_congr e n fun d hd => by rw [hchild] at hd; cases hd; rfl
    rw [hsame]
    exact h.mapChild n fun _ _ => hf c hchild

/-! ### Edits of attributes -/

/-- An element with the same elements inside and other attributes, which declare the same. -/
theorem of_elements (h : e.DeclaredIn scope) (hinside : e'.elements = e.elements)
    (hdeclared : e'.declared = e.declared) (hused : e'.used ⊆ e.used) : e'.DeclaredIn scope := by
  rw [declaredIn_iff, hinside, hdeclared]
  exact ⟨fun p hp => (declaredIn_iff.1 h).1 p (hused hp), (declaredIn_iff.1 h).2⟩

/-- A plain attribute uses no prefix and declares none. -/
theorem setAttr (h : e.DeclaredIn scope) {key : String} (hkey : IsPlain key) (value : String) :
    (e.setAttr key value).DeclaredIn scope := by
  refine h.of_elements rfl (declared_setAttr hkey value) ?_
  unfold used usedPrefixes Element.setAttr
  dsimp only
  rw [Keyed.map_fst_set]
  split
  · exact fun p hp => hp
  · rw [← List.cons_append, List.filterMap_append]
    simp [hkey.1]

/-- An attribute that declares no prefix may be removed. -/
theorem removeAttr (h : e.DeclaredIn scope) {key : String} (hkey : declaredPrefix? key = none) :
    (e.removeAttr key).DeclaredIn scope := by
  refine h.of_elements rfl ?_ ?_
  · unfold declared declaredPrefixes Element.removeAttr
    induction e.attributes with
    | nil => rfl
    | cons a r ih =>
      by_cases ha : a.1 = key
      · simp [ha, hkey]
      · rw [List.eraseP_cons_of_neg (by simpa using ha), List.map_cons, List.map_cons,
          List.filterMap_cons, List.filterMap_cons, ih]
  · exact ((List.eraseP_sublist.map Prod.fst).cons_cons e.name).filterMap _ |>.subset

end DeclaredIn

/-! ### Elements that are made -/

/-- An element whose tag has plain names needs what is inside to be declared. -/
theorem declaredIn_of_plain (names : List String)
    (hnames : e.name :: e.attributes.map Prod.fst = names)
    (hplain : ∀ n ∈ names, usedPrefix? n = none)
    (hinside : ∀ c ∈ e.elements, c.DeclaredIn (e.declared ++ scope)) : e.DeclaredIn scope := by
  refine declaredIn_iff.2 ⟨fun p hp => ?_, hinside⟩
  rw [used, usedPrefixes, hnames] at hp
  obtain ⟨n, hn, hused⟩ := List.mem_filterMap.1 hp
  rw [hplain n hn] at hused
  cases hused

/-- An element made of a text uses the prefix of its name only. -/
theorem declaredIn_ofText {name : String} (hname : usedPrefix? name = none) (t : String) :
    (ofText name t).DeclaredIn scope :=
  declaredIn_of_plain [name] rfl (by simpa using hname) nofun

/-- And it needs just this prefix in its scope. -/
theorem declaredIn_ofText_iff {name t : String} :
    (ofText name t).DeclaredIn scope ↔ NameIn name scope := by
  rw [declaredIn_iff]
  simp [NameIn, used, usedPrefixes, declared, declaredPrefixes, ofText, elements, Node.element?]

/-- An element made of children needs the prefix of its name, and the children need what they
need. -/
theorem declaredIn_ofChildren_iff {name : String} {attributes : List (String × String)}
    {children : List Element} (hkeys : ∀ key ∈ attributes.map Prod.fst, IsPlain key) :
    (ofChildren name attributes children).DeclaredIn scope ↔
      NameIn name scope ∧ ∀ c ∈ children, c.DeclaredIn scope := by
  have hused : (attributes.map Prod.fst).filterMap usedPrefix? = [] :=
    List.filterMap_eq_nil_iff.2 fun key hkey => (hkeys key hkey).1
  have hdeclared : (ofChildren name attributes children).declared = [] :=
    List.filterMap_eq_nil_iff.2 fun key hkey => (hkeys key hkey).2
  have hinside : (ofChildren name attributes children).elements = children := by
    simp [elements, ofChildren, List.filterMap_map, Function.comp_def, Node.element?]
  have htag : (ofChildren name attributes children).used = (usedPrefix? name).toList := by
    unfold used usedPrefixes ofChildren
    rw [List.filterMap_cons, hused]
    cases usedPrefix? name <;> rfl
  rw [declaredIn_iff, hdeclared, hinside, htag, List.nil_append]
  exact and_congr_left fun _ => forall_congr' fun p => imp_congr_left Option.mem_toList

end Element

end SheetTemplate.Xml
