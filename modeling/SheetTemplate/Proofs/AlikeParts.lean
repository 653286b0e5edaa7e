import SheetTemplate.Proofs.Moves
import SheetTemplate.Proofs.Outcomes
import SheetTemplate.Proofs.TidyEdits
import SheetTemplate.SharedStrings

/-!
# Parts that read back as the same

Two workbooks are alike if their documents read back as the same trees and all else is equal; so are
two lists of relationships or of content types. Whatever is done to alike parts gives alike parts
and the same answers. Alike packages have the same names in the same order, and under each name
bytes that are equal or read as the same document.

## Key results

- `SameDocument.parse`: documents that are read as one
- `Workbook.Alike.moveNames`, `Workbook.Alike.dropCalcChain`, `ContentTypes.Alike.ensureDefault`,
  `Relationships.Alike.add`: what is done to the parts
- `Package.Alike.set`: alike parts go into alike packages
-/

namespace SheetTemplate

open Xml (Element Document TidyEdit SameTree NamedTag IsName)

namespace Xml

variable {e e' : Element}

/-- Whether some child of a name passes a test is the same for both, if the test does not see how
texts are divided. -/
theorem SameTree.any_named (h : SameTree e e') (n : String) {p : Element → Bool}
    (hp : ∀ c, p c.tidy = p c) : (e'.named n).any p = (e.named n).any p := by
  have htidy : ∀ l : List Element, (l.map Element.tidy).any p = l.any p := by
    intro l
    simp [List.any_map, Function.comp_def, hp]
  rw [← htidy, h.named, htidy]

/-- The first child of a name that passes the test reads back as the same, too. -/
theorem SameTree.find?_named (h : SameTree e e') (n : String) {p : Element → Bool}
    (hp : ∀ c, p c.tidy = p c) :
    ((e'.named n).find? p).map Element.tidy = ((e.named n).find? p).map Element.tidy := by
  have htidy : ∀ l : List Element, (l.find? p).map Element.tidy = (l.map Element.tidy).find? p := by
    intro l
    rw [List.find?_map, show p ∘ Element.tidy = p from funext hp]
  rw [htidy, h.named, ← htidy]

/-- An attribute of elements of which only the tidy forms are known to be equal. -/
theorem bind_attr?_eq {o o' : Option Element} (h : o'.map Element.tidy = o.map Element.tidy)
    (key : String) : o'.bind (·.attr? key) = o.bind (·.attr? key) := by
  have htidy : ∀ o : Option Element, (o.map Element.tidy).bind (·.attr? key) =
      o.bind (·.attr? key) := by
    intro o
    cases o <;> simp
  rw [← htidy, h, htidy]

/-- A tag whose keys are known. -/
theorem NamedTag.of_keys {name : String} {attributes : List (String × String)} (keys : List String)
    (h : attributes.map Prod.fst = keys) (hname : IsName name) (hkeys : ∀ key ∈ keys, IsName key)
    (hdistinct : keys.Nodup) : NamedTag name attributes :=
  ⟨hname, fun _ ha => hkeys _ (h ▸ List.mem_map_of_mem ha), h ▸ hdistinct⟩

/-- An element without children can be written if its tag can. -/
theorem Element.writable_of_namedTag {name : String} {attributes : List (String × String)}
    (h : NamedTag name attributes) : Element.Writable { name, attributes } := ⟨h, trivial⟩

/-- Documents that can be written and read back as the same. -/
structure SameDocument (d d' : Document) : Prop where
  declaration : d.declaration = d'.declaration
  root : SameTree d.root d'.root

namespace SameDocument

variable {d d' : Document}

theorem refl (h : d.Writable) : SameDocument d d := ⟨rfl, .refl h⟩

/-- What is read of a document that was written. -/
theorem tidy_right (h : d.Writable) : SameDocument d d.tidy := ⟨rfl, .tidy_right h⟩

/-- Both are read as one document. -/
theorem parse (h : SameDocument d d') :
    Document.parse d.toBytes = .ok d.tidy ∧ Document.parse d'.toBytes = .ok d.tidy := by
  refine ⟨Document.parse_toBytes h.root.left, ?_⟩
  rw [Document.parse_toBytes h.root.right, Document.tidy, Document.tidy, h.declaration, h.root.tidy]

/-- An edit of the roots keeps the documents the same. -/
theorem edit (h : SameDocument d d') {f : Element → Element} (hf : TidyEdit f) :
    SameDocument { d with root := f d.root } { d' with root := f d'.root } :=
  ⟨h.declaration, h.root.edit hf⟩

end SameDocument

end Xml

/-! ### Relationships -/

/-- Relationships of one part that read back as the same. -/
structure Relationships.Alike (r r' : Relationships) : Prop where
  path : r'.path = r.path
  doc : Xml.SameDocument r.doc r'.doc

namespace Relationships

/-- The type of a relationship stands in an attribute. -/
private theorem hasType_tidy (suffix : String) (e : Element) :
    hasType suffix e.tidy = hasType suffix e := by
  rw [hasType, hasType, e.attr?_tidy]

namespace Alike

variable {r r' : Relationships}

theorem refl (h : r.doc.Writable) : r.Alike r := ⟨rfl, .refl h⟩

/-- The first relationship of a type is the same for both. -/
theorem ofType? (h : r.Alike r') (suffix : String) :
    (r'.ofType? suffix).map Element.tidy = (r.ofType? suffix).map Element.tidy :=
  h.doc.root.find?_named _ (hasType_tidy suffix)

/-- A question that tidying does not answer otherwise may be asked of all tidy elements. -/
private theorem mapM_tidy {α : Type} {f : Element → Except Error α} (hf : ∀ e, f e.tidy = f e)
    (l : List Element) : (l.map Element.tidy).mapM f = l.mapM f := by
  induction l with
  | nil => rfl
  | cons e r ih => rw [List.map_cons, List.mapM_cons, List.mapM_cons, hf, ih]

/-- The numbers of the ids are the same. -/
private theorem idNumbers (h : r.Alike r') : r'.idNumbers = r.idNumbers := by
  unfold Relationships.idNumbers
  rw [h.path]
  -- The numbers are read off attributes, which tidy forms have in common.
  refine (mapM_tidy (fun e => ?_) r'.toList).symm.trans ?_
  · rw [e.attr?_tidy]
  · rw [toList, h.doc.root.named]
    exact mapM_tidy (fun e => by rw [e.attr?_tidy]) _

/-- A relationship that is added gets the same id. -/
theorem add (h : r.Alike r') (type target : String) :
    BothOrNeither Eq (fun x x' : Relationships × String => x.1.Alike x'.1 ∧ x'.2 = x.2)
      (r.add type target) (r'.add type target) := by
  have hid : r'.nextId = r.nextId := by rw [nextId, nextId, h.idNumbers]
  unfold Relationships.add
  rw [hid]
  cases r.nextId with
  | error e => exact .error rfl
  | ok id =>
    have hnew : NamedTag "Relationship" [("Id", id), ("Type", type), ("Target", target)] :=
      .of_keys ["Id", "Type", "Target"] rfl (by decide) (by decide) (by decide)
    exact .ok ⟨⟨h.path, h.doc.edit (.push (Element.writable_of_namedTag hnew))⟩, rfl⟩

/-- Removing a type keeps relationships alike. -/
theorem removeType (h : r.Alike r') (suffix : String) :
    (r.removeType suffix).Alike (r'.removeType suffix) :=
  ⟨h.path, h.doc.edit (.removeWhere fun e => by rw [hasType_tidy, e.name_tidy])⟩

end Alike

end Relationships

/-! ### Content types -/

/-- Content types that read back as the same. -/
def ContentTypes.Alike (c c' : ContentTypes) : Prop := Xml.SameDocument c.doc c'.doc

namespace ContentTypes

/-- What is added takes no override away. -/
private theorem hasOverride_of_subset {c c' : ContentTypes} {part : String}
    (h : c.hasOverride part = true) (hsubset : c.doc.root.elements ⊆ c'.doc.root.elements) :
    c'.hasOverride part = true := by
  unfold hasOverride Element.named at h ⊢
  simp only [List.any_eq_true, List.mem_filter] at h ⊢
  obtain ⟨e, ⟨hmem, hname⟩, hpart⟩ := h
  exact ⟨e, ⟨hsubset hmem, hname⟩, hpart⟩

/-- A default leaves the overrides there are. -/
theorem hasOverride_ensureDefault {c : ContentTypes} {part : String} (h : c.hasOverride part = true)
    (extension type : String) : (c.ensureDefault extension type).hasOverride part = true := by
  unfold ensureDefault
  split
  · exact h
  · refine hasOverride_of_subset h fun e he => ?_
    obtain ⟨before, after, helements, hinsert⟩ := Element.elements_insert c.doc.root _ _
    rw [mapRoot, hinsert]
    rw [helements] at he
    rcases List.mem_append.1 he with hbefore | hafter
    · exact List.mem_append_left _ hbefore
    · exact List.mem_append_right _ (List.mem_cons_of_mem _ hafter)

/-- So does another override. -/
theorem hasOverride_ensureOverride {c : ContentTypes} {part : String}
    (h : c.hasOverride part = true) (other type : String) :
    (c.ensureOverride other type).hasOverride part = true := by
  unfold ensureOverride
  split
  · exact h
  · exact hasOverride_of_subset h fun e he => by
      rw [mapRoot, Element.elements_push]
      exact List.mem_append_left _ he

/-- The override asked for is there afterwards. -/
theorem hasOverride_ensureOverride_self (c : ContentTypes) (part type : String) :
    (c.ensureOverride part type).hasOverride part = true := by
  unfold ensureOverride
  split
  · assumption
  · unfold hasOverride Element.named mapRoot
    dsimp only
    rw [Element.elements_push]
    simp [Element.attr?]

/-- Removing an override keeps those of other parts. -/
theorem hasOverride_removeOverride_of_ne {c : ContentTypes} {part other : String}
    (h : c.hasOverride part = true) (hne : part ≠ other) :
    (c.removeOverride other).hasOverride part = true := by
  unfold hasOverride removeOverride mapRoot Element.named at *
  rw [Element.elements_removeWhere]
  simp only [List.any_eq_true, List.mem_filter, beq_iff_eq] at h ⊢
  obtain ⟨e, ⟨hmem, hname⟩, hpart⟩ := h
  refine ⟨e, ⟨⟨hmem, ?_⟩, hname⟩, hpart⟩
  simp [hpart, hne]

namespace Alike

variable {c c' : ContentTypes}

/-- The same extensions have defaults. -/
theorem hasDefault (h : c.Alike c') (extension : String) :
    c'.hasDefault extension = c.hasDefault extension :=
  h.root.any_named _ fun e => by rw [e.attr?_tidy]

/-- The same parts have overrides. -/
theorem hasOverride (h : c.Alike c') (part : String) :
    c'.hasOverride part = c.hasOverride part :=
  h.root.any_named _ fun e => by rw [e.attr?_tidy]

/-- A default is added to both or to neither. -/
theorem ensureDefault (h : c.Alike c') (extension type : String) :
    (c.ensureDefault extension type).Alike (c'.ensureDefault extension type) := by
  unfold ContentTypes.ensureDefault
  rw [h.hasDefault]
  split
  · exact h
  · have hnew : NamedTag "Default" [("Extension", extension), ("ContentType", type)] :=
      .of_keys ["Extension", "ContentType"] rfl (by decide) (by decide) (by decide)
    exact h.edit (.insert (Element.writable_of_namedTag hnew) "Override")

/-- So is an override. -/
theorem ensureOverride (h : c.Alike c') (part type : String) :
    (c.ensureOverride part type).Alike (c'.ensureOverride part type) := by
  unfold ContentTypes.ensureOverride
  rw [h.hasOverride]
  split
  · exact h
  · have hnew : NamedTag "Override" [("PartName", part), ("ContentType", type)] :=
      .of_keys ["PartName", "ContentType"] rfl (by decide) (by decide) (by decide)
    exact h.edit (.push (Element.writable_of_namedTag hnew))

/-- Removing an override keeps content types alike. -/
theorem removeOverride (h : c.Alike c') (part : String) :
    (c.removeOverride part).Alike (c'.removeOverride part) :=
  h.edit (.removeWhere fun e => by rw [e.name_tidy, e.attr?_tidy])

end Alike

end ContentTypes

/-! ### Workbooks -/

/-- Workbooks that read back as the same. A workbook that is in the part of the content types is
written over by them. -/
structure Workbook.Alike (w w' : Workbook) : Prop where
  path : w'.path = w.path
  sheets : w'.sheets = w.sheets
  doc : w.path ≠ Package.contentTypesPart → Xml.SameDocument w.doc w'.doc
  rels : w.rels.Alike w'.rels

namespace Workbook.Alike

variable {w w' : Workbook}

/-- An edit of the roots keeps workbooks alike. -/
private theorem edit (h : w.Alike w') {f : Element → Element} (hf : TidyEdit f) :
    Workbook.Alike { w with doc.root := f w.doc.root } { w' with doc.root := f w'.doc.root } :=
  ⟨h.path, h.sheets, fun hpath => (h.doc hpath).edit hf, h.rels⟩

/-- Moving a defined name reads its text, which does not depend on the division. -/
private theorem tidyEdit_moveName (rule : RangeRef → Option RangeRef) :
    TidyEdit (Layout.moveName rule) := by
  have hrange : ∀ e : Element, Layout.nameRange? e.tidy = Layout.nameRange? e := by
    intro e
    rw [Layout.nameRange?, Layout.nameRange?, e.text_tidy]
  -- A name is either rewritten with its new range or left as it is; both keep elements writable.
  constructor
  · intro e he
    unfold Layout.moveName
    split
    · exact (TidyEdit.setText (t := fun _ => _) fun _ => rfl).writable e he
    · exact he
  · intro e
    unfold Layout.moveName
    rw [hrange, e.text_tidy]
    split
    · exact (TidyEdit.setText (t := fun _ => _) fun _ => rfl).tidy e
    · exact e.tidy_tidy.symm

/-- Moving all names keeps workbooks alike. -/
theorem moveNames (h : w.Alike w') (rule : RangeRef → Option RangeRef) :
    (w.mapNames (Layout.moveName rule)).Alike (w'.mapNames (Layout.moveName rule)) :=
  h.edit (.mapChild (.mapNamed (tidyEdit_moveName rule) _) _)

/-- The parts linked by a workbook are the same. -/
theorem linked? (h : w.Alike w') (suffix : String) : w'.linked? suffix = w.linked? suffix := by
  rw [Workbook.linked?, Workbook.linked?, h.path, Xml.bind_attr?_eq (h.rels.ofType? suffix)]

/-- The request for calculation is added to both. -/
theorem requestCalculation (h : w.Alike w') :
    w.requestCalculation.Alike w'.requestCalculation :=
  h.edit (.mapChild (.setAttr (by decide) _) _)

end Workbook.Alike

/-! ### Packages -/

/-- Bytes that are equal or read as the same document. -/
def SameContent (bytes bytes' : ByteArray) : Prop :=
  bytes = bytes' ∨ ∃ d, Document.parse bytes = .ok d ∧ Document.parse bytes' = .ok d

/-- Documents that read back as the same go into parts of the same content. -/
theorem Xml.SameDocument.sameContent {d d' : Document} (h : Xml.SameDocument d d') :
    SameContent d.toBytes d'.toBytes := .inr ⟨_, h.parse⟩

namespace Package

/-- Packages with the same names in the same order and the same content under each. -/
def Alike (p p' : Package) : Prop :=
  List.Forall₂ (fun a b => a.1 = b.1 ∧ SameContent a.2 b.2) p.entries p'.entries

variable {p p' : Package}

namespace Alike

theorem refl (p : Package) : p.Alike p := List.forall₂_same.2 fun _ _ => ⟨rfl, .inl rfl⟩

/-- Alike packages have the same names. -/
theorem names (h : p.Alike p') : p.names = p'.names := by
  obtain ⟨entries⟩ := p
  obtain ⟨entries'⟩ := p'
  unfold Package.Alike at h
  unfold Package.names
  dsimp only at h ⊢
  induction h with
  | nil => rfl
  | cons hentry _ ih => rw [List.map_cons, List.map_cons, hentry.1, ih]

/-- Setting a part to the same content keeps packages alike. -/
theorem set (h : p.Alike p') (name : String) {bytes bytes' : ByteArray}
    (hcontent : SameContent bytes bytes') : (p.set name bytes).Alike (p'.set name bytes') := by
  obtain ⟨entries⟩ := p
  obtain ⟨entries'⟩ := p'
  unfold Package.Alike at h ⊢
  unfold Package.set
  dsimp only at h ⊢
  -- Along the entries of both: the name is met at the same place, or at the end.
  induction h with
  | nil => exact .cons ⟨rfl, hcontent⟩ .nil
  | @cons a b r r' hentry hrest ih =>
    obtain ⟨other, old⟩ := a
    obtain ⟨other', old'⟩ := b
    obtain ⟨rfl, hold⟩ := hentry
    rw [Keyed.set, Keyed.set]
    split
    · exact .cons ⟨rfl, hcontent⟩ hrest
    · exact .cons ⟨rfl, hold⟩ ih

/-- Removing a part keeps packages alike. -/
theorem remove (h : p.Alike p') (name : String) : (p.remove name).Alike (p'.remove name) := by
  obtain ⟨entries⟩ := p
  obtain ⟨entries'⟩ := p'
  unfold Package.Alike at h ⊢
  unfold Package.remove
  dsimp only at h ⊢
  -- Both entries of a place have one name, so that both are removed or neither.
  induction h with
  | nil => exact .nil
  | cons hentry hrest ih =>
    rw [List.filter_cons, List.filter_cons, hentry.1]
    split
    · exact .cons hentry ih
    · exact ih

end Alike

end Package

/-! ### Workbooks in packages -/

namespace Workbook.Alike

variable {w w' : Workbook} {p p' : Package} {t t' : ContentTypes}

/-- The order of calculation is dropped from both or from neither. -/
theorem dropCalcChain (hw : w.Alike w') (hp : p.Alike p') (ht : t.Alike t') :
    (w.dropCalcChain p t).1.Alike (w'.dropCalcChain p' t').1 ∧
      (w.dropCalcChain p t).2.1.Alike (w'.dropCalcChain p' t').2.1 ∧
      (w.dropCalcChain p t).2.2.Alike (w'.dropCalcChain p' t').2.2 := by
  unfold Workbook.dropCalcChain
  rw [hw.linked?]
  split
  · rename_i chain _
    have hrels : Workbook.Alike { w with rels := w.rels.removeType "calcChain" }
        { w' with rels := w'.rels.removeType "calcChain" } :=
      ⟨hw.path, hw.sheets, hw.doc, hw.rels.removeType _⟩
    exact ⟨hrels.requestCalculation, hp.remove chain, ht.removeOverride _⟩
  · exact ⟨hw.requestCalculation, hp, ht⟩

/-- Alike parts are written to alike packages. -/
theorem save (hw : w.Alike w') (hp : p.Alike p') (ht : t.Alike t')
    (hrels : w.rels.path ≠ Package.contentTypesPart) :
    (t.save (w.save p)).Alike (t'.save (w'.save p')) := by
  unfold ContentTypes.save Workbook.save Relationships.save Package.setXml
  rw [hw.path, hw.rels.path]
  by_cases hpath : w.path = Package.contentTypesPart
  · -- The content types take the place of the workbook.
    have hover : ∀ (p : Package) (a b c : ByteArray),
        ((p.set w.path a).set w.rels.path b).set Package.contentTypesPart c =
          (p.set Package.contentTypesPart c).set w.rels.path b := by
      intro p a b c
      unfold Package.set
      dsimp only
      rw [hpath, Keyed.set_set_of_ne (Ne.symm hrels)]
    rw [hover, hover]
    exact (hp.set _ ht.sameContent).set _ hw.rels.doc.sameContent
  · exact ((hp.set _ (hw.doc hpath).sameContent).set _ hw.rels.doc.sameContent).set _
      ht.sameContent

end Workbook.Alike

end SheetTemplate
