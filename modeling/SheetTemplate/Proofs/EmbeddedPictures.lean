import SheetTemplate.Proofs.ReadMarkup
import SheetTemplate.Proofs.ShownPictures

/-!
# Pictures that are put into a drawing

A picture is stored as a part, linked by the drawing and shown by an anchor. Its part, its link and
its shape are numbered each on their own: every one gets the number after the largest there is. The
numbers are read from names that others have made up, with zeros in front, with anything behind, or
with no number at all.

Numbers have 32 bits. As long as there is room for the numbers that are given, pictures are added to
whatever a package and a drawing hold, and take nothing from what is there. Once the last number is
taken, zero is given next, whether or not it is taken too.

## Key results

- `Drawing.hasShapeId_iff`, `Drawing.maxShapeId_le_iff`: the shapes of a drawing, at any depth
- `Album.added_of_step`: what one call adds
- `Album.grown_of_run`: what many calls add
- `Album.pictures_take_nothing`: both, for all calls that succeed while there is room
-/

namespace SheetTemplate

open Text (natural? max32 natural32? add32_of_le)
open Xml (Element Node Within)

namespace Text

/-- A number is read the same under any bound that it keeps. -/
theorem natural?_of_le {bound bound' n : Nat} {cs : List Char} (h : natural? bound cs = some n)
    (hle : n ≤ bound') : natural? bound' cs = some n := by
  obtain ⟨hdigits, -⟩ := Option.filter_eq_some_iff.1 h
  exact Option.filter_eq_some_iff.2 ⟨hdigits, decide_eq_true hle⟩

end Text

namespace Drawing

/-! ### Ids of shapes -/

/-- Whether an element of this name gives a shape its id. -/
def isShape (name : String) : Bool := "cNvPr".toList.isSuffixOf name.toList

/-- A shape somewhere in an element has this id. -/
def HasShapeId (e : Element) (id : String) : Prop :=
  ∃ shape, Within shape (.element e) ∧ isShape shape.name ∧ shape.attr? "id" = some id

/-- A shape is in an element if it is the element or in one of its children. -/
theorem hasShapeId_iff {e : Element} {id : String} : HasShapeId e id ↔
    isShape e.name ∧ e.attr? "id" = some id ∨
      ∃ c, Node.element c ∈ e.children ∧ HasShapeId c id := by
  constructor
  -- A shape within an element is the element itself or within one of its children.
  · rintro ⟨shape, hwithin, hshape⟩
    cases hwithin with
    | self => exact .inl hshape
    | @child _ n hn hwithin =>
      cases n with
      | element c => exact .inr ⟨c, hn, shape, hwithin, hshape⟩
      | text | cdata | comment => cases hwithin
  · rintro (hshape | ⟨c, hc, shape, hwithin, hshape⟩)
    · exact ⟨e, .self, hshape⟩
    · exact ⟨shape, .child hc hwithin, hshape⟩

/-- The number of a child is at most that of all children. -/
private theorem maxShapeId_le_of_mem {c : Element} {nodes : List Node}
    (h : Node.element c ∈ nodes) : maxShapeId c ≤ maxShapeIds nodes := by
  induction nodes with
  | nil => cases h
  | cons node r ih =>
    rcases List.mem_cons.1 h with rfl | hrest
    · exact Nat.le_max_left ..
    · cases node with
      | element e => exact Nat.le_trans (ih hrest) (Nat.le_max_right ..)
      | text | cdata | comment => exact ih hrest

/-- No number of a shape, at any depth, is larger than the largest. -/
theorem le_maxShapeId {e : Element} {id : String} {n : Nat} (h : HasShapeId e id)
    (hn : natural32? id = some n) : n ≤ maxShapeId e := by
  obtain ⟨shape, hwithin, hshape, hid⟩ := h
  generalize hnode : Node.element e = node at hwithin
  -- From the element inwards to the shape: the number only grows on the way back.
  induction hwithin generalizing e with
  | self =>
    cases hnode
    have hown : ownShapeId shape.name shape.attributes = n := by
      have hlookup : shape.attributes.lookup "id" = some id := hid
      unfold isShape at hshape
      rw [ownShapeId, if_pos hshape, hlookup, Option.bind_some, hn, Option.getD_some]
    obtain ⟨name, attributes, children⟩ := shape
    rw [maxShapeId, ← hown]
    exact Nat.le_max_left ..
  | @child parent node hmem hwithin ih =>
    cases hnode
    cases node with
    | element c =>
      obtain ⟨name, attributes, children⟩ := parent
      rw [maxShapeId]
      exact Nat.le_trans (ih rfl) (Nat.le_trans (maxShapeId_le_of_mem hmem) (Nat.le_max_right ..))
    | text | cdata | comment => cases hwithin

section

variable {bound : Nat}

mutual
/-- A bound of all shape ids is one of the largest, in an element and in a list of nodes. -/
private theorem maxShapeId_le : (e : Element) →
    (∀ id, HasShapeId e id → ∀ n ∈ natural32? id, n ≤ bound) → maxShapeId e ≤ bound
  | ⟨name, attributes, children⟩, h => by
    rw [maxShapeId]
    refine Nat.max_le.2 ⟨?_, maxShapeIds_le children fun c hc id hid =>
      h id (hasShapeId_iff.2 (.inr ⟨c, hc, hid⟩))⟩
    unfold ownShapeId
    split
    -- An id that is no number counts as zero.
    · rename_i hshape
      cases hn : (attributes.lookup "id").bind natural32? with
      | none => exact Nat.zero_le _
      | some n =>
        obtain ⟨id, hid, hnumber⟩ := Option.bind_eq_some_iff.1 hn
        exact h id (hasShapeId_iff.2 (.inl ⟨hshape, hid⟩)) n hnumber
    · exact Nat.zero_le _

/-- So along the nodes. -/
private theorem maxShapeIds_le : (nodes : List Node) →
    (∀ c, Node.element c ∈ nodes → ∀ id, HasShapeId c id → ∀ n ∈ natural32? id, n ≤ bound) →
    maxShapeIds nodes ≤ bound
  | [], _ => Nat.zero_le _
  | .element c :: nodes, h => by
    rw [maxShapeIds]
    exact Nat.max_le.2 ⟨maxShapeId_le c (h c List.mem_cons_self),
      maxShapeIds_le nodes fun other hother => h other (List.mem_cons_of_mem _ hother)⟩
  | .text _ :: nodes, h | .cdata _ :: nodes, h | .comment _ :: nodes, h =>
    maxShapeIds_le nodes fun other hother => h other (List.mem_cons_of_mem _ hother)
end

end

/-- The largest number of a shape is within a bound exactly if all numbers of shapes are. -/
theorem maxShapeId_le_iff {e : Element} {bound : Nat} :
    maxShapeId e ≤ bound ↔ ∀ id, HasShapeId e id → ∀ n ∈ natural32? id, n ≤ bound :=
  ⟨fun hle _ hid _ hn => Nat.le_trans (le_maxShapeId hid hn) hle, maxShapeId_le e⟩

/-- The number after the largest is not the number of any shape, however it is written, as long as
the last one is not taken. -/
theorem ne_next_of_hasShapeId {d : Drawing} (hmax : maxShapeId d.doc.root < max32) {id : String}
    (h : HasShapeId d.doc.root id) {bound n : Nat} (hn : natural? bound id.toList = some n) :
    n ≠ d.nextShapeId := by
  have hnext : d.nextShapeId = maxShapeId d.doc.root + 1 := add32_of_le hmax
  rw [hnext]
  rcases Nat.lt_or_ge max32 n with hlarge | hsmall
  · omega
  · have hle := le_maxShapeId h (Text.natural?_of_le hn hsmall)
    omega

/-- An element that is put in adds its own shapes. -/
theorem hasShapeId_push {e child : Element} {id : String} :
    HasShapeId (e.push child) id ↔ HasShapeId e id ∨ HasShapeId child id := by
  rw [hasShapeId_iff, hasShapeId_iff (e := e), or_assoc, Element.attr?_push, Element.name_push]
  simp [Element.push, or_and_right, exists_or]

/-! ### The shape of a new picture -/

/-- The name of the shape is one of those that are looked for. -/
private theorem isShape_qualified (d : Drawing) : isShape (d.qualified "cNvPr") = true := by
  unfold qualified
  split
  · rfl
  · rfl
  · rename_i q _ _ _
    have hname : (String.ofList q ++ ":" ++ "cNvPr").toList = q ++ [':'] ++ "cNvPr".toList := by
      simp [String.toList_append]
    rw [isShape, hname, List.isSuffixOf_iff_suffix]
    exact ⟨_, rfl⟩

/-- An element with elements has their shapes and its own. -/
private theorem hasShapeId_ofChildren {name : String} {attributes : List (String × String)}
    {children : List Element} {id : String} :
    HasShapeId (.ofChildren name attributes children) id ↔
      isShape name ∧ attributes.lookup "id" = some id ∨ ∃ c ∈ children, HasShapeId c id := by
  rw [hasShapeId_iff]
  simp [Element.ofChildren, Element.attr?]

/-- An element with a text alone is no shape. -/
private theorem not_hasShapeId_ofText {name t id : String} :
    ¬HasShapeId (.ofText name t) id := by
  rw [hasShapeId_iff]
  simp [Element.ofText, Element.attr?]

/-- The shape of a new picture has the id that it was given. -/
theorem hasShapeId_pictureAnchor {d : Drawing} {shapeId col row : Nat} {extent : Image.Extent}
    {link id : String} :
    HasShapeId (d.pictureAnchor shapeId col row extent link) id ↔ id = toString shapeId := by
  have hid : HasShapeId (d.pictureAnchor shapeId col row extent link) id ↔
      toString shapeId = id := by
    -- Only the shape itself has an attribute of that name.
    simp [pictureAnchor, hasShapeId_ofChildren, not_hasShapeId_ofText, List.lookup_cons,
      isShape_qualified]
  rw [hid, eq_comm]

/-- A new picture takes the number after the largest. -/
theorem maxShapeId_addPicture_le {d : Drawing} (hmax : maxShapeId d.doc.root < max32)
    (col row : Nat) (extent : Image.Extent) (link : String) :
    maxShapeId (d.addPicture col row extent link).doc.root ≤ maxShapeId d.doc.root + 1 := by
  refine maxShapeId_le_iff.2 fun id hid n hn => ?_
  rcases hasShapeId_push.1 hid with hold | hnew
  · exact Nat.le_succ_of_le (le_maxShapeId hold hn)
  · have hnext : d.nextShapeId = maxShapeId d.doc.root + 1 := add32_of_le hmax
    rw [hasShapeId_pictureAnchor.1 hnew, hnext, Option.mem_def, natural32?, Text.toList_toString]
      at hn
    exact Nat.le_of_eq (Text.eq_of_natural?_numeral hn)

end Drawing

/-! ### Calls -/

/-- A drawing, with the package that its pictures are stored in. -/
structure Album where
  package : Package
  types : ContentTypes
  drawing : Drawing

namespace Album

/-- Stores a picture and links it, and gives the id of the link. -/
def embed (a : Album) (picture : Image.Picture) : Except Error (Album × String) :=
  let (package, types, file) := Drawing.storePicture a.package a.types picture
  (a.drawing.link file).map fun (drawing, id) => ({ package, types, drawing }, id)

/-- A picture that is embedded is stored and linked once. -/
theorem embed_eq_ok {a a' : Album} {picture : Image.Picture} {id : String}
    (h : a.embed picture = .ok (a', id)) :
    ∃ rels, a.drawing.rels.add Relationships.imageType
        ("../media/" ++ (Drawing.storePicture a.package a.types picture).2.2) = .ok (rels, id) ∧
      a' = {
        package := (Drawing.storePicture a.package a.types picture).1
        types := (Drawing.storePicture a.package a.types picture).2.1
        drawing := { a.drawing with rels } } := by
  obtain ⟨⟨drawing, id'⟩, hlink, heq⟩ := map_eq_ok.1 h
  cases heq
  obtain ⟨rels, hadd, rfl⟩ := Drawing.link_eq_ok hlink
  exact ⟨rels, hadd, rfl⟩

/-- Shows a linked picture from a cell on. -/
def addPicture (a : Album) (col row : Nat) (extent : Image.Extent) (link : String) : Album :=
  { a with drawing := a.drawing.addPicture col row extent link }

/-- A call, with what it gives. -/
inductive Call where
  | embed (picture : Image.Picture) (id : String)
  | addPicture (col row : Nat) (extent : Image.Extent) (link : String)

namespace Call

/-- The bytes that a call stores. -/
def bytes? : Call → Option ByteArray
  | .embed picture _ => some picture.bytes
  | .addPicture .. => none

/-- The id of the link that a call makes. -/
def link? : Call → Option String
  | .embed _ id => some id
  | .addPicture .. => none

end Call

/-- A call that succeeds. -/
inductive Step : Album → Call → Album → Prop
  | embed {a a' : Album} {picture : Image.Picture} {id : String}
      (h : a.embed picture = .ok (a', id)) : Step a (.embed picture id) a'
  | addPicture {a : Album} (col row : Nat) (extent : Image.Extent) (link : String) :
      Step a (.addPicture col row extent link) (a.addPicture col row extent link)

/-- Calls one after another. -/
inductive Run : Album → List Call → Album → Prop
  | nil (a : Album) : Run a [] a
  | cons {a b c : Album} {call : Call} {calls : List Call} (hstep : Step a call b)
      (hrest : Run b calls c) : Run a (call :: calls) c

/-- There are numbers of 32 bits for all that calls make: the parts of pictures, their links and
their shapes. -/
structure Room (a : Album) (calls : List Call) : Prop where
  parts : a.package.lastIndex "xl/media/image" + calls.countP (·.link?.isSome) ≤ max32
  links : a.drawing.rels.lastId + calls.countP (·.link?.isSome) ≤ max32
  shapes : Drawing.maxShapeId a.drawing.doc.root + calls.countP (·.link?.isNone) ≤ max32

/-! ### One call -/

/-- A picture is stored as one part and linked by one relationship, both new, and nothing else
changes. -/
structure Embedded (a a' : Album) (bytes : ByteArray) (id part : String) (rel : Element) :
    Prop where
  newPart : part ∉ a.package.names
  package : a'.package.entries = a.package.entries ++ [(part, bytes)]
  newId : ∀ old ∈ a.drawing.rels.toList, old.attr? "Id" ≠ some id
  named : rel.name = "Relationship" ∧ rel.attr? "Id" = some id
  rels : a'.drawing.rels = a.drawing.rels.mapRoot (·.push rel)
  doc : a'.drawing.doc = a.drawing.doc

/-- An anchor is added at the end, with one shape whose id is new, and nothing else changes. -/
structure Anchored (a a' : Album) (anchor : Element) (shapeId : Nat) : Prop where
  isAnchor : Drawing.isAnchor anchor
  shape : ∀ id, Drawing.HasShapeId anchor id ↔ id = toString shapeId
  newId : ∀ id, Drawing.HasShapeId a.drawing.doc.root id → ∀ bound n,
    natural? bound id.toList = some n → n ≠ shapeId
  root : a'.drawing.doc.root = a.drawing.doc.root.push anchor
  rels : a'.drawing.rels = a.drawing.rels
  package : a'.package = a.package

/-- What a call adds. -/
def Added (a a' : Album) : Call → Prop
  | .embed picture id => ∃ part rel, Embedded a a' picture.bytes id part rel
  | .addPicture .. => ∃ anchor shapeId, Anchored a a' anchor shapeId

variable {a b c : Album} {call : Call} {calls : List Call}

/-- Every call that succeeds adds what it makes, under new names and ids, if there is room. -/
theorem added_of_step (h : Step a call b) (hroom : a.Room (call :: calls)) : Added a b call := by
  obtain ⟨hparts, hlinks, hshapes⟩ := hroom
  -- Each call needs the room that it takes up itself.
  cases h with
  | @embed _ picture id h =>
    obtain ⟨rels, hadd, rfl⟩ := embed_eq_ok h
    obtain ⟨hid, hrels⟩ := Relationships.add_eq_ok hadd
    rw [List.countP_cons_of_pos rfl] at hparts hlinks
    have hlast : a.package.lastIndex "xl/media/image" < Text.max32 := by omega
    have hnew := Drawing.pictureFile_not_mem picture hlast
    refine ⟨"xl/media/" ++ Drawing.pictureFile a.package picture, _, hnew,
      Package.entries_set_of_not_mem hnew _, fun old hold hsame => ?_, ⟨rfl, rfl⟩, hrels, rfl⟩
    have hnone := List.find?_eq_none.1 (Relationships.get?_of_nextId hid (by omega)) old hold
    exact hnone (beq_iff_eq.2 hsame)
  | addPicture col row extent link =>
    rw [List.countP_cons_of_pos rfl] at hshapes
    exact ⟨_, _, Drawing.isAnchor_pictureAnchor .., fun id => Drawing.hasShapeId_pictureAnchor,
      fun id hid bound n hn => Drawing.ne_next_of_hasShapeId (by omega) hid hn, rfl, rfl, rfl⟩

/-- A call takes one of the numbers that there is room for, and leaves room for the other calls. -/
theorem Room.of_step (hroom : a.Room (call :: calls)) (h : Step a call b) : b.Room calls := by
  obtain ⟨hparts, hlinks, hshapes⟩ := hroom
  -- What a call takes up is no longer there for the others.
  cases h with
  | @embed _ picture id h =>
    obtain ⟨rels, hadd, rfl⟩ := embed_eq_ok h
    rw [List.countP_cons_of_pos rfl] at hparts hlinks
    rw [List.countP_cons_of_neg (by simp [Call.link?])] at hshapes
    have hpart : Package.lastIndex (Drawing.storePicture a.package a.types picture).1
        "xl/media/image" = a.package.lastIndex "xl/media/image" + 1 :=
      Drawing.lastIndex_set_pictureFile picture (by omega)
    have hid := Relationships.lastId_of_add hadd (by omega)
    refine ⟨?_, by dsimp only; omega, hshapes⟩
    show Package.lastIndex (Drawing.storePicture a.package a.types picture).1 _ + _ ≤ _
    omega
  | addPicture col row extent link =>
    rw [List.countP_cons_of_neg (by simp [Call.link?])] at hparts hlinks
    rw [List.countP_cons_of_pos rfl] at hshapes
    have hmax := Drawing.maxShapeId_addPicture_le (d := a.drawing) (by omega) col row extent link
    exact ⟨hparts, hlinks, by dsimp only [Album.addPicture]; omega⟩

/-! ### Many calls -/

/-- What calls add comes after what was there, in the order in which they add it, and takes no name
and no id from it or from one another. -/
structure Grown (a b : Album) (parts : List (String × ByteArray)) (links anchors : List Element)
    (shapeIds : List Nat) : Prop where
  package : b.package.entries = a.package.entries ++ parts
  newParts : ∀ part ∈ parts, part.1 ∉ a.package.names
  apartParts : (parts.map Prod.fst).Nodup
  rels : b.drawing.rels = a.drawing.rels.mapRoot (·.pushAll links)
  newLinks : ∀ rel ∈ links, rel.name = "Relationship" ∧
    ∀ old ∈ a.drawing.rels.toList, old.attr? "Id" ≠ rel.attr? "Id"
  apartLinks : (links.map (·.attr? "Id")).Nodup
  root : b.drawing.doc.root = a.drawing.doc.root.pushAll anchors
  shapes : List.Forall₂ (fun anchor shapeId => Drawing.isAnchor anchor ∧
    ∀ id, Drawing.HasShapeId anchor id ↔ id = toString shapeId) anchors shapeIds
  newShapes : ∀ shapeId ∈ shapeIds, ∀ id, Drawing.HasShapeId a.drawing.doc.root id → ∀ bound n,
    natural? bound id.toList = some n → n ≠ shapeId
  apartShapes : shapeIds.Nodup

theorem Grown.refl (a : Album) : Grown a a [] [] [] [] where
  package := by simp
  newParts := by simp
  apartParts := by simp
  rels := by simp [Relationships.mapRoot]
  newLinks := by simp
  apartLinks := by simp
  root := by simp
  shapes := .nil
  newShapes := by simp
  apartShapes := by simp

section

variable {parts : List (String × ByteArray)} {links anchors : List Element} {shapeIds : List Nat}

/-- What is added after a picture was stored. -/
private theorem Grown.of_embedded {bytes : ByteArray} {id part : String} {rel : Element}
    (hfirst : Embedded a b bytes id part rel) (h : Grown b c parts links anchors shapeIds) :
    Grown a c ((part, bytes) :: parts) (rel :: links) anchors shapeIds := by
  -- What the other calls find is what the first one has left.
  have hnames : b.package.names = a.package.names ++ [part] := by
    rw [Package.names, hfirst.package, List.map_append]
    rfl
  have hlist : b.drawing.rels.toList = a.drawing.rels.toList ++ [rel] := by
    rw [hfirst.rels, Relationships.toList, Relationships.mapRoot, Element.named,
      Element.elements_push, List.filter_append, List.filter_singleton, hfirst.named.1]
    rfl
  have hparts : ∀ p ∈ parts, p.1 ∉ a.package.names ∧ p.1 ≠ part := by
    intro p hp
    have hnew := h.newParts p hp
    rw [hnames, List.mem_append, List.mem_singleton, not_or] at hnew
    exact hnew
  have hlinks : ∀ link ∈ links, (∀ old ∈ a.drawing.rels.toList, old.attr? "Id" ≠ link.attr? "Id") ∧
      rel.attr? "Id" ≠ link.attr? "Id" := by
    intro link hlink
    have hnew := (h.newLinks link hlink).2
    rw [hlist] at hnew
    exact ⟨fun old hold => hnew old (List.mem_append_left _ hold),
      hnew rel (List.mem_append_right _ (List.mem_singleton_self rel))⟩
  exact {
    package := by rw [h.package, hfirst.package, List.append_assoc, List.singleton_append]
    newParts := List.forall_mem_cons.2 ⟨hfirst.newPart, fun p hp => (hparts p hp).1⟩
    apartParts := by
      refine List.nodup_cons.2 ⟨fun hmem => ?_, h.apartParts⟩
      obtain ⟨p, hp, heq⟩ := List.mem_map.1 hmem
      exact (hparts p hp).2 heq
    rels := by
      rw [h.rels, hfirst.rels]
      simp [Relationships.mapRoot, Element.push, Element.pushAll]
    newLinks := by
      refine List.forall_mem_cons.2 ⟨⟨hfirst.named.1, fun old hold => ?_⟩, fun link hlink =>
        ⟨(h.newLinks link hlink).1, (hlinks link hlink).1⟩⟩
      rw [hfirst.named.2]
      exact hfirst.newId old hold
    apartLinks := by
      refine List.nodup_cons.2 ⟨fun hmem => ?_, h.apartLinks⟩
      obtain ⟨link, hlink, heq⟩ := List.mem_map.1 hmem
      exact (hlinks link hlink).2 heq.symm
    root := by rw [h.root, hfirst.doc]
    shapes := h.shapes
    newShapes := by
      rw [← hfirst.doc]
      exact h.newShapes
    apartShapes := h.apartShapes }

/-- A number that is written is read back. -/
private theorem natural?_toString (n : Nat) : natural? n (toString n).toList = some n := by
  rw [Text.toList_toString]
  exact Text.natural?_numeral (Nat.le_refl n)

/-- No shape that was there has the id of the new one, which is written as a number. -/
private theorem Anchored.not_hasShapeId {anchor : Element} {shapeId : Nat}
    (h : Anchored a b anchor shapeId) :
    ¬Drawing.HasShapeId a.drawing.doc.root (toString shapeId) := fun hid =>
  h.newId _ hid _ _ (natural?_toString shapeId) rfl

/-- What is added after a picture was shown. -/
private theorem Grown.of_anchored {anchor : Element} {shapeId : Nat}
    (hfirst : Anchored a b anchor shapeId) (h : Grown b c parts links anchors shapeIds) :
    Grown a c parts links (anchor :: anchors) (shapeId :: shapeIds) := by
  -- The shape of this anchor is one of those that the other calls find.
  have hshapes : ∀ id, Drawing.HasShapeId a.drawing.doc.root id ∨ id = toString shapeId →
      Drawing.HasShapeId b.drawing.doc.root id := by
    intro id hid
    rw [hfirst.root, Drawing.hasShapeId_push, hfirst.shape]
    exact hid
  exact {
    package := by rw [h.package, hfirst.package]
    newParts := by
      rw [← hfirst.package]
      exact h.newParts
    apartParts := h.apartParts
    rels := by rw [h.rels, hfirst.rels]
    newLinks := by
      rw [← hfirst.rels]
      exact h.newLinks
    apartLinks := h.apartLinks
    root := by
      rw [h.root, hfirst.root]
      simp [Element.push, Element.pushAll]
    shapes := .cons ⟨hfirst.isAnchor, hfirst.shape⟩ h.shapes
    newShapes := List.forall_mem_cons.2 ⟨hfirst.newId, fun other hother id hid =>
      h.newShapes other hother id (hshapes id (.inl hid))⟩
    apartShapes := by
      refine List.nodup_cons.2 ⟨fun hmem => ?_, h.apartShapes⟩
      exact h.newShapes shapeId hmem _ (hshapes _ (.inr rfl)) _ _ (natural?_toString shapeId) rfl }

/-- Calls that succeed add as many parts, links and anchors as they are asked for, with the bytes
that they are given and the ids that they give. -/
theorem grown_of_run (h : Run a calls b) (hroom : a.Room calls) : ∃ parts links anchors shapeIds,
    Grown a b parts links anchors shapeIds ∧ parts.map Prod.snd = calls.filterMap Call.bytes? ∧
      links.map (·.attr? "Id") = (calls.filterMap Call.link?).map some ∧
      anchors.length = calls.countP (·.link?.isNone) := by
  -- Call by call, with less room for those that are left.
  induction h with
  | nil a => exact ⟨[], [], [], [], .refl a, rfl, rfl, rfl⟩
  | @cons a b c call calls hstep hrest ih =>
    obtain ⟨parts, links, anchors, shapeIds, hgrown, hbytes, hlinks, hanchors⟩ :=
      ih (hroom.of_step hstep)
    have hadded := added_of_step hstep hroom
    cases call with
    | embed picture id =>
      obtain ⟨part, rel, hembedded⟩ := hadded
      refine ⟨_, _, _, _, hgrown.of_embedded hembedded, ?_, ?_, ?_⟩
      · rw [List.map_cons, hbytes]
        rfl
      · rw [List.map_cons, hlinks, hembedded.named.2]
        rfl
      · rw [hanchors, List.countP_cons_of_neg (by simp [Call.link?])]
    | addPicture col row extent link =>
      obtain ⟨anchor, shapeId, hanchored⟩ := hadded
      refine ⟨_, _, _, _, hgrown.of_anchored hanchored, hbytes, hlinks, ?_⟩
      rw [List.length_cons, hanchors, List.countP_cons_of_pos rfl]

end

/-- Every call is a step from what the calls before it have made. -/
theorem Run.split {before rest : List Call} (h : Run a (before ++ call :: rest) c) :
    ∃ x y, Run a before x ∧ Step x call y ∧ Run y rest c := by
  induction before generalizing a with
  | nil =>
    cases h with
    | cons hstep hrest => exact ⟨a, _, .nil a, hstep, hrest⟩
  | cons first before ih =>
    cases h with
    | cons hstep hrest =>
      obtain ⟨x, y, hbefore, hcall, hafter⟩ := ih hrest
      exact ⟨x, y, .cons hstep hbefore, hcall, hafter⟩

/-- What calls leave room for is still there once some of them are made. -/
theorem Room.of_run {before rest : List Call} (hroom : a.Room (before ++ rest))
    (h : Run a before b) : b.Room rest := by
  induction h with
  | nil => exact hroom
  | cons hstep _ ih => exact ih (hroom.of_step hstep)

/-- Pictures that are put into a drawing take nothing from what is there, as long as there is room
for their numbers. Each call that succeeds adds what it makes after what it finds, under a name or
an id that nothing has, and all of them together take none from one another. -/
theorem pictures_take_nothing (h : Run a calls b) (hroom : a.Room calls) :
    (∀ before call rest, calls = before ++ call :: rest →
      ∃ x y, Run a before x ∧ Added x y call ∧ Run y rest b) ∧
    ∃ parts links anchors shapeIds, Grown a b parts links anchors shapeIds ∧
      parts.map Prod.snd = calls.filterMap Call.bytes? ∧
      links.map (·.attr? "Id") = (calls.filterMap Call.link?).map some ∧
      anchors.length = calls.countP (·.link?.isNone) := by
  refine ⟨fun before call rest hcalls => ?_, grown_of_run h hroom⟩
  subst hcalls
  obtain ⟨x, y, hbefore, hcall, hafter⟩ := h.split
  exact ⟨x, y, hbefore, added_of_step hcall (hroom.of_run hbefore), hafter⟩

/-- An album whose names and ids are not as they are made here. -/
private def oddAlbum : Album where
  package := {
    entries := [("xl/media/image007.old.png", .mk #[1]),
      ("xl/media/image99999999999.png", .mk #[2])] }
  types := { doc := { root := { name := "Types" } } }
  drawing := {
    path := "xl/drawings/drawing1.xml"
    doc := { root := .ofChildren "xdr:wsDr" [] [.ofChildren "xdr:grpSp" [] [
      .ofChildren "xdr:cNvPr" [("id", "+012")] [], .ofChildren "cNvPr" [("id", "4294967296")] []]] }
    rels := {
      path := "xl/drawings/_rels/drawing1.xml.rels"
      doc := { root := .ofChildren "Relationships" [] [
        .ofChildren "Relationship" [("Id", "xrId03y")] []] } } }

private def dot : Image.Picture where
  bytes := .mk #[3]
  format := .png
  size := default

/-- Two pictures and an anchor, with the numbers 8 and 9, 4 and 5, and 13. -/
theorem pictures_take_nothing_sample : ∃ b,
    Run oddAlbum [.embed dot "rId4", .addPicture 0 0 ⟨1, 1⟩ "rId4", .embed dot "rId5"] b ∧
      b.package.names = ["xl/media/image007.old.png", "xl/media/image99999999999.png",
        "xl/media/image8.png", "xl/media/image9.png"] ∧
      Drawing.HasShapeId b.drawing.doc.root "13" ∧
      ∃ parts links anchors shapeIds, Grown oddAlbum b parts links anchors shapeIds ∧
        parts.map Prod.snd = [dot.bytes, dot.bytes] ∧
        links.map (·.attr? "Id") = [some "rId4", some "rId5"] ∧ anchors.length = 1 := by
  have hrun : Run oddAlbum
      [.embed dot "rId4", .addPicture 0 0 ⟨1, 1⟩ "rId4", .embed dot "rId5"] _ :=
    .cons (.embed rfl) (.cons (.addPicture 0 0 ⟨1, 1⟩ "rId4") (.cons (.embed rfl) (.nil _)))
  refine ⟨_, hrun, by decide +kernel, ?_, (pictures_take_nothing hrun
    ⟨by decide +kernel, by decide +kernel, by decide +kernel⟩).2⟩
  exact Drawing.hasShapeId_push.2 (.inr (Drawing.hasShapeId_pictureAnchor.2 (by decide +kernel)))

/-- An album in which the last numbers of parts, links and shapes are taken, and zeros as well. -/
private def fullAlbum : Album where
  package := {
    entries := [("xl/media/image4294967295.png", .mk #[1]), ("xl/media/image0.png", .mk #[2])] }
  types := { doc := { root := { name := "Types" } } }
  drawing := {
    path := "xl/drawings/drawing1.xml"
    doc := { root := .ofChildren "xdr:wsDr" [] [
      .ofChildren "xdr:cNvPr" [("id", "4294967295")] [], .ofChildren "xdr:cNvPr" [("id", "0")] []] }
    rels := {
      path := "xl/drawings/_rels/drawing1.xml.rels"
      doc := { root := .ofChildren "Relationships" [] [
        .ofChildren "Relationship" [("Id", "rId4294967295")] [],
        .ofChildren "Relationship" [("Id", "rId0")] []] } } }

/-- Without room for its numbers, a picture takes the part, the id of the link and the id of the
shape that have the number zero, though both calls succeed. -/
theorem zero_taken_again : ∃ a b : Album,
    Step fullAlbum (.embed dot "rId0") a ∧ ¬Added fullAlbum a (.embed dot "rId0") ∧
      a.package.names = fullAlbum.package.names ∧
      Step a (.addPicture 0 0 ⟨1, 1⟩ "rId0") b ∧ ¬Added a b (.addPicture 0 0 ⟨1, 1⟩ "rId0") := by
  -- The largest numbers are taken, so that the next ones are zero, which are taken too.
  obtain ⟨⟨a, id⟩, hembed, heq⟩ := exists_eq_ok (x := fullAlbum.embed dot)
    (f := fun r => (r.2, r.1.package.names, r.1.drawing.doc))
    (b := ("rId0", fullAlbum.package.names, fullAlbum.drawing.doc)) (by decide +kernel)
  obtain ⟨rfl, hnames, hdoc⟩ : id = "rId0" ∧ a.package.names = fullAlbum.package.names ∧
      a.drawing.doc = fullAlbum.drawing.doc := by simpa using heq
  refine ⟨a, _, .embed hembed, ?_, hnames, .addPicture .., ?_⟩
  · rintro ⟨part, rel, h⟩
    exact h.newId _ (List.mem_cons_of_mem _ List.mem_cons_self) rfl
  -- A new anchor would have an id of its own, but zero is that of a shape there is.
  · rintro ⟨anchor, shapeId, h⟩
    have hroot := congrArg Element.children h.root
    simp only [Album.addPicture, Drawing.addPicture, Element.push, List.append_cancel_left_eq,
      List.cons.injEq, Node.element.injEq, and_true] at hroot
    have hzero : a.drawing.nextShapeId = 0 := by
      rw [Drawing.nextShapeId, hdoc]
      decide +kernel
    have hid : "0" = toString shapeId := (h.shape "0").1
      (hroot ▸ Drawing.hasShapeId_pictureAnchor.2 (by rw [hzero]; decide +kernel))
    have hthere : Drawing.HasShapeId fullAlbum.drawing.doc.root "0" :=
      Drawing.hasShapeId_iff.2 (.inr ⟨_, List.mem_cons_of_mem _ List.mem_cons_self,
        Drawing.hasShapeId_iff.2 (.inl ⟨rfl, rfl⟩)⟩)
    rw [← hdoc, hid] at hthere
    exact h.not_hasShapeId hthere

end Album

end SheetTemplate
