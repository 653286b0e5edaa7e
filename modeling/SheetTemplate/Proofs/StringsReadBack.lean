import SheetTemplate.Proofs.AlikeParts
import SheetTemplate.Proofs.CellContents

/-!
# Shared strings written and read again

The part of the shared strings is written from the string table, with the entries it was read with
where their texts are still in place. Read again, it gives the same table, and what is written after
further texts were added reads back as the same document: the entries that were made plain are then
entries that were read.

## Key results

- `SharedStrings.Sound`: what holds of shared strings from the time they are read
- `entryText_entries`: the texts of what is written
- `SharedStrings.Sound.alike_ofDocument`: shared strings that are read again
-/

namespace SheetTemplate

open Xml (Element Document SameTree TidyEdit SameDocument NamedTag)

/-! ### String tables -/

namespace StringTable

/-- A table made from a list is made by adding its texts one by one. -/
theorem ofList_append (texts : List String) (text : String) :
    ofList (texts ++ [text]) = ((ofList texts).append text).1 := by
  rw [ofList, ofList, List.foldl_append]
  rfl

/-- A table that is determined by its texts stays so. -/
theorem index_eq_ofList {t : StringTable} (h : t = ofList t.toList) (text : String) :
    (t.index text).1 = ofList (t.index text).1.toList := by
  unfold index
  split
  · exact h
  · rw [toList_append, ofList_append, ← h]

/-- A table made from a list is made from its own texts, too. -/
theorem eq_ofList_ofList (texts : List String) : ofList texts = ofList (ofList texts).toList := by
  rw [toList_ofList]

end StringTable

namespace SharedStrings

/-! ### Entries -/

/-- A new entry is an entry. -/
@[simp]
theorem name_newEntry (text : String) : (newEntry text).name = "si" := rfl

/-- A new entry is writable. -/
theorem writable_newEntry (text : String) : (newEntry text).Writable :=
  ⟨by decide, ⟨.of_keys ["xml:space"] rfl (by decide) (by decide) (by decide), trivial, trivial⟩,
    trivial⟩

/-- A plain entry has the text that it was made for, if this survives its escapes. -/
theorem entryText_newEntry {text : String}
    (h : Text.CodeEscape.decode (Text.CodeEscape.encode text.toList) = text.toList) :
    entryText (newEntry text) = text := by
  have hwritten : String.join ((newEntry text).elements.map partText) =
      String.ofList (Text.CodeEscape.encode text.toList) := by
    simp [newEntry, Element.ofChildren, Element.elements, Xml.Node.element?, partText,
      Element.text, Xml.Node.content]
  rw [entryText, hwritten, String.toList_ofList, h, String.ofList_toList]

/-- The text of a part of an entry does not depend on its division. -/
private theorem partText_tidy (e : Element) : partText e.tidy = partText e := by
  simp [partText, Function.comp_def]

/-- Nor does the text of the entry. -/
theorem entryText_tidy (e : Element) : entryText e.tidy = entryText e := by
  simp [entryText, Function.comp_def, partText_tidy]

/-- Without entries that were read all entries are new. -/
private theorem entries_nil (texts : List String) : entries [] texts = texts.map newEntry := by
  induction texts with
  | nil => rfl
  | cons text texts ih => rw [entries, ih, List.map_cons]

/-- Further texts get plain entries. -/
theorem entries_append {read : List (String × Element)} {texts : List String}
    (h : read.length ≤ texts.length) (more : List String) :
    entries read (texts ++ more) = entries read texts ++ more.map newEntry := by
  induction texts generalizing read with
  | nil =>
    obtain rfl : read = [] := by simpa using h
    exact entries_nil more
  | cons text texts ih =>
    cases read with
    | nil => rw [List.cons_append, entries, entries, ih (by simp)]; rfl
    | cons x read =>
      rw [List.cons_append, entries, entries, ih (by simpa using h)]
      rfl

/-- Entries whose texts are all in place are written as they were read. -/
theorem entries_of_map_fst {read : List (String × Element)} {texts : List String}
    (h : read.map Prod.fst = texts) : entries read texts = read.map Prod.snd := by
  subst h
  induction read with
  | nil => rfl
  | cons x read ih => rw [List.map_cons, List.map_cons, entries, if_pos rfl, ih]

/-- An entry that was read: it can be written and has its text. -/
structure ReadEntry (x : String × Element) : Prop where
  writable : x.2.Writable
  name : x.2.name = "si"
  text : entryText x.2 = x.1

/-- What holds of all that is written: it is one of the entries that were read, or a plain one. -/
private theorem entries_spec {p : String → Element → Prop} {read : List (String × Element)}
    (texts : List String) (hread : ∀ x ∈ read, p x.1 x.2) (hnew : ∀ t ∈ texts, p t (newEntry t)) :
    List.Forall₂ p texts (entries read texts) := by
  -- Along the texts and the entries that were read, side by side.
  induction texts generalizing read with
  | nil => exact .nil
  | cons text texts ih =>
    rw [List.forall_mem_cons] at hnew
    cases read with
    | nil => exact .cons hnew.1 (ih (by simp) hnew.2)
    | cons x read =>
      rw [List.forall_mem_cons] at hread
      refine .cons ?_ (ih hread.2 hnew.2)
      split
      · rename_i htext
        exact htext ▸ hread.1
      · exact hnew.1

/-- Every entry that is written is writable, and is named as one. -/
theorem mem_entries {read : List (String × Element)} {texts : List String}
    (hread : ∀ x ∈ read, ReadEntry x) {e : Element} (he : e ∈ entries read texts) :
    e.Writable ∧ e.name = "si" := by
  have hall := entries_spec (p := fun _ e => e.Writable ∧ e.name = "si") texts
    (fun x hx => ⟨(hread x hx).writable, (hread x hx).name⟩)
    fun t _ => ⟨writable_newEntry t, name_newEntry t⟩
  obtain ⟨i, hi, rfl⟩ := List.getElem_of_mem he
  exact hall.get (hall.length_eq ▸ hi) hi

/-- The texts of what is written are those it was written for. -/
theorem entryText_entries {read : List (String × Element)} {texts : List String}
    (hread : ∀ x ∈ read, ReadEntry x)
    (htexts : ∀ t ∈ texts, Text.CodeEscape.decode (Text.CodeEscape.encode t.toList) = t.toList) :
    (entries read texts).map entryText = texts := by
  have hall := entries_spec (p := fun t e => entryText e = t) texts
    (fun x hx => (hread x hx).text) fun t ht => entryText_newEntry (htexts t ht)
  generalize entries read texts = written at hall ⊢
  clear htexts
  induction hall with
  | nil => rfl
  | cons h _ ih => rw [List.map_cons, h, ih]

/-! ### Shared strings -/

/-- What holds of shared strings from the time they are read. The table has no more than its texts,
and new shared strings have nothing else. -/
structure Sound (s : SharedStrings) : Prop where
  table : s.table = .ofList s.table.toList
  root : s.root.Writable
  bare : s.root.elements = []
  read : ∀ x ∈ s.read, ReadEntry x
  short : s.read.length ≤ s.table.toList.length
  new : s.existed = false → s = { empty s.path with table := s.table }

/-- Shared strings that are begun are sound. -/
theorem sound_empty (path : String) : (empty path).Sound where
  table := rfl
  root := Element.writable_of_namedTag (.of_keys ["xmlns"] rfl (by decide) (by decide) (by decide))
  bare := rfl
  read := by simp [empty]
  short := Nat.le_refl _
  new _ := rfl

/-- So are those that are read from a document. -/
theorem sound_ofDocument (path : String) {doc : Document} (h : doc.Writable) :
    (ofDocument path doc).Sound where
  table := StringTable.eq_ofList_ofList _
  root := (TidyEdit.removeWhere fun _ => rfl).writable _ h
  bare := Element.elements_removeElements _
  read x hx := by
    obtain ⟨e, he, rfl⟩ := List.mem_map.1 hx
    exact ⟨Element.writable_of_mem h (List.mem_of_mem_filter he),
      Element.name_of_mem_named _ _ he, rfl⟩
  short := by simp [ofDocument, StringTable.toList_ofList]
  new h := by cases h

/-- Texts may be added. -/
theorem Sound.withTable {s : SharedStrings} (h : s.Sound) {t : StringTable}
    (ht : t = .ofList t.toList) (hgrows : s.table.GrowsTo t) :
    Sound { s with table := t } where
  table := ht
  root := h.root
  bare := h.bare
  read := h.read
  short := h.short.trans hgrows.length_le
  new hnew := by rw [h.new hnew]; rfl

/-- The root is writable with the entries of any table. -/
private theorem writable_pushed {s : SharedStrings} (h : s.Sound) (t : StringTable) :
    (s.root.pushAll (entries s.read t.toList)).Writable :=
  (TidyEdit.pushAll fun _ hc => (mem_entries h.read hc).1).writable _ h.root

/-- The counts of the root are attributes. -/
private theorem tidyEdit_counts (count : String) :
    TidyEdit fun e => (e.setAttr "count" count).setAttr "uniqueCount" count :=
  (TidyEdit.setAttr (by decide) count).comp (.setAttr (by decide) count)

/-- What is written of sound shared strings can be read. -/
theorem Sound.writable_document {s : SharedStrings} (h : s.Sound) (t : StringTable) :
    ({ s with table := t }).document.Writable :=
  (tidyEdit_counts _).writable _ (writable_pushed h t)

/-- Shared strings from which the same is written, now and after further texts. Some may have been
read from a part that the others have written. -/
structure Alike (s s' : SharedStrings) : Prop where
  path : s'.path = s.path
  table : s'.table = s.table
  existed : s'.existed = s.existed ∨ s'.existed = true ∧ s.table.size ≠ 0
  document : ∀ t : StringTable, s.table.GrowsTo t →
    SameDocument { s with table := t }.document { s' with table := t }.document

/-- Sound shared strings are alike to themselves. -/
theorem Sound.alike_self {s : SharedStrings} (h : s.Sound) : s.Alike s :=
  ⟨rfl, rfl, .inl rfl, fun t _ => .refl (h.writable_document t)⟩

/-- Entries are all the elements that are written. -/
private theorem Sound.elements_document {s : SharedStrings} (h : s.Sound) :
    s.document.root.elements = entries s.read s.table.toList := by
  unfold document
  rw [Element.elements_setAttr, Element.elements_setAttr, Element.elements_pushAll, h.bare,
    List.nil_append]

/-- The entries of the document are those of the table. -/
theorem Sound.named_si_document {s : SharedStrings} (h : s.Sound) :
    s.document.root.named "si" = entries s.read s.table.toList := by
  rw [Element.named, h.elements_document, List.filter_eq_self]
  intro e he
  simpa using (mem_entries h.read he).2

/-- The document has no child elements but the entries. -/
theorem Sound.named_document {s : SharedStrings} (h : s.Sound) {name : String}
    (hname : name ≠ "si") : s.document.root.named name = [] := by
  rw [Element.named, h.elements_document, List.filter_eq_nil_iff]
  intro e he
  simpa [(mem_entries h.read he).2] using Ne.symm hname

/-- What is read of shared strings that were written. -/
private theorem read_ofDocument {s : SharedStrings} (h : s.Sound) :
    (ofDocument s.path s.document.tidy).read =
      (entries s.read s.table.toList).map fun e => (entryText e, e.tidy) := by
  unfold ofDocument
  dsimp only [Document.tidy]
  rw [Element.named_tidy, h.named_si_document, List.map_map]
  exact List.map_congr_left fun e _ => by simp [entryText_tidy]

/-- The root that is read again differs in the counts only. -/
private theorem root_ofDocument {s : SharedStrings} (h : s.Sound) :
    SameTree ((s.root.setAttr "count" (toString s.table.size)).setAttr "uniqueCount"
      (toString s.table.size)) (ofDocument s.path s.document.tidy).root := by
  have hroot : s.document.root.removeElements = (s.root.setAttr "count"
      (toString s.table.size)).setAttr "uniqueCount" (toString s.table.size) := by
    show (((s.root.pushAll (entries s.read s.table.toList)).removeElements.setAttr "count"
      (toString s.table.size)).setAttr "uniqueCount" (toString s.table.size)) = _
    rw [Element.removeElements_pushAll _ h.bare]
  rw [← hroot]
  exact (SameDocument.tidy_right (h.writable_document s.table)).root.edit
    (.removeWhere fun _ => rfl)

/-- Counts that are set before children are added are set anew after it. -/
private theorem setAttr_counts (e : Element) (children : List Element) (old new : String) :
    ((((e.setAttr "count" old).setAttr "uniqueCount" old).pushAll children).setAttr "count"
      new).setAttr "uniqueCount" new =
      ((e.pushAll children).setAttr "count" new).setAttr "uniqueCount" new := by
  unfold Element.setAttr Element.pushAll
  dsimp only
  rw [Keyed.set_set_of_ne (by decide), Keyed.set_set_of_ne (by decide)]

/-- Entries that are read again, and plain ones for texts after them. -/
private theorem entries_ofDocument {s : SharedStrings} (h : s.Sound)
    (hfst : (ofDocument s.path s.document.tidy).read.map Prod.fst = s.table.toList)
    (more : List String) :
    List.Forall₂ SameTree (entries s.read (s.table.toList ++ more))
      (entries (ofDocument s.path s.document.tidy).read (s.table.toList ++ more)) := by
  have hlength : (ofDocument s.path s.document.tidy).read.length = s.table.toList.length := by
    rw [← hfst, List.length_map]
  -- No text was added between writing and reading, so all that was written is in place.
  rw [entries_append h.short, entries_append hlength.le, entries_of_map_fst hfst,
    read_ofDocument h, List.map_map]
  refine List.rel_append ?_ ?_
  · exact List.forall₂_map_right_iff.2 (List.forall₂_same.2 fun e he =>
      .tidy_right (mem_entries h.read he).1)
  · exact List.forall₂_same.2 fun e he => by
      obtain ⟨text, -, rfl⟩ := List.mem_map.1 he
      exact .refl (writable_newEntry text)

/-- Shared strings that were written and are read again. -/
theorem Sound.alike_ofDocument {s : SharedStrings} (h : s.Sound)
    (htexts : ∀ t ∈ s.table.toList,
      Text.CodeEscape.decode (Text.CodeEscape.encode t.toList) = t.toList)
    (hwritten : s.isWritten = true) : s.Alike (ofDocument s.path s.document.tidy) := by
  have hfst : (ofDocument s.path s.document.tidy).read.map Prod.fst = s.table.toList := by
    rw [read_ofDocument h, List.map_map]
    exact entryText_entries h.read htexts
  refine ⟨rfl, ?_, ?_, fun t ht => ?_⟩
  · refine Eq.trans ?_ h.table.symm
    rw [← hfst]
    rfl
  · cases hexisted : s.existed with
    | true => exact .inl rfl
    | false => exact .inr ⟨rfl, by simpa [isWritten, hexisted] using hwritten⟩
  · obtain ⟨more, hmore⟩ := ht
    have hentries := entries_ofDocument h hfst more
    rw [hmore] at hentries
    -- The counts that were read with the root are written over.
    have hroot := ((root_ofDocument h).pushAll hentries).edit (tidyEdit_counts (toString t.size))
    rw [setAttr_counts] at hroot
    exact ⟨rfl, hroot⟩

/-- Alike shared strings stay alike when further texts are added to both tables. -/
theorem Alike.withTable {s s' : SharedStrings} (h : s.Alike s') {t : StringTable}
    (ht : s.table.GrowsTo t) : Alike { s with table := t } { s' with table := t } := by
  refine ⟨h.path, rfl, h.existed.imp_right fun hnew => ⟨hnew.1, ?_⟩, fun t' ht' =>
    h.document t' (ht.trans ht')⟩
  have hle : s.table.size ≤ t.size := by
    simpa [StringTable.toList, StringTable.size] using ht.length_le
  exact fun hempty => hnew.2 (Nat.le_zero.1 (hempty ▸ hle))

/-- Alike shared strings are written as documents that read back as the same. -/
theorem Alike.sameDocument {s s' : SharedStrings} (h : s.Alike s') :
    SameDocument s.document s'.document := by
  have htable : { s' with table := s.table } = s' := by rw [← h.table]
  have hsame := h.document s.table (.refl _)
  rwa [htable] at hsame

/-- They are written or not, both of them. -/
theorem Alike.isWritten {s s' : SharedStrings} (h : s.Alike s') :
    s'.isWritten = s.isWritten := by
  unfold SharedStrings.isWritten
  rw [h.table]
  rcases h.existed with hexisted | ⟨hexisted, hsize⟩
  · rw [hexisted]
  · simp [hexisted, hsize]

/-- The part is linked in both workbooks or in neither. One that is linked already is not linked
anew. -/
theorem Alike.register {s s' : SharedStrings} {rels rels' : Relationships}
    {types types' : ContentTypes} (h : s.Alike s') (hrels : rels.Alike rels')
    (htypes : types.Alike types')
    (hlinked : s'.existed = s.existed ∨ s'.existed = true ∧
      (rels.ofType? "sharedStrings").isSome = true ∧ types.hasOverride ("/" ++ s.path) = true) :
    BothOrNeither Eq (fun x x' : Relationships × ContentTypes => x.1.Alike x'.1 ∧ x.2.Alike x'.2)
      (s.register rels types) (s'.register rels' types') := by
  -- Either both existed already or neither did, unless the second was read back after the first had
  -- been registered.
  rcases hlinked with hexisted | ⟨hexisted, hsome, hoverride⟩
  · unfold SharedStrings.register SharedStrings.target
    rw [hexisted, h.isWritten, h.path]
    split
    · exact .ok ⟨hrels, htypes⟩
    · have hsame : (rels'.ofType? "sharedStrings").isSome =
          (rels.ofType? "sharedStrings").isSome := by
        simpa using congrArg Option.isSome (hrels.ofType? "sharedStrings")
      rw [hsame]
      dsimp only
      split
      · exact .ok ⟨hrels, htypes.ensureOverride _ _⟩
      · refine .bind ((hrels.add Relationships.sharedStringsType _).map fun _ _ hadd => hadd.1) ?_
        exact fun _ _ hadd => .ok ⟨hadd, htypes.ensureOverride _ _⟩
  · -- The strings that are not there yet have been registered before.
    have hdone : s.register rels types = .ok (rels, types) := by
      unfold SharedStrings.register
      split
      · rfl
      · simp only [ContentTypes.ensureOverride, hoverride, if_true]
        rfl
    have hdone' : s'.register rels' types' = .ok (rels', types') := by
      simp [SharedStrings.register, hexisted]
    rw [hdone, hdone']
    exact .ok ⟨hrels, htypes⟩

/-- A part that is written for the first time is linked and has a content type. -/
theorem register_new {s : SharedStrings} {rels rels' : Relationships}
    {types types' : ContentTypes} (h : s.register rels types = .ok (rels', types'))
    (hexisted : s.existed = false) (hwritten : s.isWritten = true) :
    (rels'.ofType? "sharedStrings").isSome = true ∧ types'.hasOverride ("/" ++ s.path) = true := by
  unfold register at h
  rw [if_neg (by simp [hexisted, hwritten])] at h
  dsimp only at h
  split at h
  -- A relationship was there, or the one that is added has the type.
  · cases h
    exact ⟨‹_›, ContentTypes.hasOverride_ensureOverride_self _ _ _⟩
  · obtain ⟨added, hadded, h⟩ := bind_eq_ok.1 h
    obtain ⟨⟨rels₁, id⟩, hadd, rfl⟩ := map_eq_ok.1 hadded
    cases h
    refine ⟨?_, ContentTypes.hasOverride_ensureOverride_self _ _ _⟩
    obtain ⟨n, -, hrels⟩ := map_eq_ok.1 hadd
    cases hrels
    have htype : isType "sharedStrings" Relationships.sharedStringsType = true := by decide
    refine List.find?_isSome.2 ⟨{
      name := "Relationship"
      attributes := [("Id", id), ("Type", Relationships.sharedStringsType),
        ("Target", s.target)] }, List.mem_filter.2 ⟨?_, rfl⟩, ?_⟩
    · rw [Relationships.mapRoot, Element.elements_push]
      exact List.mem_append_right _ (List.mem_singleton_self _)
    · simpa [Relationships.hasType, Element.attr?, List.lookup_cons] using htype

end SharedStrings

end SheetTemplate
