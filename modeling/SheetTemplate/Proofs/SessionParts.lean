import SheetTemplate.Fill.Session
import SheetTemplate.Proofs.PartNames
import SheetTemplate.Proofs.ReadMarkup
import SheetTemplate.Proofs.StringsReadBack

/-!
# What a session holds and what it has written

A session keeps the parts that all sheets share as they were read and changed. `Session.Sound` is
what holds of them from the time the package is opened; `Session.Stored` says that they are in the
package as well, which is so after every pass.

## Key results

- `sound_ofPackage`: a session that was opened
- `stored_of_commit`: a session that was written back
-/

namespace SheetTemplate

open Xml (Document Element SameDocument TidyEdit)

/-! ### Parts of a package -/

namespace Package

/-- A package in which every part that is markup uses names of XML. -/
def UsesNames (p : Package) : Prop :=
  ∀ part ∈ p.entries, ∀ d, Document.parse part.2 = .ok d → d.root.Named

/-- A part is read from its bytes. -/
theorem requireXml_eq_ok {p : Package} {name : String} {d : Document} :
    p.requireXml name = .ok d ↔
      ∃ bytes, p.get? name = some bytes ∧ Document.parse bytes = .ok d := by
  unfold requireXml
  cases p.get? name with
  | none => simp
  | some bytes => simp

/-- A part that is a document is read as one, whether it is asked for or required. -/
theorem xml?_eq_some {p : Package} {name : String} {d : Document} :
    p.xml? name = .ok (some d) ↔ p.requireXml name = .ok d := by
  unfold xml? requireXml
  cases p.get? name with
  | none => simp
  | some bytes => simp [map_eq_ok]

/-- A part that is not there is no document. -/
theorem xml?_of_get?_eq_none {p : Package} {name : String} (h : p.get? name = none) :
    p.xml? name = .ok none := by
  rw [xml?, h]

/-- A package that uses names has writable documents. -/
theorem UsesNames.writable {p : Package} (h : p.UsesNames) {name : String} {d : Document}
    (hread : p.requireXml name = .ok d) : d.Writable := by
  obtain ⟨bytes, hget, hparse⟩ := requireXml_eq_ok.1 hread
  obtain ⟨before, after, hsplit, -⟩ := List.lookup_eq_some_iff.1 hget
  exact Xml.Document.writable_of_parse hparse (h (name, bytes) (by rw [hsplit]; simp) d hparse)

/-- A part that was written is read in its tidy form. -/
theorem requireXml_of_get? {p : Package} {name : String} {d : Document}
    (h : p.get? name = some d.toBytes) (hd : d.Writable) : p.requireXml name = .ok d.tidy :=
  requireXml_eq_ok.2 ⟨_, h, Xml.Document.parse_toBytes hd⟩

/-- A part that is removed is not there. -/
theorem get?_remove_self (p : Package) (name : String) : (p.remove name).get? name = none := by
  rw [get?, List.lookup_eq_none_iff]
  intro part hpart
  have := (List.mem_filter.1 hpart).2
  simpa using Ne.symm (by simpa using this)

/-- Other parts are as they were. -/
theorem get?_remove_of_ne (p : Package) {name other : String} (h : other ≠ name) :
    (p.remove name).get? other = p.get? other := by
  unfold get? remove
  dsimp only
  induction p.entries with
  | nil => rfl
  | cons part r ih =>
    by_cases hpart : part.1 = name
    · have hne : (other == part.1) = false := beq_eq_false_iff_ne.2 (hpart ▸ h)
      rw [List.filter_cons_of_neg (by simp [hpart]), ih, List.lookup_cons, hne]
    · rw [List.filter_cons_of_pos (by simp [hpart]), List.lookup_cons, List.lookup_cons, ih]

/-- After setting a part the names are those before and its own. -/
@[simp]
theorem mem_names_set {p : Package} {name other : String} {bytes : ByteArray} :
    other ∈ (p.set name bytes).names ↔ other = name ∨ other ∈ p.names := by
  rw [names, set, Keyed.map_fst_set, ← names]
  split
  · rename_i hmem
    exact ⟨.inr, fun h => h.elim (fun heq => heq ▸ hmem) id⟩
  · rw [List.mem_append, List.mem_singleton, or_comm]

/-- After removing a part the names are the others. -/
@[simp]
theorem mem_names_remove {p : Package} {name other : String} :
    other ∈ (p.remove name).names ↔ other ∈ p.names ∧ other ≠ name := by
  simp only [names, remove, List.mem_map, List.mem_filter, bne_iff_ne, ne_eq]
  constructor
  · rintro ⟨part, ⟨hpart, hne⟩, rfl⟩
    exact ⟨⟨part, hpart, rfl⟩, hne⟩
  · rintro ⟨⟨part, hpart, rfl⟩, hne⟩
    exact ⟨part, ⟨hpart, hne⟩, rfl⟩

/-- A name is one of the package if it has a part. -/
theorem mem_names_iff {p : Package} {name : String} :
    name ∈ p.names ↔ (p.get? name).isSome = true := by
  rw [← not_iff_not, Bool.not_eq_true, Option.isSome_eq_false_iff, Option.isNone_iff_eq_none, get?,
    List.lookup_eq_none_iff, names, List.mem_map, not_exists]
  refine forall_congr' fun part => ?_
  rw [not_and, bne_iff_ne, ne_comm]

/-- A part that can be read is there. -/
theorem mem_names_of_requireXml {p : Package} {name : String} {d : Document}
    (h : p.requireXml name = .ok d) : name ∈ p.names := by
  obtain ⟨bytes, hget, -⟩ := requireXml_eq_ok.1 h
  rw [mem_names_iff, hget]
  rfl

/-- The package that holds some documents. -/
def ofDocuments (documents : List (String × Document)) : Package :=
  ⟨documents.map fun part => (part.1, part.2.toBytes)⟩

/-- A package made of documents has the bytes of each document. -/
theorem get?_ofDocuments (documents : List (String × Document)) (name : String) :
    (ofDocuments documents).get? name = (documents.lookup name).map Document.toBytes := by
  unfold get? ofDocuments
  dsimp only
  induction documents with
  | nil => rfl
  | cons part r ih =>
    rw [List.map_cons, List.lookup_cons, List.lookup_cons, ih]
    split <;> rfl

/-- Documents that can be written and are tidy are read as they are. -/
theorem requireXml_ofDocuments {documents : List (String × Document)}
    (h : ∀ part ∈ documents, part.2.Writable ∧ part.2.tidy = part.2) {name : String} {d : Document}
    (hd : documents.lookup name = some d) : (ofDocuments documents).requireXml name = .ok d := by
  obtain ⟨before, after, hsplit, -⟩ := List.lookup_eq_some_iff.1 hd
  obtain ⟨hwritable, htidy⟩ := h (name, d) (by rw [hsplit]; simp)
  rw [requireXml_of_get? (by rw [get?_ofDocuments, hd]; rfl) hwritable, htidy]

/-- A package made of documents with names uses names. -/
theorem usesNames_ofDocuments {documents : List (String × Document)}
    (h : ∀ part ∈ documents, part.2.Writable ∧ part.2.tidy = part.2 ∧ part.2.root.Named) :
    (ofDocuments documents).UsesNames := by
  intro part hpart d hd
  obtain ⟨part, hmem, rfl⟩ := List.mem_map.1 hpart
  obtain ⟨hwritable, htidy, hnamed⟩ := h part hmem
  rw [Xml.Document.parse_toBytes hwritable, htidy] at hd
  exact Except.ok.inj hd ▸ hnamed

end Package

/-- Relationships are read from the part of their path. -/
theorem Relationships.load?_eq_some {p : Package} {path : String} {r : Relationships} :
    Relationships.load? p path = .ok (some r) ↔ r.path = path ∧ p.requireXml path = .ok r.doc := by
  unfold Relationships.load?
  rw [map_eq_ok]
  -- A part that is not there gives no relationships, one that is gives those written in it.
  constructor
  · rintro ⟨o, ho, hr⟩
    cases o with
    | none => cases hr
    | some d =>
      cases hr
      exact ⟨rfl, Package.xml?_eq_some.1 ho⟩
  · rintro ⟨rfl, hread⟩
    exact ⟨_, Package.xml?_eq_some.2 hread, rfl⟩

/-- A type does not end in two different names. -/
theorem Relationships.hasType_calcChain_of_sharedStrings {rel : Element}
    (h : Relationships.hasType "sharedStrings" rel = true) :
    Relationships.hasType "calcChain" rel = false := by
  unfold Relationships.hasType at h ⊢
  cases hvalue : rel.attr? "Type" with
  | none => rfl
  | some type =>
    rw [hvalue] at h
    simp only [Option.any_some, isType] at h ⊢
    -- Two words as long as these cannot both end one type unless one ends the other.
    have hstrings := List.isSuffixOf_iff_suffix.1 h
    refine Bool.eq_false_iff.2 fun hchain => ?_
    have := List.suffix_of_suffix_length_le (List.isSuffixOf_iff_suffix.1 hchain) hstrings
      (by decide)
    exact absurd this (by decide)

/-- A workbook is read from its part and the part of its relationships. -/
theorem Workbook.load_eq_ok {p : Package} {w : Workbook} :
    Workbook.load p = .ok w ↔ Workbook.pathIn p = .ok w.path ∧ p.requireXml w.path = .ok w.doc ∧
      w.rels.path = PartPath.relationshipsOf w.path ∧ p.requireXml w.rels.path = .ok w.rels.doc ∧
      w.sheets = Workbook.listSheets w.path w.doc w.rels := by
  unfold Workbook.load
  simp only [bind_eq_ok]
  -- The path, the document and the links are read one after the other, and the sheets are listed
  -- from them.
  constructor
  · rintro ⟨path, hpath, doc, hdoc, o, hrels, h⟩
    cases o with
    | none => cases h
    | some rels =>
      cases h
      obtain ⟨hrelsPath, hread⟩ := Relationships.load?_eq_some.1 hrels
      exact ⟨hpath, hdoc, hrelsPath, hrelsPath ▸ hread, rfl⟩
  · rintro ⟨hpath, hdoc, hrelsPath, hread, hsheets⟩
    refine ⟨w.path, hpath, w.doc, hdoc, some w.rels,
      Relationships.load?_eq_some.2 ⟨hrelsPath, hrelsPath ▸ hread⟩, ?_⟩
    dsimp only
    rw [← hsheets]
    rfl

namespace Session

/-! ### Sound sessions -/

/-- What holds of the parts of a session that all sheets share. -/
structure Sound (s : Session) : Prop where
  workbook : s.workbook.Alike s.workbook
  types : s.types.Alike s.types
  strings : s.strings.Sound
  relsPath : s.workbook.rels.path = PartPath.relationshipsOf s.workbook.path
  /-- Shared strings that are not there yet do not stand for the content types. -/
  apart : s.strings.existed = false → s.strings.path ≠ Package.contentTypesPart

/-- The shared strings of a package, or new ones for a part that is not there. -/
theorem load_strings {p : Package} {path? : Option String} {strings : SharedStrings}
    (h : SharedStrings.load p path? = .ok strings) :
    (∃ path d, path? = some path ∧ p.requireXml path = .ok d ∧ strings = .ofDocument path d) ∨
      strings = .empty SharedStrings.defaultPath ∨
      ∃ path, p.get? path = none ∧ strings = .empty path := by
  -- There is no path, no part at the path, or a part that is read.
  unfold SharedStrings.load at h
  split at h
  · cases h
    exact .inr (.inl rfl)
  · rename_i path
    obtain ⟨o, ho, hstrings⟩ := map_eq_ok.1 h
    cases o with
    | some d =>
      cases hstrings
      exact .inl ⟨path, d, rfl, Package.xml?_eq_some.1 ho, rfl⟩
    | none =>
      cases hstrings
      refine .inr (.inr ⟨path, ?_, rfl⟩)
      unfold Package.xml? at ho
      split at ho
      · obtain ⟨d, -, hd⟩ := map_eq_ok.1 ho
        cases hd
      · assumption

/-- A session is opened from its package and from what three of the parts hold. -/
theorem ofPackage_eq_ok {p : Package} {s : Session} :
    ofPackage p = .ok s ↔ Workbook.load p = .ok s.workbook ∧
      SharedStrings.load p s.workbook.sharedStringsPath? = .ok s.strings ∧
      ContentTypes.load p = .ok s.types ∧ s.package = p := by
  unfold ofPackage
  simp only [bind_eq_ok]
  constructor
  · rintro ⟨workbook, hworkbook, strings, hstrings, types, htypes, h⟩
    cases h
    exact ⟨hworkbook, hstrings, htypes, rfl⟩
  · rintro ⟨hworkbook, hstrings, htypes, rfl⟩
    exact ⟨_, hworkbook, _, hstrings, _, htypes, rfl⟩

/-- A package whose parts use names of XML is opened as a sound session. -/
theorem sound_ofPackage {p : Package} {s : Session} (hp : p.UsesNames) (h : ofPackage p = .ok s) :
    s.Sound := by
  obtain ⟨package, workbook, strings, types⟩ := s
  obtain ⟨hworkbook, hstrings, htypes, rfl⟩ := ofPackage_eq_ok.1 h
  dsimp only at hworkbook hstrings htypes hp
  obtain ⟨-, hdoc, hrelsPath, hrels, -⟩ := Workbook.load_eq_ok.1 hworkbook
  obtain ⟨d, hd, rfl⟩ := map_eq_ok.1 htypes
  refine ⟨⟨rfl, rfl, fun _ => .refl (hp.writable hdoc), .refl (hp.writable hrels)⟩,
    .refl (hp.writable hd), ?_, hrelsPath, ?_⟩
  · rcases load_strings hstrings with ⟨path, doc, -, hread, rfl⟩ | rfl | ⟨path, -, rfl⟩
    · exact SharedStrings.sound_ofDocument path (hp.writable hread)
    · exact SharedStrings.sound_empty _
    · exact SharedStrings.sound_empty _
  · intro hexisted
    rcases load_strings hstrings with ⟨path, doc, -, hread, rfl⟩ | rfl | ⟨path, hnone, rfl⟩
    · cases hexisted
    · exact show SharedStrings.defaultPath ≠ Package.contentTypesPart by decide
    · -- The content types were read, so their part is not missing.
      rintro rfl
      obtain ⟨bytes, hget, -⟩ := Package.requireXml_eq_ok.1 hd
      rw [hnone] at hget
      cases hget

/-- The session in which a package of documents is opened. -/
def ofDocuments (documents : List (String × Document)) : Session :=
  let part := fun name => (documents.lookup name).getD default
  let relsPath := PartPath.relationshipsOf Workbook.defaultPath
  let rels := ⟨relsPath, part relsPath⟩
  let workbook := {
    path := Workbook.defaultPath, doc := part Workbook.defaultPath, rels
    sheets := Workbook.listSheets Workbook.defaultPath (part Workbook.defaultPath) rels }
  { package := .ofDocuments documents, workbook
    strings := match workbook.sharedStringsPath? with
      | some path => ((documents.lookup path).map (.ofDocument path)).getD (.empty path)
      | none => .empty SharedStrings.defaultPath
    types := ⟨part Package.contentTypesPart⟩ }

/-- Documents that can be written and are tidy make a package that can be opened, if those of the
workbook and the content types are among them. -/
theorem ofPackage_ofDocuments {documents : List (String × Document)}
    (h : ∀ part ∈ documents, part.2.Writable ∧ part.2.tidy = part.2)
    (hroot : documents.lookup "_rels/.rels" = none)
    (hparts : ∀ name ∈ [Workbook.defaultPath, PartPath.relationshipsOf Workbook.defaultPath,
      Package.contentTypesPart], (documents.lookup name).isSome = true) :
    ofPackage (.ofDocuments documents) = .ok (ofDocuments documents) := by
  -- Every part is read as the document it was written from.
  have hread : ∀ {name : String}, (documents.lookup name).isSome = true →
      (Package.ofDocuments documents).requireXml name =
        .ok ((documents.lookup name).getD default) := by
    intro name hname
    obtain ⟨d, hd⟩ := Option.isSome_iff_exists.1 hname
    rw [Package.requireXml_ofDocuments h hd, hd]
    rfl
  have hpath : Workbook.pathIn (.ofDocuments documents) = .ok Workbook.defaultPath := by
    have hnone := Package.get?_ofDocuments documents "_rels/.rels"
    rw [hroot] at hnone
    rw [Workbook.pathIn, Relationships.load?, Package.xml?_of_get?_eq_none hnone]
    rfl
  have hworkbook := hread (hparts _ List.mem_cons_self)
  have hrels := hread (hparts _ (List.mem_cons_of_mem _ List.mem_cons_self))
  have htypes := hread (hparts _ (List.mem_cons_of_mem _ (List.mem_cons_of_mem _
    List.mem_cons_self)))
  rw [ofPackage_eq_ok]
  unfold ofDocuments
  dsimp only
  rw [Workbook.load_eq_ok]
  dsimp only
  refine ⟨⟨hpath, hworkbook, rfl, hrels, rfl⟩, ?_, map_eq_ok.2 ⟨_, htypes, rfl⟩, rfl⟩
  -- The shared strings are where the workbook links them, if it links any and the part is there.
  unfold SharedStrings.load
  generalize Workbook.sharedStringsPath? _ = path?
  cases path? with
  | none => rfl
  | some path =>
    dsimp only
    cases hd : documents.lookup path with
    | none =>
      have hnone := Package.get?_ofDocuments documents path
      rw [hd] at hnone
      rw [Package.xml?_of_get?_eq_none hnone]
      rfl
    | some d =>
      rw [Package.xml?_eq_some.2 (Package.requireXml_ofDocuments h hd)]
      rfl

/-! ### Alike sessions -/

/-- Sessions that write back the same. In one the shared strings may be there already that the other
has added; they are linked then, and have a content type. -/
structure Alike (s s' : Session) : Prop where
  package : s.package.Alike s'.package
  workbook : s.workbook.Alike s'.workbook
  types : s.types.Alike s'.types
  strings : s.strings.Alike s'.strings
  linked : s'.strings.existed = s.strings.existed ∨ s'.strings.existed = true ∧
    (s.workbook.rels.ofType? "sharedStrings").isSome = true ∧
      s.types.hasOverride ("/" ++ s.strings.path) = true

/-- A sound session is alike to itself. -/
theorem Sound.alike_self {s : Session} (h : s.Sound) : s.Alike s :=
  ⟨.refl _, h.workbook, h.types, h.strings.alike_self, .inl rfl⟩

/-- What is written back of a session, given what has become of the relationships of the workbook
and of the content types. -/
def written (s : Session) (rels : Relationships) (types : ContentTypes) : Session :=
  let dropped := { s.workbook with rels }.dropCalcChain (s.strings.write s.package) types
  { s with
    package := dropped.2.2.save (dropped.1.save dropped.2.1), workbook := dropped.1
    types := dropped.2.2 }

/-- Writing back succeeds exactly with what is registered. -/
theorem commit_eq_ok {s next : Session} (h : s.commit = .ok next) :
    ∃ rels types, s.strings.register s.workbook.rels s.types = .ok (rels, types) ∧
      next = s.written rels types := by
  unfold commit at h
  dsimp only at h
  split at h
  · cases h
  · rename_i rels types hregister
    cases h
    exact ⟨rels, types, hregister, rfl⟩

/-- Alike shared strings are written alike. -/
private theorem alike_write {s s' : SharedStrings} (h : s.Alike s') {p p' : Package}
    (hp : p.Alike p') : (s.write p).Alike (s'.write p') := by
  unfold SharedStrings.write
  rw [h.isWritten, h.path]
  split
  · exact hp.set _ h.sameDocument.sameContent
  · exact hp

/-- Registering keeps the path of the relationships. -/
private theorem path_of_register {s : SharedStrings} {rels rels' : Relationships}
    {types types' : ContentTypes} (h : s.register rels types = .ok (rels', types')) :
    rels'.path = rels.path := by
  unfold SharedStrings.register at h
  split at h
  · cases h
    rfl
  · dsimp only at h
    split at h
    · cases h
      rfl
    · obtain ⟨added, hadded, h⟩ := bind_eq_ok.1 h
      obtain ⟨⟨rels₁, id⟩, hadd, rfl⟩ := map_eq_ok.1 hadded
      obtain ⟨n, -, hrels⟩ := map_eq_ok.1 hadd
      cases hrels
      cases h
      rfl

/-- Dropping the order of calculation keeps the paths of the workbook. -/
theorem paths_dropCalcChain (w : Workbook) (p : Package) (types : ContentTypes) :
    (w.dropCalcChain p types).1.path = w.path ∧
      (w.dropCalcChain p types).1.rels.path = w.rels.path := by
  unfold Workbook.dropCalcChain
  split <;> exact ⟨rfl, rfl⟩

/-- Alike sessions write back alike parts, or neither can. -/
theorem Alike.commit {s s' : Session} (h : s.Alike s')
    (hrels : s.workbook.rels.path ≠ Package.contentTypesPart) :
    BothOrNeither (fun e e' => e.1 = e'.1) (fun next next' => next.package.Alike next'.package ∧
        next.workbook.Alike next'.workbook ∧ next.types.Alike next'.types) s.commit s'.commit := by
  have hregister := h.strings.register h.workbook.rels h.types h.linked
  unfold Session.commit
  dsimp only
  cases hs : s.strings.register s.workbook.rels s.types with
  -- Registering can fail, and does so on both sides or on neither.
  | error e =>
    rw [hs] at hregister
    generalize s'.strings.register s'.workbook.rels s'.types = result at hregister ⊢
    cases hregister with
    | error he => exact .error he
  | ok registered =>
    obtain ⟨rels, types⟩ := registered
    have hpath := path_of_register hs
    rw [hs] at hregister
    generalize s'.strings.register s'.workbook.rels s'.types = result at hregister ⊢
    cases hregister with
    | @ok _ registered' hboth =>
      obtain ⟨rels', types'⟩ := registered'
      -- What was registered is alike, and so is what is written of it.
      have hworkbook : Workbook.Alike { s.workbook with rels }
          { s'.workbook with rels := rels' } :=
        ⟨h.workbook.path, h.workbook.sheets, h.workbook.doc, hboth.1⟩
      obtain ⟨hw, hp, ht⟩ := hworkbook.dropCalcChain (alike_write h.strings h.package) hboth.2
      refine .ok ⟨hw.save hp ht ?_, hw, ht⟩
      rwa [(paths_dropCalcChain _ _ _).2, hpath]

/-- The relationships of other types stay where the order of calculation is dropped. -/
private theorem isSome_ofType?_removeType {r : Relationships}
    (h : (r.ofType? "sharedStrings").isSome = true) :
    ((r.removeType "calcChain").ofType? "sharedStrings").isSome = true := by
  obtain ⟨rel, hmem, htype⟩ := List.find?_isSome.1 h
  obtain ⟨hmem, hname⟩ := List.mem_filter.1 hmem
  refine List.find?_isSome.2 ⟨rel, List.mem_filter.2 ⟨?_, hname⟩, htype⟩
  rw [Relationships.removeType, Relationships.mapRoot, Element.elements_removeWhere]
  refine List.mem_filter.2 ⟨hmem, ?_⟩
  simp [Relationships.hasType_calcChain_of_sharedStrings htype]

/-- A session whose parts are in its package as it has them. Shared strings that it has added are
linked and have a content type, unless another part took their place. -/
structure Stored (s : Session) : Prop where
  workbook : s.workbook.path ≠ Package.contentTypesPart →
    s.package.get? s.workbook.path = some s.workbook.doc.toBytes
  rels : s.package.get? s.workbook.rels.path = some s.workbook.rels.doc.toBytes
  types : s.package.get? Package.contentTypesPart = some s.types.doc.toBytes
  linked : s.strings.existed = false → s.strings.isWritten = true →
    (s.workbook.rels.ofType? "sharedStrings").isSome = true
  listed : s.strings.existed = false → s.strings.isWritten = true →
    s.types.hasOverride ("/" ++ s.strings.path) = true ∨
      s.package.get? s.strings.path = none ∨ s.strings.path = s.workbook.path ∨
      s.strings.path = s.workbook.rels.path

/-- Where the workbook, its relationships and the content types are written, and that all else
stays. -/
theorem get?_saved {w : Workbook} (hrels : w.rels.path ≠ Package.contentTypesPart)
    (hpath : w.path ≠ w.rels.path) (p : Package) (t : ContentTypes) :
    (w.path ≠ Package.contentTypesPart →
      (t.save (w.save p)).get? w.path = some w.doc.toBytes) ∧
    (t.save (w.save p)).get? w.rels.path = some w.rels.doc.toBytes ∧
    (t.save (w.save p)).get? Package.contentTypesPart = some t.doc.toBytes ∧
    ∀ name, name ≠ w.path → name ≠ w.rels.path → name ≠ Package.contentTypesPart →
      (t.save (w.save p)).get? name = p.get? name := by
  unfold ContentTypes.save Workbook.save Relationships.save Package.setXml
  refine ⟨fun hne => ?_, ?_, ?_, fun name hw hr ht => ?_⟩
  · rw [Package.get?_set_of_ne _ hne, Package.get?_set_of_ne _ hpath, Package.get?_set_self]
  · rw [Package.get?_set_of_ne _ hrels, Package.get?_set_self]
  · rw [Package.get?_set_self]
  · rw [Package.get?_set_of_ne _ ht, Package.get?_set_of_ne _ hr, Package.get?_set_of_ne _ hw]

/-- Dropping the order of calculation takes away its part and content type, and no others. -/
private theorem listed_dropCalcChain {w : Workbook} {p : Package} {t : ContentTypes}
    {path : String} (h : t.hasOverride ("/" ++ path) = true) :
    (w.dropCalcChain p t).2.2.hasOverride ("/" ++ path) = true ∨
      (w.dropCalcChain p t).2.1.get? path = none := by
  unfold Workbook.dropCalcChain
  split
  · rename_i chain _
    by_cases hchain : path = chain
    · rw [hchain]
      exact .inr (Package.get?_remove_self p chain)
    · refine .inl (ContentTypes.hasOverride_removeOverride_of_ne h fun heq => hchain ?_)
      simpa using heq
  · exact .inl h

/-- After writing back, the parts of the workbook and the shared strings are stored. -/
private theorem stored_written {s : Session} (h : s.Sound) {rels : Relationships}
    {types : ContentTypes} (hpath : rels.path = s.workbook.rels.path)
    (hnew : s.strings.existed = false → s.strings.isWritten = true →
      (rels.ofType? "sharedStrings").isSome = true ∧
        types.hasOverride ("/" ++ s.strings.path) = true) : (s.written rels types).Stored := by
  have hpaths := paths_dropCalcChain { s.workbook with rels } (s.strings.write s.package) types
  have hcontentTypes : rels.path ≠ Package.contentTypesPart := by
    rw [hpath, h.relsPath]
    exact PartPath.relationshipsOf_ne_contentTypes _
  have hworkbook : s.workbook.path ≠ rels.path := by
    rw [hpath, h.relsPath]
    exact (PartPath.relationshipsOf_ne _).symm
  have hsaved := get?_saved (w := (s.written rels types).workbook) (hpaths.2 ▸ hcontentTypes)
    (hpaths.1 ▸ hpaths.2 ▸ hworkbook)
    ({ s.workbook with rels }.dropCalcChain (s.strings.write s.package) types).2.1
    (s.written rels types).types
  -- New shared strings have been registered: the relationship stands unless it was the order of
  -- calculation.
  refine ⟨hsaved.1, hsaved.2.1, hsaved.2.2.1, fun hexisted hwritten => ?_,
    fun hexisted hwritten => ?_⟩
  · show ((Workbook.dropCalcChain { s.workbook with rels } _ types).1.rels.ofType? _).isSome = true
    unfold Workbook.dropCalcChain
    split
    · exact isSome_ofType?_removeType (hnew hexisted hwritten).1
    · exact (hnew hexisted hwritten).1
  · -- The workbook and its relationships are written after the shared strings.
    by_cases hw : s.strings.path = (s.written rels types).workbook.path
    · exact .inr (.inr (.inl hw))
    by_cases hr : s.strings.path = (s.written rels types).workbook.rels.path
    · exact .inr (.inr (.inr hr))
    rcases listed_dropCalcChain (w := { s.workbook with rels })
        (p := s.strings.write s.package) (hnew hexisted hwritten).2 with hlisted | hgone
    · exact .inl hlisted
    · refine .inr (.inl ?_)
      exact (hsaved.2.2.2 _ hw hr (h.apart hexisted)).trans hgone

/-- A session that was written back is sound again, and its parts are in the package. -/
theorem stored_of_commit {s next : Session} (h : s.Sound) (hcommit : s.commit = .ok next) :
    next.Sound ∧ next.Stored := by
  obtain ⟨rels, types, hregister, rfl⟩ := commit_eq_ok hcommit
  have hpath := path_of_register hregister
  refine ⟨?_, stored_written h hpath fun hexisted hwritten =>
    SharedStrings.register_new hregister hexisted hwritten⟩
  have hself := h.alike_self.commit (h.relsPath ▸ PartPath.relationshipsOf_ne_contentTypes _)
  rw [hcommit] at hself
  -- Writing back does not move the parts of the workbook.
  have hpaths := paths_dropCalcChain { s.workbook with rels } (s.strings.write s.package) types
  cases hself with
  | ok hsame =>
    refine ⟨hsame.2.1, hsame.2.2, h.strings, ?_, h.apart⟩
    show (Workbook.dropCalcChain _ _ _).1.rels.path = PartPath.relationshipsOf _
    rw [hpaths.2]
    show rels.path = PartPath.relationshipsOf (Workbook.dropCalcChain _ _ _).1.path
    rw [hpaths.1, hpath, h.relsPath]

end Session

end SheetTemplate
