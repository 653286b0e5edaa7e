import SheetTemplate.Proofs.FailedPasses
import SheetTemplate.Proofs.SessionParts

/-!
# Sessions that are reopened

Between two passes the package of a session may be written and opened anew. The new session has read
what the old one has written, so that the two are alike, and a pass does the same to both. What is
written last under a name is what is read there. So this holds of packages in which no part stands
for two things: `ReadsBack` says what has to be found again.

## Key results

- `fill_alike`: a pass over alike sessions
- `stored_of_fill`: what a pass leaves in the package
- `alike_reopen`: a session and the one that is opened from its package
-/

namespace SheetTemplate

open Fill (Pass TwinRelation SkippedImage)
open Xml (Document Element SameDocument)

namespace Session

variable {options : FillOptions} {files : ImageFiles} {values : Substitutions}

/-! ### Passes over sound sessions -/

/-- What passes over a session and over one that is alike have in common. -/
private def sharing (s : Session) : TwinRelation where
  workbook w w' := w.Alike w' ∧ w.path = s.workbook.path ∧ w.rels = s.workbook.rels
  types t t' := t.Alike t' ∧ ∀ part, s.types.hasOverride part = true → t.hasOverride part = true
  strings t := t = .ofList t.toList ∧ s.strings.table.GrowsTo t
  moveNames rule h := ⟨h.1.moveNames rule, h.2⟩
  ensureDefault extension type h := ⟨h.1.ensureDefault extension type, fun part hpart =>
    ContentTypes.hasOverride_ensureDefault (h.2 part hpart) extension type⟩
  ensureOverride other type h := ⟨h.1.ensureOverride other type, fun part hpart =>
    ContentTypes.hasOverride_ensureOverride (h.2 part hpart) other type⟩
  index text h :=
    ⟨StringTable.index_eq_ofList h.1 text, h.2.trans (StringTable.growsTo_index _ text)⟩

/-- Passes over one sheet of alike sessions with the same package begin as twins. -/
private theorem start_twins {s s' : Session} (hs : s.Sound) (h : s.Alike s')
    (hpackage : s'.package = s.package) (info : SheetInfo) :
    BothOrNeither Eq (Pass.Twins s.sharing)
      (Pass.start s.package s.workbook s.strings.table s.types info)
      (Pass.start s'.package s'.workbook s'.strings.table s'.types info) := by
  rw [hpackage, h.strings.table]
  unfold Pass.start
  refine .bind (.self _) ?_
  rintro sheet _ rfl
  refine .bind (.self _) ?_
  rintro tables _ rfl
  refine .bind (.self _) ?_
  rintro drawing _ rfl
  exact .ok (.intro ⟨h.workbook, rfl, rfl⟩ ⟨h.types, fun _ hpart => hpart⟩
    ⟨hs.strings.table, .refl _⟩)

/-- Alike sessions over one package begin the same pass. -/
private theorem startPass_twins {s s' : Session} (hs : s.Sound) (h : s.Alike s')
    (hpackage : s'.package = s.package) (selector : SheetSelector) :
    BothOrNeither Eq (Pass.Twins s.sharing) (s.startPass selector) (s'.startPass selector) := by
  have hfind : s'.workbook.findSheet selector = s.workbook.findSheet selector := by
    unfold Workbook.findSheet Workbook.sheet? Workbook.sheetById?
    rw [h.workbook.sheets]
  unfold startPass
  rw [hfind]
  cases s.workbook.findSheet selector with
  | error e => exact .error rfl
  | ok info => exact start_twins hs h hpackage info

/-- Alike sessions are alike after twin passes. -/
private theorem during_alike {s s' : Session} (h : s.Alike s') {q q' : Pass}
    (hq : Pass.Twins s.sharing q q') : (s.during q).Alike (s'.during q') := by
  -- The table and the package of the pass are the same on both sides.
  have htable : q'.strings = q.strings ∧ q'.package = q.package := by
    cases hq
    exact ⟨rfl, rfl⟩
  have hstrings := h.strings.withTable hq.strings.2
  refine ⟨?_, hq.workbook.1, hq.types.1, ?_, ?_⟩
  · rw [during, during, htable.2]
    exact .refl _
  · rw [during, during, htable.1]
    exact hstrings
  · refine h.linked.imp_right fun hlinked => ⟨hlinked.1, ?_, hq.types.2 _ hlinked.2.2⟩
    show (q.workbook.rels.ofType? "sharedStrings").isSome = true
    rw [hq.workbook.2.2]
    exact hlinked.2.1

/-- What the pass has changed is sound again. -/
private theorem during_sound {s : Session} (hs : s.Sound) {q : Pass}
    (hq : Pass.Twins s.sharing q q) : (s.during q).Sound where
  workbook := hq.workbook.1
  types := hq.types.1
  strings := hs.strings.withTable hq.strings.1 hq.strings.2
  relsPath := by
    show q.workbook.rels.path = PartPath.relationshipsOf q.workbook.path
    rw [hq.workbook.2.2, hq.workbook.2.1, hs.relsPath]
  apart := hs.apart

/-- Committing alike sessions gives alike packages. -/
private theorem commit_during {s s' : Session} (hs : s.Sound) (h : s.Alike s') {q q' : Pass}
    (hq : Pass.Twins s.sharing q q') :
    BothOrNeither (fun e e' => e.1 = e'.1)
      (fun next next' => next.package.Alike next'.package) (s.during q).commit
      (s'.during q').commit := by
  have hrels : (s.during q).workbook.rels.path ≠ Package.contentTypesPart := by
    show q.workbook.rels.path ≠ _
    rw [hq.workbook.2.2, hs.relsPath]
    exact PartPath.relationshipsOf_ne_contentTypes _
  have hcommit := (during_alike h hq).commit hrels
  generalize (s.during q).commit = x at hcommit ⊢
  generalize (s'.during q').commit = x' at hcommit ⊢
  cases hcommit with
  | ok hnext => exact .ok hnext.1
  | error he => exact .error he

variable (options files values) in
/-- Twin passes over alike sessions write back the same, or end for the same reason. -/
private theorem runPass_alike {s s' : Session} (hs : s.Sound) (h : s.Alike s') {p p' : Pass}
    (hp : Pass.Twins s.sharing p p') :
    BothOrNeither (fun abort abort' => abort.error = abort'.error ∧ abort.skipped = abort'.skipped)
      (fun x x' => x.1.package.Alike x'.1.package ∧ x.2 = x'.2)
      (s.runPass options files values p) (s'.runPass options files values p') := by
  have hrun := Pass.twins_run hp options files values
  unfold runPass
  generalize p.run options files values = x at hrun ⊢
  generalize p'.run options files values = x' at hrun ⊢
  -- Either both runs fail, with the same error, or both go on to the commit.
  cases hrun with
  | error hfailure => exact .error hfailure
  | @ok q q' hq =>
    have hskipped : q.skipped = q'.skipped := by
      cases hq
      rfl
    have hcommit := commit_during hs h hq
    dsimp only
    generalize (s.during q).commit = y at hcommit ⊢
    generalize (s'.during q').commit = y' at hcommit ⊢
    cases hcommit with
    | ok hnext => exact .ok ⟨hnext, hskipped⟩
    | error he => exact .error ⟨he, hskipped⟩

/-- Calls for a sheet of alike sessions with the same package come to alike packages, and have the
same report. -/
theorem fill_alike {s s' : Session} (hs : s.Sound) (h : s.Alike s')
    (hpackage : s'.package = s.package) (selector : SheetSelector) :
    (s.fill options files selector values).1.package.Alike
        (s'.fill options files selector values).1.package ∧
      (s.fill options files selector values).2 = (s'.fill options files selector values).2 := by
  have hsame : s.package.Alike s'.package := hpackage ▸ .refl _
  have hstart := startPass_twins hs h hpackage selector
  unfold fill
  generalize s.startPass selector = x at hstart ⊢
  generalize s'.startPass selector = x' at hstart ⊢
  -- A pass that cannot begin fails alike; one that begins runs alike.
  cases hstart with
  | error he => exact ⟨hsame, by rw [he]⟩
  | @ok p p' hp =>
    have hrun := runPass_alike options files values hs h hp
    dsimp only
    generalize s.runPass options files values p = y at hrun ⊢
    generalize s'.runPass options files values p' = y' at hrun ⊢
    cases hrun with
    | error hfailure =>
      refine ⟨hsame, ?_⟩
      dsimp only
      rw [hfailure.1, hfailure.2]
    | @ok x x' hnext =>
      obtain ⟨next, skipped⟩ := x
      obtain ⟨next', skipped'⟩ := x'
      exact ⟨hnext.1, by rw [show skipped = skipped' from hnext.2]⟩

/-! ### After a pass -/

/-- A call that succeeds leaves a sound session with its parts in the package, and it has found a
sheet. -/
theorem stored_of_fill {s next : Session} {selector : SheetSelector} {report : Report}
    (hs : s.Sound) (h : s.fill options files selector values = (next, report))
    (hreport : report.failure = none) :
    next.Sound ∧ next.Stored ∧ next.workbook.sheets ≠ [] := by
  obtain ⟨p, hstart, hpass⟩ := fill_eq_ok options files h hreport
  obtain ⟨q, hrun, hcommit⟩ := runPass_eq_ok options files hpass
  have hp := startPass_twins hs hs.alike_self rfl selector
  rw [hstart] at hp
  cases hp with
  | ok hp =>
    obtain ⟨hsound, hstored⟩ :=
      stored_of_commit (during_sound hs (Pass.twins_of_run hrun hp)) hcommit
    refine ⟨hsound, hstored, ?_⟩
    -- A pass keeps the list of sheets, in which it has found its own.
    obtain ⟨info, hfind, hinfo⟩ := bind_eq_ok.1 hstart
    rw [sheets_of_runPass options files hpass, workbook_start hinfo]
    intro hnone
    have hsheet : s.workbook.sheet? selector = none := by
      cases selector <;> simp [Workbook.sheet?, Workbook.sheetById?, hnone]
    rw [Workbook.findSheet, hsheet] at hfind
    cases hfind

/-! ### The session that is opened anew -/

/-- The part that a workbook links holds what was written of the shared strings, or is missing as
long as nothing was. -/
def HoldsStrings (s : Session) (linked : Option String) : Prop :=
  if s.strings.isWritten then
    linked = some s.strings.path ∧
      s.package.get? s.strings.path = some s.strings.document.toBytes
  else
    linked.getD SharedStrings.defaultPath = s.strings.path ∧
      (linked.isSome → s.package.get? s.strings.path = none)

instance (s : Session) (linked : Option String) : Decidable (s.HoldsStrings linked) :=
  inferInstanceAs (Decidable (ite _ _ _))

/-- What has to be found in the package of a session for it to be opened as it is: no part has the
name of a directory, the workbook is the same part with the same sheets, and the shared strings are
the same part and hold what was written of them, with texts that survive their escapes. -/
structure ReadsBack (s : Session) : Prop where
  directories : ∀ name ∈ s.package.names, Package.isDirectory name = false
  path : Workbook.pathIn s.package = .ok s.workbook.path
  sheets : ∀ w, Workbook.load s.package = .ok w → w.sheets = s.workbook.sheets
  strings : ∀ w, Workbook.load s.package = .ok w → s.HoldsStrings w.sharedStringsPath?
  texts : ∀ text ∈ s.strings.table.toList,
    Text.CodeEscape.decode (Text.CodeEscape.encode text.toList) = text.toList

variable {s : Session}

/-- The parts that are written are those that are read, in their order. -/
theorem reopen_package (hstored : s.Stored)
    (h : ∀ name ∈ s.package.names, Package.isDirectory name = false) :
    s.package.reopen = .ok s.package := by
  have htypes : s.package.entries.any (·.1 == Package.contentTypesPart) = true := by
    obtain ⟨before, after, hsplit, -⟩ := List.lookup_eq_some_iff.1 hstored.types
    simp [hsplit]
  have hkept : s.package.entries.filter (!Package.isDirectory ·.1) = s.package.entries :=
    List.filter_eq_self.2 fun part hpart => by
      rw [h part.1 (List.mem_map_of_mem hpart)]
      rfl
  rw [Package.reopen, Package.ofArchive, if_pos htypes, hkept]

/-- The content types are read as they were written, tidied. -/
theorem load_types (hs : s.Sound) (hstored : s.Stored) :
    ContentTypes.load s.package = .ok { doc := s.types.doc.tidy } :=
  map_eq_ok.2 ⟨_, Package.requireXml_of_get? hstored.types hs.types.root.left, rfl⟩

/-- The workbook that is read again. -/
def reread (s : Session) : Workbook :=
  let doc :=
    if s.workbook.path = Package.contentTypesPart then s.types.doc.tidy else s.workbook.doc.tidy
  let rels := { path := s.workbook.rels.path, doc := s.workbook.rels.doc.tidy }
  { path := s.workbook.path, doc, rels, sheets := Workbook.listSheets s.workbook.path doc rels }

/-- So is the workbook, if it is found at its path. -/
theorem load_reread (hs : s.Sound) (hstored : s.Stored)
    (hpath : Workbook.pathIn s.package = .ok s.workbook.path) :
    Workbook.load s.package = .ok s.reread := by
  refine Workbook.load_eq_ok.2 ⟨hpath, ?_, hs.relsPath,
    Package.requireXml_of_get? hstored.rels hs.workbook.rels.doc.root.left, rfl⟩
  show s.package.requireXml s.workbook.path = .ok (if _ then _ else _)
  split
  · rename_i heq
    rw [heq, Package.requireXml_of_get? hstored.types hs.types.root.left]
  · rename_i hne
    exact Package.requireXml_of_get? (hstored.workbook hne) (hs.workbook.doc hne).root.left

/-- The workbook that is read is like the one of the session. -/
private theorem load_workbook (hs : s.Sound) (hstored : s.Stored) (h : s.ReadsBack) :
    ∃ w, Workbook.load s.package = .ok w ∧ s.workbook.Alike w := by
  have hload := load_reread hs hstored h.path
  refine ⟨s.reread, hload, rfl, h.sheets _ hload, fun hne => ?_, rfl,
    .tidy_right hs.workbook.rels.doc.root.left⟩
  rw [reread, if_neg hne]
  exact .tidy_right (hs.workbook.doc hne).root.left

/-- The shared strings that are read again. -/
private theorem load_sharedStrings (hs : s.Sound) (h : s.ReadsBack) {w : Workbook}
    (hw : Workbook.load s.package = .ok w) :
    ∃ strings, SharedStrings.load s.package w.sharedStringsPath? = .ok strings ∧
      s.strings.Alike strings := by
  have hholds := h.strings w hw
  unfold HoldsStrings at hholds
  -- Strings that were written are read, and others were not there.
  cases hwritten : s.strings.isWritten with
  | true =>
    rw [hwritten, if_pos rfl] at hholds
    obtain ⟨hlink, hpart⟩ := hholds
    have hread := Package.requireXml_of_get? hpart (hs.strings.writable_document s.strings.table)
    refine ⟨_, ?_, hs.strings.alike_ofDocument h.texts hwritten⟩
    rw [hlink]
    exact map_eq_ok.2 ⟨_, Package.xml?_eq_some.2 hread, rfl⟩
  | false =>
    rw [hwritten, if_neg (by simp)] at hholds
    obtain ⟨hlink, hpart⟩ := hholds
    refine ⟨s.strings, ?_, hs.strings.alike_self⟩
    -- Strings that were never written are new and without texts, as those begun anew are.
    have hnew : s.strings = .empty s.strings.path := by
      simp only [SharedStrings.isWritten, Bool.or_eq_false_iff, bne_eq_false_iff_eq] at hwritten
      have hempty : s.strings.table.toList = [] := by
        simpa [StringTable.toList, StringTable.size] using hwritten.2
      refine (hs.strings.new hwritten.1).trans ?_
      rw [hs.strings.table, hempty]
      rfl
    cases hpath : w.sharedStringsPath? with
    | none =>
      rw [hpath] at hlink
      rw [hnew, ← hlink]
      rfl
    | some path =>
      obtain rfl : path = s.strings.path := by simpa [hpath] using hlink
      have hnone := Package.xml?_of_get?_eq_none (hpart (by rw [hpath]; rfl))
      exact map_eq_ok.2 ⟨none, hnone, hnew.symm⟩

/-- Shared strings that were added are linked and have a content type, for no other part can have
taken their place. -/
private theorem listed_of_readsBack (hs : s.Sound) (hstored : s.Stored) (h : s.ReadsBack)
    (hsheets : s.workbook.sheets ≠ []) (hexisted : s.strings.existed = false)
    (hwritten : s.strings.isWritten = true) :
    s.types.hasOverride ("/" ++ s.strings.path) = true := by
  obtain ⟨w, hw, hsame⟩ := load_workbook hs hstored h
  have hholds := h.strings w hw
  rw [HoldsStrings, if_pos hwritten] at hholds
  have hpart := hholds.2
  have hstrings := hs.strings.writable_document s.strings.table
  -- Another part in the place would read as shared strings do, which have entries only.
  have hentries : ∀ (name : String) {d : Document}, name ≠ "si" → d.Writable →
      s.package.get? s.strings.path = some d.toBytes → d.tidy.root.named name = [] := by
    intro name d hname hd hget
    have hparse := Xml.Document.parse_toBytes hd
    rw [← Option.some.inj (hpart.symm.trans hget), Xml.Document.parse_toBytes hstrings] at hparse
    rw [← Except.ok.inj hparse, Document.tidy, Element.named_tidy]
    exact List.map_eq_nil_iff.2 (hs.strings.named_document hname)
  -- The part of the strings is listed, or it is missing, or another part has its place.
  rcases hstored.listed hexisted hwritten with hlisted | hnone | hpath | hpath
  · exact hlisted
  · rw [hnone] at hpart
    cases hpart
  · have hne : s.workbook.path ≠ Package.contentTypesPart := hpath ▸ hs.apart hexisted
    have hdoc := (hs.workbook.doc hne).root.left
    have hnamed := hentries "sheets" (by decide) hdoc (hpath ▸ hstored.workbook hne)
    obtain ⟨-, hread, -, -, hlist⟩ := Workbook.load_eq_ok.1 hw
    rw [hsame.path, Package.requireXml_of_get? (hstored.workbook hne) hdoc] at hread
    rw [Workbook.listSheets, ← Except.ok.inj hread, Element.child?_eq_none hnamed] at hlist
    exact absurd ((h.sheets w hw).symm.trans hlist) hsheets
  · have hrels := hs.workbook.rels.doc.root.left
    have hnamed := hentries "Relationship" (by decide) hrels (hpath ▸ hstored.rels)
    rw [Document.tidy, Element.named_tidy, List.map_eq_nil_iff] at hnamed
    have hlinked := hstored.linked hexisted hwritten
    rw [Relationships.ofType?, Relationships.toList, hnamed] at hlinked
    cases hlinked

/-- A session is alike to the one that is opened from its package. -/
theorem alike_reopen (hs : s.Sound) (hstored : s.Stored) (h : s.ReadsBack)
    (hsheets : s.workbook.sheets ≠ []) :
    ∃ r, s.reopen = .ok r ∧ r.package = s.package ∧ s.Alike r := by
  obtain ⟨w, hw, hworkbook⟩ := load_workbook hs hstored h
  obtain ⟨strings, hstrings, hsame⟩ := load_sharedStrings hs h hw
  refine ⟨⟨s.package, w, strings, { doc := s.types.doc.tidy }⟩, ?_, rfl, ⟨.refl _, hworkbook,
    .tidy_right hs.types.root.left, hsame, ?_⟩⟩
  · rw [reopen, reopen_package hstored h.directories]
    exact ofPackage_eq_ok.2 ⟨hw, hstrings, load_types hs hstored, rfl⟩
  · -- Shared strings that the session has added are there for the one that is opened.
    rcases hsame.existed with hexisted | ⟨hexisted, hsize⟩
    · exact .inl hexisted
    · cases hwas : s.strings.existed with
      | true => exact .inl hexisted
      | false =>
        have hwritten : s.strings.isWritten = true := by simp [SharedStrings.isWritten, hsize]
        exact .inr ⟨hexisted, hstored.linked hwas hwritten,
          listed_of_readsBack hs hstored h hsheets hwas hwritten⟩

/-! ### Two passes -/

/-- Writing a package and opening it anew between two passes makes no difference if it reads back.
The second pass succeeds in both sessions, or fails for the same reason in both, and what it leaves
is the same: the same names in the same order, with the same content under each. -/
theorem reopening_between_passes {package : Package} {first second : Session}
    {selector selector' : SheetSelector} {values' : Substitutions} {report : Report}
    (hnames : package.UsesNames) (hopen : ofPackage package = .ok first)
    (hfill : first.fill options files selector values = (second, report))
    (hreport : report.failure = none) (hread : second.ReadsBack) :
    ∃ reopened, second.reopen = .ok reopened ∧
      (second.fill options files selector' values').1.package.Alike
        (reopened.fill options files selector' values').1.package ∧
      (second.fill options files selector' values').2 =
        (reopened.fill options files selector' values').2 := by
  obtain ⟨hsound, hstored, hsheets⟩ := stored_of_fill (sound_ofPackage hnames hopen) hfill hreport
  obtain ⟨reopened, hreopen, hpackage, halike⟩ := alike_reopen hsound hstored hread hsheets
  exact ⟨reopened, hreopen, fill_alike hsound halike hpackage selector'⟩

/-- A relationship of a workbook. -/
def workbookLink (id type target : String) : Element :=
  { name := "Relationship", attributes := [("Id", id), ("Type", "/" ++ type), ("Target", target)] }

/-- The documents of a workbook with two sheets, of which one shows the shared string and the other
is empty, and with more relationships. -/
def sampleDocuments (more : List Element) : List (String × Document) :=
  let listed := fun (name id : String) =>
    ({ name := "sheet", attributes := [("name", name), ("r:id", id)] } : Element)
  [(Package.contentTypesPart, { root := { name := "Types" } }),
    ("xl/workbook.xml", { root := .ofChildren "workbook" [] [
      .ofChildren "sheets" [] [listed "Plan" "plan", listed "List" "list"]] }),
    ("xl/_rels/workbook.xml.rels", { root := .ofChildren "Relationships" [] <| [
      workbookLink "plan" "worksheet" "plan.xml", workbookLink "list" "worksheet" "list.xml",
      workbookLink "strings" "sharedStrings" "strings.xml"] ++ more }),
    ("xl/strings.xml", { root := .ofChildren "sst" [] [.ofChildren "si" [] [.ofText "t" "${x}"]] }),
    ("xl/plan.xml", { root := .ofChildren "worksheet" [] [.ofChildren "sheetData" [] [
      .ofChildren "row" [("r", "1")] [
        .ofChildren "c" [("r", "A1"), ("t", "s")] [.ofText "v" "0"]]]] }),
    ("xl/list.xml", { root := .ofChildren "worksheet" [] [{ name := "sheetData" }] })]

/-- The package of these documents, and the session in which it is opened. -/
def sampleSession (more : List Element) : Session :=
  let part := fun name => ((sampleDocuments more).lookup name).getD default
  let rels := ⟨"xl/_rels/workbook.xml.rels", part "xl/_rels/workbook.xml.rels"⟩
  { package := ⟨(sampleDocuments more).map fun part => (part.1, part.2.toBytes)⟩
    workbook := {
      path := "xl/workbook.xml", doc := part "xl/workbook.xml", rels
      sheets := Workbook.listSheets "xl/workbook.xml" (part "xl/workbook.xml") rels }
    strings := .ofDocument "xl/strings.xml" (part "xl/strings.xml")
    types := ⟨part Package.contentTypesPart⟩ }

/-- The sample opens, and its names are those of its documents. -/
private theorem ofPackage_sample (more : List Element)
    (h : ∀ part ∈ sampleDocuments more,
      part.2.Writable ∧ part.2.tidy = part.2 ∧ part.2.root.Named)
    (hlink : (sampleSession more).workbook.sharedStringsPath? = some "xl/strings.xml") :
    (sampleSession more).package.UsesNames ∧
      ofPackage (sampleSession more).package = .ok (sampleSession more) := by
  have hread : ∀ {name : String} {d : Document}, (sampleDocuments more).lookup name = some d →
      (sampleSession more).package.requireXml name = .ok d :=
    Package.requireXml_ofDocuments fun part hpart => ⟨(h part hpart).1, (h part hpart).2.1⟩
  -- No part says where the workbook is, so it is looked for at the usual path.
  have hpath : Workbook.pathIn (sampleSession more).package = .ok "xl/workbook.xml" := by
    rw [Workbook.pathIn, Relationships.load?,
      Package.xml?_of_get?_eq_none (Package.get?_ofDocuments (sampleDocuments more) _)]
    rfl
  have hrels : "xl/_rels/workbook.xml.rels" = PartPath.relationshipsOf "xl/workbook.xml" := by
    decide +kernel
  refine ⟨Package.usesNames_ofDocuments h, ofPackage_eq_ok.2
    ⟨Workbook.load_eq_ok.2 ⟨hpath, hread rfl, hrels, hread rfl, rfl⟩, ?_,
      map_eq_ok.2 ⟨_, hread rfl, rfl⟩, rfl⟩⟩
  rw [hlink]
  exact map_eq_ok.2 ⟨_, Package.xml?_eq_some.2 (hread rfl), rfl⟩

/-- Two passes over a sheet, of which the second finds what the first wrote. -/
theorem reopening_between_passes_sample :
    ∃ first second report reopened, ofPackage (sampleSession []).package = .ok first ∧
      first.fill {} (fun _ => none) (.name "Plan") [("x", .text "new")] = (second, report) ∧
      second.strings.table.toList = ["${x}", "new"] ∧ second.reopen = .ok reopened ∧
      (second.fill {} (fun _ => none) (.name "Plan") [("x", .text "newer")]).1.package.Alike
        (reopened.fill {} (fun _ => none) (.name "Plan") [("x", .text "newer")]).1.package := by
  obtain ⟨hnames, hopen⟩ := ofPackage_sample [] (by decide +kernel) (by decide +kernel)
  generalize hfill :
    (sampleSession []).fill {} (fun _ => none) (.name "Plan") [("x", .text "new")] = result
  -- All that has to be evaluated, in one run of the first pass.
  have hresult : result.2.failure = none ∧
      (∀ name ∈ result.1.package.names, Package.isDirectory name = false) ∧
      Workbook.pathIn result.1.package = .ok result.1.workbook.path ∧
      result.1.reread.sheets = result.1.workbook.sheets ∧
      result.1.HoldsStrings result.1.reread.sharedStringsPath? ∧
      result.1.strings.table.toList = ["${x}", "new"] := by
    rw [← hfill]
    decide +kernel
  obtain ⟨second, report⟩ := result
  obtain ⟨hreport, hdirectories, hpath, hsheets, hholds, htable⟩ := hresult
  dsimp only at hreport hdirectories hpath hsheets hholds htable
  obtain ⟨hsound, hstored, -⟩ := stored_of_fill (sound_ofPackage hnames hopen) hfill hreport
  have hload := load_reread hsound hstored hpath
  have hread : second.ReadsBack := {
    directories := hdirectories
    path := hpath
    sheets := fun w hw => Except.ok.inj (hload.symm.trans hw) ▸ hsheets
    strings := fun w hw => Except.ok.inj (hload.symm.trans hw) ▸ hholds
    texts := by
      rw [htable]
      decide +kernel }
  obtain ⟨reopened, hreopen, halike, -⟩ :=
    reopening_between_passes hnames hopen hfill hreport hread
  exact ⟨_, second, report, reopened, hopen, hfill, htable, hreopen, halike⟩

/-- The session that is opened where the shared strings are linked, but missing. -/
def withoutStrings (s : Session) : Session :=
  { s with
    workbook := s.reread, strings := .empty s.strings.path, types := { doc := s.types.doc.tidy } }

/-- A session whose strings are gone opens without them. -/
private theorem reopen_withoutStrings (hs : s.Sound) (hstored : s.Stored)
    (hdirectories : ∀ name ∈ s.package.names, Package.isDirectory name = false)
    (hpath : Workbook.pathIn s.package = .ok s.workbook.path)
    (hlink : s.reread.sharedStringsPath? = some s.strings.path)
    (hnone : s.package.get? s.strings.path = none) : s.reopen = .ok s.withoutStrings := by
  rw [reopen, reopen_package hstored hdirectories]
  refine ofPackage_eq_ok.2 ⟨load_reread hs hstored hpath, ?_, load_types hs hstored, rfl⟩
  show SharedStrings.load s.package s.reread.sharedStringsPath? = _
  rw [hlink]
  exact map_eq_ok.2 ⟨none, Package.xml?_of_get?_eq_none hnone, rfl⟩

/-- It is not enough that the passes succeed, that the texts survive their escapes and that the
shared strings are linked as before. Where the order of calculation is linked to the part of the
shared strings, the part is taken away after it was written. The second pass writes it again, though
not in a session that no longer finds it. -/
theorem reopening_changes_package :
    ¬∀ (options : FillOptions) (files : ImageFiles) (package : Package)
        (first second third reopened : Session) (selector selector' : SheetSelector)
        (values values' : Substitutions) (report report' : Report),
      package.UsesNames → ofPackage package = .ok first →
      first.fill options files selector values = (second, report) → report.failure = none →
      second.fill options files selector' values' = (third, report') → report'.failure = none →
      second.reopen = .ok reopened →
      (∀ text ∈ second.strings.table.toList,
        Text.CodeEscape.decode (Text.CodeEscape.encode text.toList) = text.toList) →
      reopened.workbook.sharedStringsPath? = some second.strings.path →
      (reopened.fill options files selector' values').2.failure = none ∧
        third.package.Alike (reopened.fill options files selector' values').1.package := by
  intro hall
  obtain ⟨hnames, hopen⟩ := ofPackage_sample [workbookLink "order" "calcChain" "strings.xml"]
    (by decide +kernel) (by decide +kernel)
  generalize hfirst : sampleSession [workbookLink "order" "calcChain" "strings.xml"] = first
    at hnames hopen
  generalize hfill : first.fill {} (fun _ => none) (.name "List") [] = result
  generalize hfill' : result.1.fill {} (fun _ => none) (.name "List") [] = result'
  -- All that has to be evaluated, in one run of both passes.
  have hresult : result.2.failure = none ∧ result'.2.failure = none ∧
      (∀ name ∈ result.1.package.names, Package.isDirectory name = false) ∧
      Workbook.pathIn result.1.package = .ok result.1.workbook.path ∧
      result.1.reread.sharedStringsPath? = some result.1.strings.path ∧
      result.1.package.get? result.1.strings.path = none ∧
      result.1.strings.table.toList = ["${x}"] ∧
      result'.1.package.names ≠
        (result.1.withoutStrings.fill {} (fun _ => none) (.name "List") []).1.package.names := by
    rw [← hfill', ← hfill, ← hfirst]
    decide +kernel
  obtain ⟨second, report⟩ := result
  obtain ⟨third, report'⟩ := result'
  obtain ⟨hreport, hreport', hdirectories, hpath, hlink, hnone, htable, hdiffer⟩ := hresult
  dsimp only at hreport hreport' hdirectories hpath hlink hnone htable hdiffer
  obtain ⟨hsound, hstored, -⟩ := stored_of_fill (sound_ofPackage hnames hopen) hfill hreport
  have hreopen := reopen_withoutStrings hsound hstored hdirectories hpath hlink hnone
  have htexts : ∀ text ∈ second.strings.table.toList,
      Text.CodeEscape.decode (Text.CodeEscape.encode text.toList) = text.toList := by
    rw [htable]
    decide +kernel
  -- The law says that both packages have the same names.
  have hsame := hall {} (fun _ => none) _ first second third _ _ _ [] [] report report' hnames hopen
    hfill hreport hfill' hreport' hreopen htexts hlink
  exact hdiffer hsame.2.names

end Session

end SheetTemplate
